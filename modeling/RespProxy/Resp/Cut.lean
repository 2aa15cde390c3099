import RespProxy.Resp.Tree

/-! # What a deadline does to a read

A read looks at the bytes in front of the next deadline (or of the end of the
connection) only. Either it ends among them, and then in the same way whatever
comes behind them, or it has taken all of them and waits: then a deadline gives
a timeout and the end of the connection an end-of-file error, with all those
bytes gone.

* `Bytewise`: this dichotomy, closed under sequencing;
* `readValueF_bytewise`: the reader has it;
* `readValue_error`: so a failed `ReadValue` stood in front of no complete frame.
-/

namespace RespProxy

/-- The bytes of a stream. -/
def bytesOf (s : Stream) : Bytes :=
  s.filterMap fun
    | .byte b => some b
    | .expire => none

@[simp] theorem bytesOf_nil : bytesOf [] = [] := rfl

@[simp] theorem bytesOf_expire (s : Stream) : bytesOf (.expire :: s) = bytesOf s := rfl

@[simp] theorem bytesOf_map_append (bs : Bytes) (s : Stream) :
    bytesOf (bs.map Arrival.byte ++ s) = bs ++ bytesOf s := by
  induction bs with
  | nil => rfl
  | cons b bs ih =>
    show b :: bytesOf (bs.map Arrival.byte ++ s) = _
    rw [ih, List.cons_append]

@[simp] theorem bytesOf_map (bs : Bytes) : bytesOf (bs.map Arrival.byte) = bs := by
  have h := bytesOf_map_append bs []
  rwa [List.append_nil, bytesOf_nil, List.append_nil] at h

/-- A stream is bytes up to its end or up to its first deadline. -/
theorem Stream.bytes_then (s : Stream) :
    ∃ bs : Bytes, s = bs.map Arrival.byte ∨ ∃ s', s = bs.map Arrival.byte ++ .expire :: s' := by
  induction s with
  | nil => exact ⟨[], .inl rfl⟩
  | cons a s ih =>
    cases a with
    | expire => exact ⟨[], .inr ⟨s, rfl⟩⟩
    | byte b =>
      obtain ⟨bs, rfl | ⟨s', rfl⟩⟩ := ih
      · exact ⟨b :: bs, .inl rfl⟩
      · exact ⟨b :: bs, .inr ⟨s', rfl⟩⟩

theorem length_bytesOf_le (s : Stream) : (bytesOf s).length ≤ s.length :=
  List.length_filterMap_le _ _

namespace Resp

variable {α β : Type}
variable {e : ReadErr} {f : α → Read β} {p : Read α}

/-- `p` ends among the bytes `bs`, whatever comes behind them. -/
def EndsIn (p : Read α) (bs raw : Bytes) : Prop :=
  ∃ left raw', (∃ a, ∀ s, p (before bs raw s) = .ok a (before left raw' s)) ∨
    ∃ e, e ≠ .timeout ∧ ∀ s, p (before bs raw s) = .error e (before left raw' s)

/-- `p` takes all of `bs` and waits for more. -/
def WaitsAt (p : Read α) (bs raw : Bytes) : Prop :=
  ∃ raw', (∀ s, p (before bs raw (.expire :: s)) = .error .timeout { stream := s, raw := raw' }) ∧
    ∃ e, e ≠ .timeout ∧ p (before bs raw []) = .error e { stream := [], raw := raw' }

/-- `p` ends among the bytes it gets or waits behind them. -/
def Bytewise (p : Read α) : Prop := ∀ bs raw, EndsIn p bs raw ∨ WaitsAt p bs raw

theorem bind_of_ok {st st' : RState} {a : α} (h : p st = .ok a st') : (p >>= f) st = f a st' := by
  show EStateM.bind p f st = _
  rw [EStateM.bind, h]

theorem bind_of_error {st st' : RState}
    (h : p st = .error e st') : (p >>= f) st = .error e st' := by
  show EStateM.bind p f st = _
  rw [EStateM.bind, h]

theorem Bytewise.bind (hp : Bytewise p) (hf : ∀ a, Bytewise (f a)) : Bytewise (p >>= f) := by
  intro bs raw
  rcases hp bs raw with ⟨left, raw', ⟨a, h⟩ | ⟨e, he, h⟩⟩ | ⟨raw', h, e, he, h'⟩
  · -- `p` returned, and `f a` goes on with what is left
    rcases hf a left raw' with ⟨left₂, raw₂, ⟨b, h₂⟩ | ⟨e, he, h₂⟩⟩ | ⟨raw₂, h₂, e, he, h₂'⟩
    · exact .inl ⟨left₂, raw₂, .inl ⟨b, fun s => by rw [bind_of_ok (h s), h₂]⟩⟩
    · exact .inl ⟨left₂, raw₂, .inr ⟨e, he, fun s => by rw [bind_of_ok (h s), h₂]⟩⟩
    · refine .inr ⟨raw₂, fun s => ?_, e, he, ?_⟩
      · rw [bind_of_ok (h _), h₂]
      · rw [bind_of_ok (h _), h₂']
  · exact .inl ⟨left, raw', .inr ⟨e, he, fun s => bind_of_error (h s)⟩⟩
  · exact .inr ⟨raw', fun s => bind_of_error (h s), e, he, bind_of_error h'⟩

theorem Bytewise.pure (a : α) : Bytewise (Pure.pure a : Read α) :=
  fun bs raw => .inl ⟨bs, raw, .inl ⟨a, fun _ => rfl⟩⟩

theorem Bytewise.throw (he : e ≠ .timeout) : Bytewise (throw e : Read α) :=
  fun bs raw => .inl ⟨bs, raw, .inr ⟨e, he, fun _ => rfl⟩⟩

/-! ## Lines and payloads -/

theorem readSlice_bytewise (bs : Bytes) :
    (∃ line left : Bytes, ∀ s,
        readSlice (bs.map Arrival.byte ++ s) = .ok line (left.map Arrival.byte ++ s)) ∨
      (∀ s, readSlice (bs.map Arrival.byte ++ .expire :: s) = .error .timeout s) ∧
        readSlice (bs.map Arrival.byte) = .error .eof [] := by
  induction bs with
  | nil => exact .inr ⟨fun _ => rfl, rfl⟩
  | cons b bs ih =>
    by_cases hb : b = lf
    · exact .inl ⟨[b], bs, fun s => by simp [readSlice, hb]⟩
    · rcases ih with ⟨line, left, h⟩ | ⟨h, h'⟩
      · exact .inl ⟨b :: line, left, fun s => by simp [readSlice, hb, h]⟩
      · exact .inr ⟨fun s => by simp [readSlice, hb, h], by simp [readSlice, hb, h']⟩

theorem readLine_bytewise : Bytewise readLine := by
  intro bs raw
  rcases readSlice_bytewise bs with ⟨line, left, h⟩ | ⟨h, h'⟩
  · refine .inl ⟨left, raw ++ line, ?_⟩
    by_cases hcr : line.dropLast.getLast? = some cr
    · exact .inl ⟨line.dropLast.dropLast, fun s => by simp [readLine, before, h, hcr]⟩
    · exact .inr ⟨.protocol, by decide, fun s => by simp [readLine, before, h, hcr]⟩
  · exact .inr ⟨raw, fun s => by simp [readLine, before, h], .eof, by decide,
      by simp [readLine, before, h']⟩

theorem readFull_bytewise (n : Nat) (b : Bool) (bs : Bytes) :
    (∃ buf left : Bytes, ∀ s,
        readFull n b (bs.map Arrival.byte ++ s) = .ok buf (left.map Arrival.byte ++ s)) ∨
      (∀ s, readFull n b (bs.map Arrival.byte ++ .expire :: s) = .error .timeout s) ∧
        ∃ e, e ≠ .timeout ∧ readFull n b (bs.map Arrival.byte) = .error e [] := by
  induction n generalizing b bs with
  | zero => exact .inl ⟨[], bs, fun _ => rfl⟩
  | succ n ih =>
    cases bs with
    | nil =>
      refine .inr ⟨fun _ => rfl, if b then .unexpectedEOF else .eof, ?_, rfl⟩
      cases b <;> decide
    | cons c bs =>
      rcases ih true bs with ⟨buf, left, h⟩ | ⟨h, e, he, h'⟩
      · exact .inl ⟨c :: buf, left, fun s => by simp [readFull, h]⟩
      · exact .inr ⟨fun s => by simp [readFull, h], e, he, by simp [readFull, h']⟩

theorem readPayload_bytewise (n : Nat) : Bytewise (readPayload n) := by
  intro bs raw
  rcases readFull_bytewise n false bs with ⟨buf, left, h⟩ | ⟨h, e, he, h'⟩
  · exact .inl ⟨left, raw ++ buf, .inl ⟨buf, fun s => by simp [readPayload, before, h]⟩⟩
  · exact .inr ⟨raw, fun s => by simp [readPayload, before, h], e, he,
      by simp [readPayload, before, h']⟩

/-! ## The parser -/

theorem Bytewise.closed : Closed fun p => Bytewise p where
  pure := .pure
  protocol := .throw (by decide)
  bind := .bind
  payload := readPayload_bytewise

theorem readValueF_bytewise (fuel : Nat) : Bytewise (readValueF fuel) := by
  induction fuel with
  | zero => exact .throw (by decide)
  | succ fuel ih => exact Bytewise.closed.readValueF readLine_bytewise.bind (.throw (by decide)) ih

/-! ## `ReadValue` -/

/-- A reader with enough fuel that fails on bytes alone saw no complete frame
in front of them. -/
theorem not_isPrefix_of_error {fuel : Nat} {bs : Bytes} {st : RState}
    (hfuel : bs.length < fuel) (h : readValueF fuel (before bs [] []) = .error e st) {t : Tree}
    (ht : t.Wf) : ¬ t.bytes <+: bs := by
  rintro ⟨tail, rfl⟩
  rw [List.length_append] at hfuel
  have hok := readValueF_complete fuel ht (by omega) [] (tail.map Arrival.byte)
  rw [before, ← List.map_append, ← List.append_nil (List.map _ _), ← before, h] at hok
  cases hok

/-- **A failed `ReadValue` stood in front of no complete frame.** If the deadline
stopped it, the bytes in front of the deadline are gone. -/
theorem readValue_error {s s' : Stream} (h : readValue s = .error e s') :
    e ≠ .timeout ∧ (∀ t : Tree, t.Wf → ¬ t.bytes <+: bytesOf s) ∨
      e = .timeout ∧ ∃ bs : Bytes, s = bs.map Arrival.byte ++ .expire :: s' ∧
        ∀ t : Tree, t.Wf → ¬ t.bytes <+: bs := by
  unfold readValue at h
  cases hr : readValueF (s.length + 1) { stream := s, raw := [] } with
  | ok v st => simp [hr] at h
  | error e₁ st =>
    simp only [hr, EStateM.Result.error.injEq] at h
    obtain ⟨rfl, rfl⟩ := h
    have hlen := length_bytesOf_le s
    obtain ⟨bs, hs⟩ := Stream.bytes_then s
    rcases readValueF_bytewise (s.length + 1) bs [] with
      ⟨left, raw', ⟨v, hv⟩ | ⟨e, he, hv⟩⟩ | ⟨raw', hw, e, he, hw'⟩
    · -- a value was read: not an error
      exfalso
      rcases hs with hs | ⟨s₁, hs⟩
      · have := hv []
        rw [before, List.append_nil, ← hs, hr] at this
        cases this
      · have := hv (.expire :: s₁)
        rw [before, ← hs, hr] at this
        cases this
    · -- an error among the bytes, so also in front of all the bytes of the stream
      obtain ⟨tail, hb, hst⟩ : ∃ tail : Stream, s = bs.map Arrival.byte ++ tail ∧
          readValueF (s.length + 1) { stream := s, raw := [] } = .error e (before left raw' tail) := by
        rcases hs with hs | ⟨s₁, hs⟩
        · refine ⟨[], by simpa using hs, ?_⟩
          rw [← hv [], before, List.append_nil, ← hs]
        · refine ⟨.expire :: s₁, hs, ?_⟩
          rw [← hv (.expire :: s₁), before, ← hs]
      rw [hr, EStateM.Result.error.injEq] at hst
      obtain ⟨rfl, rfl⟩ := hst
      refine .inl ⟨he, fun t ht => ?_⟩
      have hall := hv ((bytesOf tail).map Arrival.byte)
      rw [before, ← List.map_append, ← bytesOf_map_append, ← hb,
        ← List.append_nil (List.map _ _), ← before] at hall
      exact not_isPrefix_of_error (by omega) hall ht
    · -- all bytes taken: the deadline or the end of the connection follows
      rcases hs with hs | ⟨s₁, hs⟩
      · have hx := hw'
        rw [before, List.append_nil, ← hs, hr, EStateM.Result.error.injEq] at hx
        obtain ⟨rfl, rfl⟩ := hx
        refine .inl ⟨he, fun t ht => ?_⟩
        have : bs.length ≤ s.length := by simp [hs]
        rw [hs, bytesOf_map]
        exact not_isPrefix_of_error (by omega) hw' ht
      · have hx := hw s₁
        rw [before, ← hs, hr, EStateM.Result.error.injEq] at hx
        obtain ⟨rfl, rfl⟩ := hx
        refine .inr ⟨rfl, bs, hs, fun t ht => ?_⟩
        have : bs.length ≤ s.length := by rw [hs]; simp
        exact not_isPrefix_of_error (by omega) hw' ht

end Resp

end RespProxy
