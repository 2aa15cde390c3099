import RespProxy.Resp.Tree

/-! # What the reader allocates

The reader once more, with a log of the lengths it hands to `make`. A length is
checked against its limit first, but the count of a map or an attribute is
doubled in front of that check, and a count from 2⁶² on wraps around to a
negative one.

* `readValueL_tracks`: without the log it is the reader;
* `Bounded`: all lengths are in range, and a value or an error is returned;
* `HugeMap`: the streams in which such a count comes where a value is read.
-/

namespace RespProxy.Resp

/-- A length handed to `make`, and the limit the source has for it. -/
structure Make where
  len : Int
  limit : Int
deriving DecidableEq, Repr

/-- The length is one `make` takes, and within its limit. -/
def Make.Fits (m : Make) : Prop := 0 ≤ m.len ∧ m.len ≤ m.limit

/-- The state of the reader with the log. -/
structure LState where
  base : RState
  made : List Make

abbrev LogRead := EStateM ReadErr LState

variable {α β : Type}
variable {g : α → Read β} {isMap : Bool} {bs : Bytes} {k : Nat}

variable {p : LogRead α} {st st' : RState} {f : α → LogRead β} {len : Bytes} {rv : Read Value}
  {q : Read α} {t : RType} {s : Stream} {n : Int} {m : Make}

/-- A step that allocates nothing. -/
def quietly (p : Read α) : LogRead α := fun st =>
  match p st.base with
  | .ok a base => .ok a { st with base }
  | .error e base => .error e { st with base }

/-- `make` with a length: logged, and a panic if it is negative. -/
def make (m : Make) : LogRead Unit := fun st =>
  let st := { st with made := st.made ++ [m] }
  if m.len < 0 then .error .panic st else .ok () st

/-! ## The reader with the log -/

/-- `readBulk`. -/
def readBulkL (t : RType) (lenField : Bytes) : LogRead Value := do
  let n ← quietly (parseInt lenField)
  if n < 0 then pure { type := t, null := true }
  else if n > maxBulk then throw .protocol
  else do
    make { len := n + 2, limit := maxBulk + 2 }
    let buf ← quietly (readPayload (n.toNat + 2))
    if buf.drop n.toNat ≠ crlf then throw .protocol
    else pure { type := t, str := .mk (buf.take n.toNat) }

/-- The loop of `readAggregate`. -/
def readItemsL (rv : LogRead Value) : Nat → LogRead (List Value)
  | 0 => pure []
  | n + 1 => do
    let v ← rv
    let vs ← readItemsL rv n
    return v :: vs

/-- `readAggregate`. -/
def readAggregateL (rv : LogRead Value) (t : RType) (lenField : Bytes) (isMap : Bool) :
    LogRead Value := do
  let n ← quietly (parseInt lenField)
  if n < 0 then pure { type := t, null := true }
  else if itemCount isMap n > maxItems then throw .protocol
  else do
    make { len := itemCount isMap n, limit := maxItems }
    let items ← readItemsL rv (itemCount isMap n).toNat
    pure { type := t, values := items }

/-- `readValue`, on fuel. -/
def readValueL : Nat → LogRead Value
  | 0 => throw .stuck
  | fuel + 1 => do
    let line ← quietly readLine
    match line with
    | [] => throw .protocol
    | c :: rest =>
      match RType.ofByte c with
      | some .bulkString => readBulkL .bulkString rest
      | some .blobError => readBulkL .blobError rest
      | some .verbatim => readBulkL .verbatim rest
      | some .array => readAggregateL (readValueL fuel) .array rest false
      | some .push => readAggregateL (readValueL fuel) .push rest false
      | some .set => readAggregateL (readValueL fuel) .set rest false
      | some .map => readAggregateL (readValueL fuel) .map rest true
      | some .attr => do
        let _ ← readAggregateL (readValueL fuel) .attr rest true
        readValueL fuel
      | some .integer => do
        let n ← quietly (parseInt rest)
        return { type := .integer, int := n }
      | some .zero | none => throw .protocol
      | some t => return lineValue t rest

/-- What `ReadValue` allocates. -/
def makes (s : Stream) : List Make :=
  match readValueL (s.length + 1) { base := { stream := s, raw := [] }, made := [] } with
  | .ok _ st => st.made
  | .error _ st => st.made

/-! ## Without the log -/

/-- The result without the log. -/
def erase : EStateM.Result ReadErr LState α → EStateM.Result ReadErr RState α
  | .ok a st => .ok a st.base
  | .error e st => .error e st.base

/-- `p` is `q` with a log. -/
def Erases (p : LogRead α) (q : Read α) : Prop := ∀ st, erase (p st) = q st.base

theorem Erases.bind
    (h : Erases p q) (hf : ∀ a, Erases (f a) (g a)) : Erases (p >>= f) (q >>= g) := by
  intro st
  show erase (EStateM.bind p f st) = EStateM.bind q g st.base
  have hst := h st
  unfold EStateM.bind
  cases hp : p st with
  | ok a st₁ =>
    rw [hp] at hst
    rw [← hst]
    exact hf a st₁
  | error e st₁ =>
    rw [hp] at hst
    rw [← hst]
    rfl

/-- `make` in front of a step is the check for a negative length. -/
theorem Erases.make (h : Erases p q) :
    Erases (Resp.make m >>= fun _ => p) (if m.len < 0 then MonadExcept.throw .panic else q) := by
  intro st
  show erase (EStateM.bind (Resp.make m) _ st) = _
  by_cases hneg : m.len < 0
  · simp only [EStateM.bind, Resp.make, hneg, if_true]
    rfl
  · simp only [EStateM.bind, Resp.make, hneg, if_false]
    exact h _

/-! ## Lengths in range -/

/-- Unless `p` panics, what it adds to the log fits. -/
def Logs (p : LogRead α) : Prop :=
  ∀ st, (∀ m ∈ st.made, m.Fits) →
    (∃ a st', p st = .ok a st' ∧ ∀ m ∈ st'.made, m.Fits) ∨
      ∃ e st', p st = .error e st' ∧ (e = .panic ∨ ∀ m ∈ st'.made, m.Fits)

theorem Logs.bind (hp : Logs p) (hf : ∀ a, Logs (f a)) :
    Logs (p >>= f) := by
  intro st hst
  show _ ∨ ∃ e st', EStateM.bind p f st = .error e st' ∧ _
  rcases hp st hst with ⟨a, st₁, hok, hst₁⟩ | ⟨e, st₁, herr, hst₁⟩
  · have hgo : EStateM.bind p f st = f a st₁ := by rw [EStateM.bind, hok]
    rw [hgo]
    rcases hf a st₁ hst₁ with ⟨b, st₂, h⟩ | h
    · exact .inl ⟨b, st₂, hgo.trans h.1, h.2⟩
    · exact .inr h
  · exact .inr ⟨e, st₁, by rw [EStateM.bind, herr], hst₁⟩

/-- A length below its limit fits unless it is negative, and then `make` panics. -/
theorem Logs.make (h : m.len ≤ m.limit) : Logs (Resp.make m) := by
  intro st hst
  by_cases hneg : m.len < 0
  · exact .inr ⟨.panic, _, by simp only [Resp.make, hneg, if_true]; rfl, .inl rfl⟩
  · refine .inl ⟨(), _, by simp only [Resp.make, hneg, if_false]; rfl, ?_⟩
    intro x hx
    rcases List.mem_append.1 hx with hx | hx
    · exact hst x hx
    · rw [List.mem_singleton.1 hx]
      exact ⟨by omega, h⟩

/-! ## Through the reader -/

/-- `p` is `q` with a log, and what it adds to the log fits. -/
abbrev Tracks (p : LogRead α) (q : Read α) : Prop := Erases p q ∧ Logs p

theorem Tracks.bind (h : Tracks p q) (hf : ∀ a, Tracks (f a) (g a)) : Tracks (p >>= f) (q >>= g) :=
  ⟨h.1.bind fun a => (hf a).1, h.2.bind fun a => (hf a).2⟩

theorem Tracks.pure (a : α) : Tracks (Pure.pure a) (Pure.pure a) :=
  ⟨fun _ => rfl, fun st hst => .inl ⟨a, st, rfl, hst⟩⟩

theorem Tracks.throw (e : ReadErr) : Tracks (throw e : LogRead α) (throw e) :=
  ⟨fun _ => rfl, fun st hst => .inr ⟨e, st, rfl, .inr hst⟩⟩

theorem Tracks.quietly (p : Read α) : Tracks (quietly p) p := by
  refine ⟨fun st => ?_, fun st hst => ?_⟩ <;> unfold Resp.quietly
  · cases p st.base <;> rfl
  · cases p st.base with
    | ok a base => exact .inl ⟨a, _, rfl, hst⟩
    | error e base => exact .inr ⟨e, _, rfl, .inr hst⟩

theorem Tracks.make (h : Tracks p q) (hm : m.len ≤ m.limit) :
    Tracks (Resp.make m >>= fun _ => p) (if m.len < 0 then MonadExcept.throw .panic else q) :=
  ⟨h.1.make, (Logs.make hm).bind fun _ => h.2⟩

theorem readBulkL_tracks (t : RType) (len : Bytes) : Tracks (readBulkL t len) (readBulk t len) := by
  refine (Tracks.quietly _).bind fun n => ?_
  split
  · exact .pure _
  · split
    · exact .throw _
    · rename_i hneg _
      have hbuf : Tracks (do
          let buf ← Resp.quietly (readPayload (n.toNat + 2))
          if buf.drop n.toNat ≠ crlf then MonadExcept.throw .protocol
          else Pure.pure { type := t, str := .mk (buf.take n.toNat) }) (do
          let buf ← readPayload (n.toNat + 2)
          if buf.drop n.toNat ≠ crlf then MonadExcept.throw ReadErr.protocol
          else Pure.pure ({ type := t, str := .mk (buf.take n.toNat) } : Value)) := by
        refine (Tracks.quietly _).bind fun buf => ?_
        split
        · exact .throw _
        · exact .pure _
      have hmake := Tracks.make (m := { len := n + 2, limit := maxBulk + 2 }) hbuf (by dsimp only; omega)
      rwa [if_neg (by dsimp only; omega)] at hmake

theorem readItemsL_tracks {p : LogRead Value} {q : Read Value} (h : Tracks p q) (k : Nat) :
    Tracks (readItemsL p k) (readItems q k) := by
  induction k with
  | zero => exact .pure _
  | succ k ih => exact h.bind fun v => ih.bind fun vs => .pure _

theorem readAggregateL_tracks {p : LogRead Value} {q : Read Value} (h : Tracks p q) (t : RType)
    (len : Bytes) (isMap : Bool) :
    Tracks (readAggregateL p t len isMap) (readAggregate q t len isMap) := by
  refine (Tracks.quietly _).bind fun n => ?_
  split
  · exact .pure _
  · split
    · exact .throw _
    · exact .make ((readItemsL_tracks h _).bind fun vs => .pure _) (by dsimp only; omega)

/-- **Without its log this is the reader**, and the log is within the limits. -/
theorem readValueL_tracks (fuel : Nat) : Tracks (readValueL fuel) (readValueF fuel) := by
  induction fuel with
  | zero => exact .throw _
  | succ fuel ih =>
    refine (Tracks.quietly _).bind fun line => ?_
    cases line with
    | nil => exact .throw _
    | cons c rest =>
      dsimp only
      cases RType.ofByte c with
      | none => exact .throw _
      | some t =>
        cases t with
        | zero => exact .throw _
        | integer => exact (Tracks.quietly _).bind fun n => .pure _
        | bulkString | blobError | verbatim => exact readBulkL_tracks _ rest
        | array | push | set | map => exact readAggregateL_tracks ih _ rest _
        | attr => exact (readAggregateL_tracks ih _ rest _).bind fun _ => ih
        | simpleString | error | null | boolean | double | bigNumber => exact .pure _

/-- A `ReadValue` that does not panic has allocated within the limits. -/
theorem makes_fit (h : ∀ s', readValue s ≠ .error .panic s') :
    ∀ m ∈ makes s, m.Fits := by
  let st : LState := { base := { stream := s, raw := [] }, made := [] }
  have herase : erase (readValueL (s.length + 1) st) =
      readValueF (s.length + 1) { stream := s, raw := [] } := (readValueL_tracks _).1 st
  have hlogs := (readValueL_tracks (s.length + 1)).2 st fun m hm => (List.not_mem_nil hm).elim
  unfold makes
  rcases hlogs with ⟨v, st', hok, hfit⟩ | ⟨e, st', herr, hfit⟩
  · simp only [st] at hok
    rw [hok]
    exact hfit
  · rw [herr] at herase
    rcases hfit with rfl | hfit
    · -- the reader panics as well
      refine absurd ?_ (h st'.base.stream)
      rw [readValue, ← herase]
      rfl
    · simp only [st] at herr
      rw [herr]
      exact hfit

/-! ## Where the count wraps around -/

/-- The types with a count of values behind them. -/
def RType.isNest (t : RType) : Bool := t ∈ [.array, .push, .set, .map, .attr]

/-- The types whose count is doubled. -/
def RType.doubles (t : RType) : Bool := t ∈ [.map, .attr]

/-- Behind the bytes `bs` of a frame the reader starts with a value: with the frame
itself, with an item of an aggregate, or with the value behind an attribute. -/
inductive Starts : Bytes → Prop where
  | here : Starts []
  | item {t : RType} {len bs : Bytes} {ts : List Tree} {k : Nat} (ht : t.isNest = true)
      (hk : Announces t.doubles len k) (hlt : ts.length < k) (hts : ∀ x ∈ ts, x.Wf)
      (h : Starts bs) : Starts (header t len ++ (Tree.bytesAll ts ++ bs))
  | behind {len bs : Bytes} {ts : List Tree} (hk : Announces true len ts.length)
      (hts : ∀ x ∈ ts, x.Wf) (h : Starts bs) : Starts (header .attr len ++ (Tree.bytesAll ts ++ bs))

/-- `bs` comes first, and then a map or an attribute with a count of at least 2⁶². -/
def WrapsBehind (bs : Bytes) (s : Stream) : Prop :=
  ∃ (t : RType) (len : Bytes) (n : Int) (rest : Stream), t.doubles = true ∧
    Decimal.parseInt64 len = some n ∧ 2 ^ 62 ≤ n ∧ s = (bs ++ header t len).map Arrival.byte ++ rest

/-- The stream comes to such a count where a value is read. -/
def HugeMap (s : Stream) : Prop := ∃ bs, Starts bs ∧ WrapsBehind bs s

/-- `p` does not panic. -/
def Safe (p : Read α) : Prop := ∀ st st', p st ≠ .error .panic st'

theorem Safe.bind {p : Read α} {f : α → Read β} (hp : Safe p) (hf : ∀ a, Safe (f a)) :
    Safe (p >>= f) := by
  intro st st' h
  rcases bind_error.1 h with h | ⟨a, st₁, -, h⟩
  · exact hp st st' h
  · exact hf a st₁ st' h

theorem Safe.pure (a : α) : Safe (Pure.pure a : Read α) := fun _ _ h => pure_error.1 h

theorem Safe.throw {e : ReadErr} (he : e ≠ .panic) : Safe (throw e : Read α) :=
  fun _ _ h => he (throw_error.1 h).1

theorem readLine_safe : Safe readLine := fun _ _ h => absurd (readLine_error h) (by decide)

theorem readPayload_safe (n : Nat) : Safe (readPayload n) :=
  fun _ _ h => absurd (readPayload_error h) (by decide)

theorem Safe.closed : Closed fun p => Safe p where
  pure := .pure
  protocol := .throw (by decide)
  bind := .bind
  payload := readPayload_safe

/-- A count that is not out of range is negative only if it wrapped around. -/
theorem itemCount_neg (hn : 0 ≤ n) (hr : n < 2 ^ 63) :
    itemCount isMap n < 0 ↔ isMap = true ∧ 2 ^ 62 ≤ n := by
  cases isMap with
  | false =>
    simp only [itemCount, Bool.false_eq_true, if_false, false_and, iff_false]
    omega
  | true =>
    simp only [itemCount, if_true, Decimal.wrap64, Int.bmod_def, true_and]
    split <;> omega

/-- A frame of nested values behind its first line. -/
theorem readValueF_nest (fuel : Nat) (ht : t.isNest = true)
    (hn : Decimal.parseInt64 len = some n) (bs raw : Bytes) (s : Stream) :
    readValueF (fuel + 1) (before (header t len ++ bs) raw s) =
      (readAggregate (readValueF fuel) t len t.doubles >>= fun v =>
        if t = .attr then readValueF fuel else pure v) (before bs (raw ++ header t len) s) := by
  rw [readValueF, readLine_header t (lf_not_mem_of_parseInt64 hn)]
  have hself : ∀ (p : Read Value) st, (p >>= fun v => pure v) st = p st := by
    intro p st
    show EStateM.bind p _ st = _
    unfold EStateM.bind
    cases p st <;> rfl
  cases t with
  | array | push | set | map => exact (hself _ _).symm
  | attr => rfl
  | _ => cases ht

/-- Items that are complete, and then one that panics. -/
theorem readItems_panic {ts : List Tree} (hlt : ts.length < k)
    (hrv : ∀ t ∈ ts, ∀ raw s, rv (before t.bytes raw s) =
      .ok t.value { stream := s, raw := raw ++ t.bytes }) (h :
    ∀ raw, ∃ st, rv (before bs raw s) = .error .panic st)
    (raw : Bytes) :
    ∃ st, readItems rv k (before (Tree.bytesAll ts ++ bs) raw s) = .error .panic st := by
  induction ts generalizing k raw with
  | nil =>
    obtain ⟨k, rfl⟩ : ∃ j, k = j + 1 := ⟨k - 1, by simp at hlt; omega⟩
    obtain ⟨st, hst⟩ := h raw
    exact ⟨st, bind_error.2 (.inl hst)⟩
  | cons t ts ih =>
    rw [List.length_cons] at hlt
    obtain ⟨k, rfl⟩ : ∃ j, k = j + 1 := ⟨k - 1, by omega⟩
    obtain ⟨st, hst⟩ := ih (k := k) (by omega) (fun x hx => hrv x (List.mem_cons_of_mem t hx))
      (raw ++ t.bytes)
    refine ⟨st, ?_⟩
    rw [Tree.bytesAll, List.append_assoc, readItems, bind_before (hrv t List.mem_cons_self raw)]
    exact bind_error.2 (.inl hst)

/-- A count that wraps around makes the reader panic. -/
theorem readAggregate_wraps (rv : Read Value)
    (hn : Decimal.parseInt64 len = some n) (hbig : 2 ^ 62 ≤ n) (st : RState) :
    readAggregate rv t len true st = .error .panic st := by
  have hneg : itemCount true n < 0 :=
    (itemCount_neg (by omega) (Decimal.parseInt64_range hn).2).2 ⟨rfl, hbig⟩
  rw [readAggregate, parseInt_bind hn, if_neg (by omega), if_neg (by unfold maxItems; omega),
    if_pos hneg]
  rfl

/-- The reader comes to every place where a value starts. -/
theorem readValueF_panics (hstart : Starts bs) (ht : t.doubles = true)
    (hn : Decimal.parseInt64 len = some n) (hbig : 2 ^ 62 ≤ n)
    (fuel : Nat) (hfuel : (bs ++ header t len).length < fuel) (raw : Bytes) (s : Stream) :
    ∃ st, readValueF fuel (before (bs ++ header t len) raw s) = .error .panic st := by
  induction hstart generalizing fuel raw with
  | here =>
    obtain ⟨fuel, rfl⟩ : ∃ k, fuel = k + 1 := ⟨fuel - 1, by omega⟩
    have hnest : t.isNest = true := by
      cases t <;> first | rfl | cases ht
    rw [List.nil_append, ← List.append_nil (header t len), readValueF_nest fuel hnest hn, ht]
    exact ⟨_, bind_error.2 (.inl (readAggregate_wraps _ hn hbig _))⟩
  | @item t' len' bs ts k ht' hk hlt hts _ ih =>
    obtain ⟨fuel, rfl⟩ : ∃ k, fuel = k + 1 := ⟨fuel - 1, by omega⟩
    obtain ⟨m, hm, ⟨-, hnil⟩ | ⟨hpos, hcount, hmax⟩⟩ := hk
    · omega
    have hlen := length_header t' len'
    simp only [List.length_append] at hfuel
    have hitems := readItems_panic hlt (fun x hx raw s => readValueF_complete fuel (hts x hx)
      (by have := Tree.length_bytes_le hx; omega) raw s)
      (fun raw => ih fuel (by rw [List.length_append]; omega) raw) (raw ++ header t' len')
    obtain ⟨st, hst⟩ := hitems
    have hitem : itemCount t'.doubles m = (k : Int) := by
      rw [hcount]
      unfold itemCount
      unfold maxItems at hmax
      split
      · rename_i hd
        rw [hd] at hcount
        exact Decimal.wrap64_of_small (by simp at hcount; omega) (by simp at hcount; omega)
      · rfl
    rw [List.append_assoc, List.append_assoc, readValueF_nest fuel ht' hm]
    refine ⟨st, bind_error.2 (.inl ?_)⟩
    rw [readAggregate, parseInt_bind hm, if_neg (by omega), if_neg (by omega), if_neg (by omega),
      hitem, Int.toNat_natCast]
    exact bind_error.2 (.inl hst)
  | @behind len' bs ts hk hts _ ih =>
    obtain ⟨fuel, rfl⟩ : ∃ k, fuel = k + 1 := ⟨fuel - 1, by omega⟩
    have hlen := length_header .attr len'
    simp only [List.length_append] at hfuel
    have hr := readAggregate_complete (readValueF fuel) .attr hk
      (fun x hx raw s => readValueF_complete fuel (hts x hx)
        (by have := Tree.length_bytes_le hx; omega) raw s) (raw ++ header .attr len')
    obtain ⟨st, hst⟩ := ih fuel (by rw [List.length_append]; omega)
      (raw ++ header .attr len' ++ Tree.bytesAll ts)
    obtain ⟨m, hm, -⟩ := hk
    rw [List.append_assoc, List.append_assoc, readValueF_nest fuel rfl hm]
    exact ⟨st, (bind_before hr).trans hst⟩

/-- The reader panics in front of such a count only. -/
theorem readItems_panic_inv (hrv : Sound Parses rv) (h : readItems rv k st = .error .panic st') :
    ∃ (ts : List Tree) (st₁ : RState), ts.length < k ∧ (∀ t ∈ ts, t.Wf) ∧
      Consumes st (Tree.bytesAll ts) st₁ ∧ rv st₁ = .error .panic st' := by
  induction k generalizing st with
  | zero => exact (pure_error.1 h).elim
  | succ k ih =>
    rcases bind_error.1 h with h | ⟨v, st₁, hv, h⟩
    · exact ⟨[], st, by simp, by simp, .refl st, h⟩
    · rcases bind_error.1 h with h | ⟨vs, st₂, -, h⟩
      · obtain ⟨b, hc, t, ht, rfl, -⟩ := hrv _ _ _ hv
        obtain ⟨ts, st₂, hlt, hts, hc₂, hp⟩ := ih h
        refine ⟨t :: ts, st₂, by simpa using hlt, ?_, hc.trans hc₂, hp⟩
        intro x hx
        rcases List.mem_cons.1 hx with rfl | hx
        · exact ht
        · exact hts x hx
      · exact (pure_error.1 h).elim

theorem readAggregate_panic_inv (hrv : Sound Parses rv)
    (h : readAggregate rv t len isMap st = .error .panic st') :
    (isMap = true ∧ ∃ n, Decimal.parseInt64 len = some n ∧ 2 ^ 62 ≤ n) ∨
      ∃ (ts : List Tree) (k : Nat) (st₁ : RState), Announces isMap len k ∧ ts.length < k ∧
        (∀ x ∈ ts, x.Wf) ∧ Consumes st (Tree.bytesAll ts) st₁ ∧ rv st₁ = .error .panic st' := by
  rcases bind_error.1 h with h | ⟨n, st₁, hp, h⟩
  · exact absurd h (Safe.closed.parseInt len st st')
  obtain ⟨hn, rfl⟩ := parseInt_ok.1 hp
  have hr := (Decimal.parseInt64_range hn).2
  split at h
  · exact (pure_error.1 h).elim
  rename_i hneg
  split at h
  · cases (throw_error.1 h).1
  rename_i hmax
  split at h
  · rename_i hwrap
    obtain ⟨hmap, hbig⟩ := (itemCount_neg (by omega) hr).1 hwrap
    exact .inl ⟨hmap, n, hn, hbig⟩
  rename_i hwrap
  rcases bind_error.1 h with h | ⟨vs, st₁, -, h⟩
  · obtain ⟨ts, st₁, hlt, hts, hc, hpanic⟩ := readItems_panic_inv hrv h
    have hcount := itemCount_eq (by omega) hr hwrap
    refine .inr ⟨ts, _, st₁, ⟨n, hn, .inr ⟨by omega, ?_, ?_⟩⟩, hlt, hts, hc, hpanic⟩
    · rw [← hcount]
      omega
    · omega
  · exact (pure_error.1 h).elim

theorem WrapsBehind.cons {a bs : Bytes} (hc : Consumes st a st')
    (h : WrapsBehind bs st'.stream) : WrapsBehind (a ++ bs) st.stream := by
  obtain ⟨t, len, n, rest, ht, hn, hbig, hs⟩ := h
  refine ⟨t, len, n, rest, ht, hn, hbig, ?_⟩
  rw [hc.1, hs]
  simp

theorem readValueF_panic_inv (fuel : Nat)
    (h : readValueF fuel st = .error .panic st') : ∃ bs, Starts bs ∧ WrapsBehind bs st.stream := by
  induction fuel generalizing st st' with
  | zero => cases (throw_error.1 h).1
  | succ fuel ih =>
    rcases bind_error.1 h with h | ⟨line, st₁, hline, h⟩
    · exact absurd h (readLine_safe st st')
    obtain ⟨bs, hc, hlf, rfl⟩ := readLine_sound _ _ _ hline
    match line, h with
    | [], h => cases (throw_error.1 h).1
    | c :: rest, h =>
      -- a panic in a nested frame: its own count, or one of its items
      have hNest : ∀ t : RType, t.byte = c → t.isNest = true →
          readAggregate (readValueF fuel) t rest t.doubles st₁ = .error .panic st' →
          ∃ bs, Starts bs ∧ WrapsBehind bs st.stream := by
        intro t ht hnest h
        have hhead : Consumes st (header t rest) st₁ := by rwa [header, ht]
        rcases readAggregate_panic_inv (readValueF_sound fuel) h with
          ⟨hmap, n, hn, hbig⟩ | ⟨ts, k, st₂, hk, hlt, hts, hc₂, hpanic⟩
        · exact ⟨[], .here, t, rest, n, st₁.stream, hmap, hn, hbig, hhead.1⟩
        · obtain ⟨bs, hstart, hwraps⟩ := ih hpanic
          exact ⟨_, .item hnest hk hlt hts hstart, (hwraps.cons hc₂).cons hhead⟩
      cases ho : RType.ofByte c with
      | none =>
        simp only [ho] at h
        cases (throw_error.1 h).1
      | some t =>
        have ht := RType.byte_of_ofByte ho
        simp only [ho] at h
        cases t with
        | zero => cases (throw_error.1 h).1
        | integer =>
          rcases bind_error.1 h with h | ⟨n, st₂, -, h⟩
          · exact absurd h (Safe.closed.parseInt rest st₁ st')
          · exact (pure_error.1 h).elim
        | bulkString => exact absurd h (Safe.closed.readBulk .bulkString rest st₁ st')
        | blobError => exact absurd h (Safe.closed.readBulk .blobError rest st₁ st')
        | verbatim => exact absurd h (Safe.closed.readBulk .verbatim rest st₁ st')
        | array => exact hNest .array ht rfl h
        | push => exact hNest .push ht rfl h
        | set => exact hNest .set ht rfl h
        | map => exact hNest .map ht rfl h
        | attr =>
          rcases bind_error.1 h with h | ⟨v, st₂, ha, h⟩
          · exact hNest .attr ht rfl h
          · -- the value behind the attribute
            obtain ⟨bs₁, hc₁, ts, hk, hts, rfl, -⟩ :=
              readAggregate_sound (readValueF_sound fuel) _ _ rest _ _ _ ha
            obtain ⟨bs, hstart, hwraps⟩ := ih h
            have hhead : Consumes st (header .attr rest) st₁ := by rwa [header, ht]
            exact ⟨_, .behind hk hts hstart, (hwraps.cons hc₁).cons hhead⟩
        | simpleString | error | null | boolean | double | bigNumber =>
          exact (pure_error.1 h).elim

/-! ## `ReadValue` -/

/-- The lengths handed to `make` are in range, and a value or an error is returned. -/
structure Bounded (s : Stream) : Prop where
  lengths : ∀ m ∈ makes s, m.Fits
  returns : (∃ v s', readValue s = .ok v s') ∨ ∃ e s', readValue s = .error e s' ∧
    e ∈ [ReadErr.eof, .unexpectedEOF, .timeout, .protocol]

theorem readValue_panic_iff : (∃ s', readValue s = .error .panic s') ↔ HugeMap s := by
  have hiff : (∃ s', readValue s = .error .panic s') ↔
      ∃ st, readValueF (s.length + 1) { stream := s, raw := [] } = .error .panic st := by
    unfold readValue
    cases readValueF (s.length + 1) { stream := s, raw := [] } with
    | ok v st => simp
    | error e st => simp
  rw [hiff]
  constructor
  · rintro ⟨st, h⟩
    exact readValueF_panic_inv _ h
  · rintro ⟨bs, hstart, t, len, n, rest, ht, hn, hbig, rfl⟩
    refine readValueF_panics hstart ht hn hbig _ ?_ [] rest
    simp only [List.length_append, List.length_map]
    omega

/-- **The reader stays within its limits exactly on the streams in which no map or
attribute announces 2⁶² entries or more where a value is read.** -/
theorem bounded_iff_not_hugeMap (s : Stream) : Bounded s ↔ ¬ HugeMap s := by
  rw [← readValue_panic_iff]
  constructor
  · rintro ⟨-, ⟨v, s', h⟩ | ⟨e, s', h, he⟩⟩ ⟨s₁, hpanic⟩
    · rw [h] at hpanic
      cases hpanic
    · rw [h] at hpanic
      cases hpanic
      exact absurd he (by decide)
  · intro hsafe
    refine ⟨makes_fit fun s' h => hsafe ⟨s', h⟩, ?_⟩
    cases hr : readValue s with
    | ok v s' => exact .inl ⟨v, s', rfl⟩
    | error e s' =>
      refine .inr ⟨e, s', rfl, ?_⟩
      cases e with
      | panic => exact absurd ⟨s', hr⟩ hsafe
      | stuck => exact absurd hr (readValue_ne_stuck s s')
      | eof | unexpectedEOF | timeout | protocol => decide

/-- A map with 2⁶² entries. -/
def hugeMap : Stream := (lit "%4611686018427387904" ++ crlf).map Arrival.byte

theorem hugeMap_not_bounded : ¬ Bounded hugeMap := by
  intro h
  have hmade : ({ len := -9223372036854775808, limit := 1000000 } : Make) ∈ makes hugeMap := by
    decide +kernel
  exact absurd (h.lengths _ hmade).1 (by decide)

end RespProxy.Resp
