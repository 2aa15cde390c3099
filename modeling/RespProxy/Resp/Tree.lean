import RespProxy.Resp.Reader

/-! # What the reader accepts

The concrete syntax of a frame as a tree that keeps every byte: the text of a
length field, a simple line, an attribute in front of a value. The reader
accepts exactly the bytes of the well-formed trees:

* `readValueF_sound`: what is read is a well-formed tree, its bytes are what
  was consumed and captured, and its value is the result;
* `readValueF_complete`: the bytes of a well-formed tree are read back, with
  whatever follows them left in the stream;
* `readValue_ne_stuck`: the fuel of `readValue` is always enough.
-/

namespace RespProxy.Resp

variable {n : Nat} {st st' : RState} {rv : Read Value} {e : ReadErr} {s s' : Stream}

/-! ## Readers against grammars -/

/-- Between `st` and `st'` exactly `bs` was read, and captured. -/
def Consumes (st : RState) (bs : Bytes) (st' : RState) : Prop :=
  st.stream = bs.map Arrival.byte ++ st'.stream ∧ st'.raw = st.raw ++ bs

theorem Consumes.refl (st : RState) : Consumes st [] st := by
  simp [Consumes]

theorem Consumes.trans {st₁ st₂ st₃ : RState} {a b : Bytes} (h₁ : Consumes st₁ a st₂)
    (h₂ : Consumes st₂ b st₃) : Consumes st₁ (a ++ b) st₃ := by
  refine ⟨?_, ?_⟩
  · rw [h₁.1, h₂.1, List.map_append, List.append_assoc]
  · rw [h₂.2, h₁.2, List.append_assoc]

theorem Consumes.length {bs : Bytes} (h : Consumes st bs st') :
    st.stream.length = bs.length + st'.stream.length := by
  rw [h.1, List.length_append, List.length_map]

/-- A state in which `bs` arrives next, followed by `s`. -/
def before (bs : Bytes) (raw : Bytes) (s : Stream) : RState :=
  { stream := bs.map Arrival.byte ++ s, raw := raw }

variable {α β : Type} {f : α → Read β}
variable {p : Read α} {len : Bytes} {t : RType}

/-- `p` returns only what the grammar `G` derives from the bytes consumed. -/
def Sound (G : Bytes → α → Prop) (p : Read α) : Prop :=
  ∀ st a st', p st = .ok a st' → ∃ bs, Consumes st bs st' ∧ G bs a

/-- `p` reads every derivation of the grammar `G` and stops right behind it. -/
def Complete (G : Bytes → α → Prop) (p : Read α) : Prop :=
  ∀ bs a, G bs a → ∀ raw s, p (before bs raw s) = .ok a { stream := s, raw := raw ++ bs }

theorem bind_ok {b : β} :
    (p >>= f) st = .ok b st' ↔ ∃ a st₁, p st = .ok a st₁ ∧ f a st₁ = .ok b st' := by
  show EStateM.bind p f st = _ ↔ _
  unfold EStateM.bind
  cases p st with
  | ok a st₁ => simp
  | error e st₁ => simp

theorem bind_error : (p >>= f) st = .error e st' ↔
      p st = .error e st' ∨ ∃ a st₁, p st = .ok a st₁ ∧ f a st₁ = .error e st' := by
  show EStateM.bind p f st = _ ↔ _
  unfold EStateM.bind
  cases p st with
  | ok a st₁ => simp
  | error e st₁ => simp

@[simp] theorem pure_ok {a b : α} : (pure a : Read α) st = .ok b st' ↔ a = b ∧ st = st' := by
  show EStateM.Result.ok a st = .ok b st' ↔ _
  simp

@[simp] theorem throw_ok {b : α} : (throw e : Read α) st = .ok b st' ↔ False := by
  show EStateM.Result.error e st = .ok b st' ↔ _
  simp

@[simp] theorem pure_error {a : α} : (pure a : Read α) st = .error e st' ↔ False := by
  show EStateM.Result.ok a st = .error e st' ↔ _
  simp

@[simp] theorem throw_error {e' : ReadErr} :
    (throw e : Read α) st = .error e' st' ↔ e = e' ∧ st = st' := by
  show EStateM.Result.error e st = .error e' st' ↔ _
  simp

/-! ## Lines and payloads -/

/-- A line: its body without line feeds, then CRLF. -/
def IsLine (bs body : Bytes) : Prop := lf ∉ body ∧ bs = body ++ crlf

theorem readSlice_ok {line : Bytes} (h : readSlice s = .ok line s') :
    ∃ body, lf ∉ body ∧ line = body ++ [lf] ∧ s = line.map Arrival.byte ++ s' := by
  induction s generalizing line with
  | nil => simp [readSlice] at h
  | cons a s ih =>
    cases a with
    | expire => simp [readSlice] at h
    | byte b =>
      rw [readSlice] at h
      split at h
      · next hb =>
        cases h
        exact ⟨[], by simp, by simp [hb], by simp⟩
      · next hb =>
        cases hr : readSlice s with
        | error e s₁ => simp [hr] at h
        | ok l s₁ =>
          simp only [hr, EStateM.Result.ok.injEq] at h
          obtain ⟨rfl, rfl⟩ := h
          obtain ⟨body, hbody, hl, hs⟩ := ih hr
          refine ⟨b :: body, ?_, by simp [hl], by simp [hs]⟩
          simp only [List.mem_cons, not_or]
          exact ⟨fun h => hb h.symm, hbody⟩

theorem readSlice_append {body : Bytes} (h : lf ∉ body) (s : Stream) :
    readSlice ((body ++ [lf]).map Arrival.byte ++ s) = .ok (body ++ [lf]) s := by
  induction body with
  | nil => simp [readSlice]
  | cons b body ih =>
    simp only [List.mem_cons, not_or] at h
    have hb : b ≠ lf := fun e => h.1 e.symm
    have ih := ih h.2
    simp only [List.cons_append, List.map_cons, readSlice, if_neg hb, ih]

theorem readLine_sound : Sound IsLine readLine := by
  intro st body st' h
  unfold readLine at h
  cases hr : readSlice st.stream with
  | error e s => simp [hr] at h
  | ok line s =>
    simp only [hr] at h
    split at h
    · next hcr =>
      cases h
      obtain ⟨pre, hpre, rfl, hs⟩ := readSlice_ok hr
      rw [List.dropLast_concat] at hcr ⊢
      -- the body ends in CR, so the line is body, CR, LF
      obtain ⟨pre', rfl⟩ : ∃ p, pre = p ++ [cr] := by
        rcases List.eq_nil_or_concat pre with rfl | ⟨p, x, rfl⟩
        · simp at hcr
        · simp only [List.concat_eq_append, List.getLast?_append, List.getLast?_singleton,
            Option.some_or, Option.some.injEq] at hcr
          exact ⟨p, by simp [hcr]⟩
      rw [List.dropLast_concat]
      refine ⟨pre' ++ [cr] ++ [lf], ⟨hs, rfl⟩, ?_, by simp [crlf]⟩
      exact fun h => hpre (List.mem_append_left _ h)
    · cases h

theorem readLine_complete : Complete IsLine readLine := by
  rintro bs body ⟨hbody, rfl⟩ raw s
  have hcr : lf ∉ body ++ [cr] := by
    simp only [List.mem_append, List.mem_singleton, not_or]
    exact ⟨hbody, by decide⟩
  have hsplit : body ++ crlf = body ++ [cr] ++ [lf] := by simp [crlf]
  have hr := readSlice_append hcr s
  rw [← hsplit] at hr
  have h1 : (body ++ crlf).dropLast = body ++ [cr] := by
    rw [hsplit, List.dropLast_concat]
  simp only [readLine, before, hr, h1, List.dropLast_concat]
  simp

theorem readFull_ok {b : Bool} {bs : Bytes}
    (h : readFull n b s = .ok bs s') : bs.length = n ∧ s = bs.map Arrival.byte ++ s' := by
  induction n generalizing b s bs with
  | zero =>
    simp only [readFull, EStateM.Result.ok.injEq] at h
    obtain ⟨rfl, rfl⟩ := h
    simp
  | succ n ih =>
    match s, h with
    | [], h => simp [readFull] at h
    | .expire :: _, h => simp [readFull] at h
    | .byte c :: s, h =>
      rw [readFull] at h
      cases hr : readFull n true s with
      | error e s₁ => simp [hr] at h
      | ok l s₁ =>
        simp only [hr, EStateM.Result.ok.injEq] at h
        obtain ⟨rfl, rfl⟩ := h
        obtain ⟨hl, hs⟩ := ih hr
        simp [hl, hs]

theorem readFull_append (bs : Bytes) (b : Bool) (s : Stream) :
    readFull bs.length b (bs.map Arrival.byte ++ s) = .ok bs s := by
  induction bs generalizing b with
  | nil => simp [readFull]
  | cons c bs ih => simp [readFull, ih]

theorem readPayload_sound (n : Nat) :
    Sound (fun bs buf => bs = buf ∧ buf.length = n) (readPayload n) := by
  intro st buf st' h
  unfold readPayload at h
  cases hr : readFull n false st.stream with
  | error e s => simp [hr] at h
  | ok buf' s =>
    simp only [hr, EStateM.Result.ok.injEq] at h
    obtain ⟨rfl, rfl⟩ := h
    obtain ⟨hl, hs⟩ := readFull_ok hr
    exact ⟨buf', ⟨hs, rfl⟩, rfl, hl⟩

theorem readPayload_complete (n : Nat) :
    Complete (fun bs buf => bs = buf ∧ buf.length = n) (readPayload n) := by
  rintro _ buf ⟨rfl, rfl⟩ raw s
  simp [readPayload, before, readFull_append]

/-! ## Trees -/

/-- The concrete syntax of a frame. The `len` fields are the texts of the
length lines; a bulk without payload has a negative length. -/
inductive Tree where
  | line (t : RType) (rest : Bytes)
  | bulk (t : RType) (len : Bytes) (payload : Option Bytes)
  | agg (t : RType) (len : Bytes) (items : List Tree)
  | attr (len : Bytes) (items : List Tree) (next : Tree)

/-- The first line of a frame. -/
def header (t : RType) (rest : Bytes) : Bytes := t.byte :: rest ++ crlf

mutual

/-- The wire bytes of a tree. -/
def Tree.bytes : Tree → Bytes
  | .line t rest => header t rest
  | .bulk t len none => header t len
  | .bulk t len (some p) => header t len ++ (p ++ crlf)
  | .agg t len items => header t len ++ bytesAll items
  | .attr len items next => header .attr len ++ (bytesAll items ++ next.bytes)

def Tree.bytesAll : List Tree → Bytes
  | [] => []
  | t :: ts => t.bytes ++ bytesAll ts

end

/-- The length field is a negative number. -/
def isNeg (len : Bytes) : Bool := (Decimal.parseInt64 len).any fun n => decide (n < 0)

/-- The value of a frame that is a single line. -/
def lineValue (t : RType) (rest : Bytes) : Value :=
  match t with
  | .integer => { type := t, int := (Decimal.parseInt64 rest).getD 0 }
  | .null => { type := t, null := true }
  | .boolean =>
    { type := t, int := if rest.head? = some 116 ∨ rest.head? = some 84 then 1 else 0 }
  | t => { type := t, str := clone rest }

mutual

/-- The value the reader makes of a tree. -/
def Tree.value : Tree → Value
  | .line t rest => lineValue t rest
  | .bulk t _ none => { type := t, null := true }
  | .bulk t _ (some p) => { type := t, str := .mk p }
  | .agg t len items => { type := t, values := valueAll items, null := isNeg len }
  | .attr _ _ next => next.value

def Tree.valueAll : List Tree → List Value
  | [] => []
  | t :: ts => t.value :: valueAll ts

end

theorem Tree.valueAll_eq (ts : List Tree) : Tree.valueAll ts = ts.map Tree.value := by
  induction ts with
  | nil => rfl
  | cons t ts ih => rw [Tree.valueAll, ih, List.map_cons]

/-- The length field `len` announces `k` items. -/
def Announces (isMap : Bool) (len : Bytes) (k : Nat) : Prop :=
  ∃ n : Int, Decimal.parseInt64 len = some n ∧
    (n < 0 ∧ k = 0 ∨ 0 ≤ n ∧ (k : Int) = (if isMap then n * 2 else n) ∧ (k : Int) ≤ maxItems)

/-- The types whose frame is a single line. -/
def RType.isLine (t : RType) : Bool :=
  t ∈ [.simpleString, .error, .integer, .null, .boolean, .double, .bigNumber]

def RType.isBulk (t : RType) : Bool := t ∈ [.bulkString, .blobError, .verbatim]

def RType.isAgg (t : RType) : Bool := t ∈ [.array, .push, .set, .map]

/-- The trees the reader accepts. -/
inductive Tree.Wf : Tree → Prop where
  | line {t : RType} {rest : Bytes} (ht : t.isLine = true) (hlf : lf ∉ rest)
      (hint : t = .integer → (Decimal.parseInt64 rest).isSome) : Wf (.line t rest)
  | null {t : RType} {len : Bytes} {n : Int} (ht : t.isBulk = true)
      (hn : Decimal.parseInt64 len = some n) (hneg : n < 0) : Wf (.bulk t len none)
  | bulk {t : RType} {len p : Bytes} (ht : t.isBulk = true)
      (hn : Decimal.parseInt64 len = some (p.length : Int)) (hmax : (p.length : Int) ≤ maxBulk) :
      Wf (.bulk t len (some p))
  | agg {t : RType} {len : Bytes} {items : List Tree} (ht : t.isAgg = true)
      (hk : Announces (t = .map) len items.length) (hitems : ∀ x ∈ items, Wf x) :
      Wf (.agg t len items)
  | attr {len : Bytes} {items : List Tree} {next : Tree}
      (hk : Announces true len items.length) (hitems : ∀ x ∈ items, Wf x) (hnext : Wf next) :
      Wf (.attr len items next)

/-- `v` is the value of a well-formed tree with the bytes `bs`. -/
def Parses (bs : Bytes) (v : Value) : Prop := ∃ t : Tree, t.Wf ∧ bs = t.bytes ∧ v = t.value

/-! ## Soundness -/

theorem parseInt_ok {b : Bytes} {n : Int} :
    parseInt b st = .ok n st' ↔ Decimal.parseInt64 b = some n ∧ st = st' := by
  unfold parseInt
  cases Decimal.parseInt64 b with
  | none => simp
  | some m => simp

theorem readBulk_sound (ht : t.isBulk = true) (len : Bytes) :
    Sound (fun bs v => Parses (header t len ++ bs) v) (readBulk t len) := by
  intro st v st' h
  obtain ⟨n, st₁, hp, h⟩ := bind_ok.1 h
  obtain ⟨hn, rfl⟩ := parseInt_ok.1 hp
  split at h
  · next hneg =>
    obtain ⟨rfl, rfl⟩ := pure_ok.1 h
    exact ⟨[], .refl st, _, .null ht hn hneg, by simp [Tree.bytes], rfl⟩
  · next hneg =>
    split at h
    · cases throw_ok.1 h
    · next hmax =>
      obtain ⟨buf, st₂, hbuf, h⟩ := bind_ok.1 h
      obtain ⟨bs, hc, rfl, hlen⟩ := readPayload_sound _ _ _ _ hbuf
      split at h
      · cases throw_ok.1 h
      · next hcrlf =>
        obtain ⟨rfl, rfl⟩ := pure_ok.1 h
        have hbs : bs = bs.take n.toNat ++ crlf := by
          have := List.take_append_drop n.toNat bs
          rw [not_not.1 hcrlf] at this
          exact this.symm
        have hl : ((bs.take n.toNat).length : Int) = n := by
          rw [List.length_take, hlen]
          omega
        refine ⟨bs, hc, .bulk t len (some (bs.take n.toNat)), .bulk ht ?_ ?_, ?_, rfl⟩
        · rw [hn, hl]
        · omega
        · rw [Tree.bytes, ← hbs]

/-- The grammar of a sequence of `k` values. -/
def ParsesAll (k : Nat) (bs : Bytes) (vs : List Value) : Prop :=
  ∃ ts : List Tree, ts.length = k ∧ (∀ t ∈ ts, t.Wf) ∧ bs = Tree.bytesAll ts ∧
    vs = Tree.valueAll ts

theorem readItems_sound (hrv : Sound Parses rv) (k : Nat) :
    Sound (ParsesAll k) (readItems rv k) := by
  induction k with
  | zero =>
    intro st vs st' h
    obtain ⟨rfl, rfl⟩ := pure_ok.1 h
    exact ⟨[], .refl st, [], rfl, by simp, by simp [Tree.bytesAll], by simp [Tree.valueAll]⟩
  | succ k ih =>
    intro st vs st' h
    obtain ⟨v, st₁, hv, h⟩ := bind_ok.1 h
    obtain ⟨vs', st₂, hvs, h⟩ := bind_ok.1 h
    obtain ⟨rfl, rfl⟩ := pure_ok.1 h
    obtain ⟨b₁, hc₁, t, ht, rfl, rfl⟩ := hrv _ _ _ hv
    obtain ⟨b₂, hc₂, ts, hlen, hts, rfl, rfl⟩ := ih _ _ _ hvs
    refine ⟨_, hc₁.trans hc₂, t :: ts, by simp [hlen], ?_, by simp [Tree.bytesAll],
      by simp [Tree.valueAll]⟩
    intro x hx
    rcases List.mem_cons.1 hx with rfl | hx
    · exact ht
    · exact hts x hx

/-- The grammar of an aggregate behind its type byte. -/
def ParsesAgg (t : RType) (isMap : Bool) (len : Bytes) (bs : Bytes) (v : Value) : Prop :=
  ∃ ts : List Tree, Announces isMap len ts.length ∧ (∀ x ∈ ts, x.Wf) ∧
    bs = Tree.bytesAll ts ∧ v = (Tree.agg t len ts).value

/-- The count of a map does not wrap around below the limit. -/
theorem itemCount_eq {n : Int} {isMap : Bool} (hn : 0 ≤ n) (hr : n < 2 ^ 63)
    (hpos : ¬ itemCount isMap n < 0) : itemCount isMap n = if isMap then n * 2 else n := by
  cases isMap with
  | false => rfl
  | true =>
    simp only [itemCount, if_true, Decimal.wrap64, Int.bmod_def] at hpos ⊢
    split at hpos <;> omega

theorem readAggregate_sound (hrv : Sound Parses rv) (t : RType) (isMap : Bool) (len : Bytes) :
    Sound (ParsesAgg t isMap len) (readAggregate rv t len isMap) := by
  intro st v st' h
  obtain ⟨n, st₁, hp, h⟩ := bind_ok.1 h
  obtain ⟨hn, rfl⟩ := parseInt_ok.1 hp
  split at h
  · next hneg =>
    obtain ⟨rfl, rfl⟩ := pure_ok.1 h
    refine ⟨[], .refl st, [], ⟨n, hn, .inl ⟨hneg, rfl⟩⟩, by simp, by simp [Tree.bytesAll], ?_⟩
    simp [Tree.value, Tree.valueAll, isNeg, hn, hneg]
  · next hneg =>
    split at h
    · cases throw_ok.1 h
    · next hmax =>
      split at h
      · cases throw_ok.1 h
      · next hpos =>
        obtain ⟨vs, st₂, hvs, h⟩ := bind_ok.1 h
        obtain ⟨rfl, rfl⟩ := pure_ok.1 h
        obtain ⟨bs, hc, ts, hlen, hts, rfl, rfl⟩ := readItems_sound hrv _ _ _ _ hvs
        have hcount := itemCount_eq (by omega) (Decimal.parseInt64_range hn).2 hpos
        refine ⟨_, hc, ts, ⟨n, hn, .inr ⟨by omega, ?_, ?_⟩⟩, hts, rfl, ?_⟩
        · rw [hlen, ← hcount]
          omega
        · rw [hlen]
          omega
        · simp [Tree.value, isNeg, hn, hneg]

theorem RType.byte_of_ofByte {c : UInt8} (h : RType.ofByte c = some t) :
    t.byte = c := by
  have := List.find?_some h
  simpa using this

/-- **What the reader accepts is a well-formed tree, read to its last byte.** -/
theorem readValueF_sound (fuel : Nat) : Sound Parses (readValueF fuel) := by
  induction fuel with
  | zero =>
    intro st v st' h
    cases throw_ok.1 h
  | succ fuel ih =>
    intro st v st' h
    obtain ⟨line, st₁, hline, h⟩ := bind_ok.1 h
    obtain ⟨bs, hc, hlf, rfl⟩ := readLine_sound _ _ _ hline
    match line, h with
    | [], h => cases throw_ok.1 h
    | c :: rest, h =>
      have hrest : lf ∉ rest := fun hm => hlf (List.mem_cons_of_mem c hm)
      -- the three shapes of a frame behind its first line
      have hLine : ∀ t : RType, t.byte = c → t.isLine = true →
          (t = .integer → (Decimal.parseInt64 rest).isSome) →
          ∃ bs, Consumes st bs st₁ ∧ Parses bs (lineValue t rest) :=
        fun t ht hl hint => ⟨_, hc, .line t rest, .line hl hrest hint, by simp [Tree.bytes, header, ht], rfl⟩
      have hBulk : ∀ t : RType, t.byte = c → t.isBulk = true → readBulk t rest st₁ = .ok v st' →
          ∃ bs, Consumes st bs st' ∧ Parses bs v := by
        intro t ht hb h
        obtain ⟨bs', hc', hp⟩ := readBulk_sound hb rest _ _ _ h
        refine ⟨_, hc.trans hc', ?_⟩
        rwa [header, ht] at hp
      have hAgg : ∀ t : RType, t.byte = c → t.isAgg = true →
          readAggregate (readValueF fuel) t rest (t = .map) st₁ = .ok v st' →
          ∃ bs, Consumes st bs st' ∧ Parses bs v := by
        intro t ht ha h
        obtain ⟨bs', hc', ts, hk, hts, rfl, rfl⟩ := readAggregate_sound ih t _ rest _ _ _ h
        refine ⟨_, hc.trans hc', .agg t rest ts, .agg ha hk hts, ?_, rfl⟩
        simp [Tree.bytes, header, ht]
      cases ho : RType.ofByte c with
      | none =>
        simp only [ho] at h
        cases throw_ok.1 h
      | some t =>
        have ht := RType.byte_of_ofByte ho
        simp only [ho] at h
        cases t with
        | zero => cases throw_ok.1 h
        | integer =>
          obtain ⟨n, st₂, hp, h⟩ := bind_ok.1 h
          obtain ⟨hn, rfl⟩ := parseInt_ok.1 hp
          obtain ⟨rfl, rfl⟩ := pure_ok.1 h
          have := hLine .integer ht rfl (fun _ => by simp [hn])
          simpa [lineValue, hn] using this
        | bulkString => exact hBulk .bulkString ht rfl h
        | blobError => exact hBulk .blobError ht rfl h
        | verbatim => exact hBulk .verbatim ht rfl h
        | array => exact hAgg .array ht rfl h
        | push => exact hAgg .push ht rfl h
        | set => exact hAgg .set ht rfl h
        | map => exact hAgg .map ht rfl h
        | attr =>
          obtain ⟨a, st₂, ha, h⟩ := bind_ok.1 h
          obtain ⟨bs₁, hc₁, ts, hk, hts, rfl, -⟩ := readAggregate_sound ih _ _ rest _ _ _ ha
          obtain ⟨bs₂, hc₂, next, hnext, rfl, rfl⟩ := ih _ _ _ h
          refine ⟨_, hc.trans (hc₁.trans hc₂), .attr rest ts next, .attr hk hts hnext, ?_, rfl⟩
          simp [Tree.bytes, header, ht]
        | simpleString | error | null | boolean | double | bigNumber =>
          obtain ⟨rfl, rfl⟩ := pure_ok.1 h
          exact hLine _ ht rfl (fun h => by cases h)

/-! ## Completeness -/

theorem bind_before {b₁ b₂ raw : Bytes} {a : α}
    (hp : ∀ s', p (before b₁ raw s') = .ok a { stream := s', raw := raw ++ b₁ }) :
    (p >>= f) (before (b₁ ++ b₂) raw s) = f a (before b₂ (raw ++ b₁) s) := by
  show EStateM.bind p f _ = _
  have : before (b₁ ++ b₂) raw s = before b₁ raw (b₂.map Arrival.byte ++ s) := by
    simp [before]
  rw [EStateM.bind, this, hp]
  rfl

theorem parseInt_bind {b : Bytes} {n : Int} (h : Decimal.parseInt64 b = some n)
    (f : Int → Read β) (st : RState) : (parseInt b >>= f) st = f n st := by
  show EStateM.bind (parseInt b) f st = _
  simp only [EStateM.bind, parseInt, h]
  rfl

theorem readBulk_complete {p : Option Bytes}
    (h : (Tree.bulk t len p).Wf) (bs : Bytes) (hbs : (Tree.bulk t len p).bytes = header t len ++ bs)
    (raw : Bytes) (s : Stream) :
    readBulk t len (before bs raw s) =
      .ok (Tree.bulk t len p).value { stream := s, raw := raw ++ bs } := by
  cases h with
  | null ht hn hneg =>
    have hnil : bs = [] := by simpa [Tree.bytes] using hbs
    subst hnil
    rw [readBulk, parseInt_bind hn, if_pos hneg]
    simp only [before, List.map_nil, List.nil_append, List.append_nil]
    rfl
  | @bulk _ _ q ht hn hmax =>
    have hq : bs = q ++ crlf := by
      simpa [Tree.bytes] using hbs.symm
    subst hq
    have hneg : ¬ ((q.length : Int) < 0) := by omega
    have hread := readPayload_complete (q.length + 2) (q ++ crlf) (q ++ crlf)
      ⟨rfl, by simp [crlf]⟩ raw
    rw [readBulk, parseInt_bind hn, if_neg hneg, if_neg (by omega), Int.toNat_natCast]
    show EStateM.bind _ _ _ = _
    rw [EStateM.bind, hread]
    simp [Tree.value]

theorem readItems_complete (ts : List Tree) (hrv : ∀ t ∈ ts, ∀ raw s, rv (before t.bytes raw s) =
      .ok t.value { stream := s, raw := raw ++ t.bytes }) (raw : Bytes) (s : Stream) :
    readItems rv ts.length (before (Tree.bytesAll ts) raw s) =
      .ok (Tree.valueAll ts) { stream := s, raw := raw ++ Tree.bytesAll ts } := by
  induction ts generalizing raw with
  | nil =>
    simp only [Tree.bytesAll, before, List.map_nil, List.nil_append, List.append_nil]
    rfl
  | cons t ts ih =>
    have ih' := ih (fun x hx => hrv x (List.mem_cons_of_mem t hx)) (raw ++ t.bytes)
    rw [Tree.bytesAll, List.length_cons, readItems, bind_before (hrv t List.mem_cons_self raw)]
    show EStateM.bind _ _ _ = _
    rw [EStateM.bind, ih', List.append_assoc]
    rfl

theorem readAggregate_complete (rv : Read Value) {isMap : Bool} (t : RType)
    {ts : List Tree} (hk : Announces isMap len ts.length)
    (hrv : ∀ t ∈ ts, ∀ raw s, rv (before t.bytes raw s) =
      .ok t.value { stream := s, raw := raw ++ t.bytes }) (raw : Bytes) (s : Stream) :
    readAggregate rv t len isMap (before (Tree.bytesAll ts) raw s) =
      .ok (Tree.agg t len ts).value { stream := s, raw := raw ++ Tree.bytesAll ts } := by
  obtain ⟨n, hn, ⟨hneg, hnil⟩ | ⟨hpos, hcount, hmax⟩⟩ := hk
  · rw [readAggregate, parseInt_bind hn, if_pos hneg]
    obtain rfl := List.eq_nil_of_length_eq_zero hnil
    simp [Tree.bytesAll, before, Tree.value, Tree.valueAll, isNeg, hn, hneg]
  · have hitems : itemCount isMap n = (ts.length : Int) := by
      rw [hcount]
      unfold itemCount
      unfold maxItems at hmax
      cases isMap with
      | false => rfl
      | true =>
        simp only [if_true] at hcount ⊢
        exact Decimal.wrap64_of_small (by omega) (by omega)
    rw [readAggregate, parseInt_bind hn, if_neg (by omega), if_neg (by omega),
      if_neg (by omega), hitems, Int.toNat_natCast]
    show EStateM.bind _ _ _ = _
    rw [EStateM.bind, readItems_complete ts hrv]
    simp [Tree.value, isNeg, hn]
    omega

theorem lf_not_mem_of_parseInt64 {n : Int} (h : Decimal.parseInt64 len = some n) :
    lf ∉ len :=
  Decimal.not_mem_of_parseInt64 h (by decide) (by decide) (by decide)

theorem RType.byte_ne_lf (t : RType) : t.byte ≠ lf := by
  cases t <;> decide

/-- The first line of a frame is read in one piece. -/
theorem readLine_header (t : RType) {rest : Bytes} (hrest : lf ∉ rest)
    (f : Bytes → Read α) (bs raw : Bytes) (s : Stream) :
    (readLine >>= f) (before (header t rest ++ bs) raw s) =
      f (t.byte :: rest) (before bs (raw ++ header t rest) s) := by
  refine bind_before (readLine_complete _ _ ⟨?_, rfl⟩ raw)
  simp only [List.mem_cons, not_or]
  exact ⟨fun h => t.byte_ne_lf h.symm, hrest⟩

theorem Tree.length_bytes_le {ts : List Tree} {t : Tree} (h : t ∈ ts) :
    t.bytes.length ≤ (Tree.bytesAll ts).length := by
  induction ts with
  | nil => cases h
  | cons x ts ih =>
    rw [Tree.bytesAll, List.length_append]
    rcases List.mem_cons.1 h with rfl | h
    · omega
    · have := ih h
      omega

theorem length_header (t : RType) (rest : Bytes) : (header t rest).length = rest.length + 3 := by
  simp [header, crlf]

/-- **Every well-formed tree is read back from its bytes**, given fuel for its
length. -/
theorem readValueF_complete (fuel : Nat) {t : Tree} (ht : t.Wf) (hfuel : t.bytes.length < fuel)
    (raw : Bytes) (s : Stream) :
    readValueF fuel (before t.bytes raw s) =
      .ok t.value { stream := s, raw := raw ++ t.bytes } := by
  -- an item is shorter than the tree it is in, so the fuel left is enough for it
  induction fuel generalizing t raw s with
  | zero => omega
  | succ fuel ih =>
    cases ht with
    | @line t rest ht hlf hint =>
      have hb := @readLine_header Value t _ hlf
      rw [Tree.bytes, ← List.append_nil (header t rest), readValueF, hb, List.append_nil]
      cases t with
      | integer =>
        obtain ⟨n, hn⟩ := Option.isSome_iff_exists.1 (hint rfl)
        show (parseInt rest >>= _) _ = _
        rw [parseInt_bind hn]
        simp [before, Tree.value, lineValue, hn]
      | simpleString | error | null | boolean | double | bigNumber => rfl
      | _ => cases ht
    | @null t len n ht hn hneg =>
      have hb := @readLine_header Value t _ (lf_not_mem_of_parseInt64 hn)
      have hr := readBulk_complete (.null ht hn hneg) [] (by simp [Tree.bytes])
        (raw ++ header t len) s
      rw [Tree.bytes, ← List.append_nil (header t len), readValueF, hb]
      rw [List.append_nil] at hr ⊢
      cases t with
      | bulkString | blobError | verbatim => exact hr
      | _ => cases ht
    | @bulk t len p ht hn hmax =>
      have hb := @readLine_header Value t _ (lf_not_mem_of_parseInt64 hn)
      have hr := readBulk_complete (.bulk ht hn hmax) (p ++ crlf) (by simp [Tree.bytes])
        (raw ++ header t len) s
      rw [Tree.bytes, readValueF, hb, ← List.append_assoc]
      cases t with
      | bulkString | blobError | verbatim => exact hr
      | _ => cases ht
    | @agg t len items ht hk hitems =>
      have hlf : lf ∉ len := by
        obtain ⟨n, hn, -⟩ := hk
        exact lf_not_mem_of_parseInt64 hn
      have hb := @readLine_header Value t _ hlf
      rw [Tree.bytes, List.length_append, length_header] at hfuel
      have hr := readAggregate_complete (readValueF fuel) t hk
        (fun x hx raw s => ih (hitems x hx)
          (by have := Tree.length_bytes_le hx; omega) raw s) (raw ++ header t len) s
      rw [Tree.bytes, readValueF, hb, ← List.append_assoc]
      cases t with
      | array | push | set | map => exact hr
      | _ => cases ht
    | @attr len items next hk hitems hnext =>
      have hlf : lf ∉ len := by
        obtain ⟨n, hn, -⟩ := hk
        exact lf_not_mem_of_parseInt64 hn
      have hb := @readLine_header Value .attr _ hlf
      rw [Tree.bytes, List.length_append, length_header, List.length_append] at hfuel
      have hr := readAggregate_complete (readValueF fuel) .attr hk
        (fun x hx raw s => ih (hitems x hx)
          (by have := Tree.length_bytes_le hx; omega) raw s) (raw ++ header .attr len)
      have hn := ih hnext (by omega)
      rw [Tree.bytes, readValueF, hb]
      show (readAggregate (readValueF fuel) .attr len true >>= fun _ => readValueF fuel) _ = _
      rw [bind_before hr, hn]
      simp [Tree.value]

/-! ## Properties of readers -/

/-- Properties that the steps of the reader have, and sequences keep. -/
structure Closed (P : ∀ {α : Type}, Read α → Prop) : Prop where
  pure {α : Type} (a : α) : P (pure a : Read α)
  protocol {α : Type} : P (throw .protocol : Read α)
  bind {α β : Type} {p : Read α} {f : α → Read β} (hp : P p) (hf : ∀ a, P (f a)) : P (p >>= f)
  payload (n : Nat) : P (readPayload n)

namespace Closed

variable {P : ∀ {α : Type}, Read α → Prop}

theorem parseInt (h : Closed P) (b : Bytes) : P (parseInt b) := by
  unfold Resp.parseInt
  split
  · exact h.pure _
  · exact h.protocol

theorem readBulk (h : Closed P) (t : RType) (len : Bytes) : P (readBulk t len) := by
  refine h.bind (h.parseInt len) fun k => ?_
  split
  · exact h.pure _
  · split
    · exact h.protocol
    · refine h.bind (h.payload _) fun buf => ?_
      split
      · exact h.protocol
      · exact h.pure _

theorem readItems (h : Closed P) (hrv : P rv) (k : Nat) : P (readItems rv k) := by
  induction k with
  | zero => exact h.pure _
  | succ k ih => exact h.bind hrv fun v => h.bind ih fun vs => h.pure _

theorem readAggregate (h : Closed P) (hpanic : P (throw .panic : Read Value)) (hrv : P rv)
    (t : RType) (len : Bytes) (isMap : Bool) : P (readAggregate rv t len isMap) := by
  refine h.bind (h.parseInt len) fun k => ?_
  split
  · exact h.pure _
  · split
    · exact h.protocol
    · split
      · exact hpanic
      · exact h.bind (h.readItems hrv _) fun vs => h.pure _

/-- What follows the first line has the property, given it has it for less fuel. -/
theorem readValueF (h : Closed P) {Q : Read Value → Prop} {fuel : Nat}
    (hline : ∀ {f : Bytes → Read Value}, (∀ line, P (f line)) → Q (readLine >>= f))
    (hpanic : P (throw .panic : Read Value)) (ih : P (readValueF fuel)) :
    Q (Resp.readValueF (fuel + 1)) := by
  refine hline fun line => ?_
  cases line with
  | nil => exact h.protocol
  | cons c rest =>
    dsimp only
    cases RType.ofByte c with
    | none => exact h.protocol
    | some t =>
      cases t with
      | zero => exact h.protocol
      | integer => exact h.bind (h.parseInt rest) fun k => h.pure _
      | bulkString | blobError | verbatim => exact h.readBulk _ rest
      | array | push | set | map => exact h.readAggregate hpanic ih _ rest _
      | attr => exact h.bind (h.readAggregate hpanic ih _ rest _) fun _ => ih
      | simpleString | error | null | boolean | double | bigNumber => exact h.pure _

end Closed

/-! ## The fuel is enough -/

/-- `p` does not run out of fuel on streams shorter than `n`, and never
lengthens one. -/
def Fuelled (n : Nat) (p : Read α) : Prop :=
  ∀ st, st.stream.length < n →
    (∀ st', p st ≠ .error .stuck st') ∧
      ∀ a st', p st = .ok a st' → st'.stream.length ≤ st.stream.length

theorem Fuelled.bind (hp : Fuelled n p) (hf : ∀ a, Fuelled n (f a)) : Fuelled n (p >>= f) := by
  intro st hst
  refine ⟨?_, ?_⟩
  · intro st' h
    rcases bind_error.1 h with h | ⟨a, st₁, ha, h⟩
    · exact (hp st hst).1 st' h
    · have := (hp st hst).2 a st₁ ha
      exact (hf a st₁ (by omega)).1 st' h
  · intro b st' h
    obtain ⟨a, st₁, ha, h⟩ := bind_ok.1 h
    have h₁ := (hp st hst).2 a st₁ ha
    have h₂ := (hf a st₁ (by omega)).2 b st' h
    omega

theorem Fuelled.pure (n : Nat) (a : α) : Fuelled n (Pure.pure a : Read α) := by
  intro st _
  refine ⟨fun st' h => pure_error.1 h, ?_⟩
  intro b st' h
  exact Nat.le_of_eq (by rw [(pure_ok.1 h).2])

theorem Fuelled.throw (n : Nat) (he : e ≠ .stuck) :
    Fuelled n (throw e : Read α) := by
  intro st _
  exact ⟨fun st' h => he (throw_error.1 h).1, fun a st' h => (throw_ok.1 h).elim⟩

theorem readSlice_error (h : readSlice s = .error e s') :
    e ∈ [ReadErr.eof, .timeout] := by
  induction s with
  | nil =>
    cases h
    decide
  | cons a s ih =>
    cases a with
    | expire =>
      cases h
      decide
    | byte b =>
      rw [readSlice] at h
      split at h
      · cases h
      · cases hr : readSlice s with
        | ok l s₁ => simp [hr] at h
        | error e₁ s₁ =>
          simp only [hr, EStateM.Result.error.injEq] at h
          exact ih (by rw [hr, h.1, h.2])

theorem readFull_error {b : Bool}
    (h : readFull n b s = .error e s') : e ∈ [ReadErr.eof, .unexpectedEOF, .timeout] := by
  induction n generalizing b s with
  | zero => cases h
  | succ n ih =>
    match s, h with
    | [], h =>
      cases b <;>
      · cases h
        decide
    | .expire :: s, h =>
      cases h
      decide
    | .byte c :: s, h =>
      rw [readFull] at h
      cases hr : readFull n true s with
      | ok l s₁ => simp [hr] at h
      | error e₁ s₁ =>
        simp only [hr, EStateM.Result.error.injEq] at h
        exact ih (by rw [hr, h.1, h.2])

/-- A line fails to be read, or it does not end in CRLF. -/
theorem readLine_error (h : readLine st = .error e st') :
    e ∈ [ReadErr.eof, .timeout, .protocol] := by
  unfold readLine at h
  cases hr : readSlice st.stream with
  | error e₁ s =>
    simp only [hr, EStateM.Result.error.injEq] at h
    have he := readSlice_error hr
    rw [h.1] at he
    exact List.mem_append_left [.protocol] he
  | ok line s =>
    simp only [hr] at h
    split at h
    · cases h
    · cases h
      decide

theorem readPayload_error
    (h : readPayload n st = .error e st') : e ∈ [ReadErr.eof, .unexpectedEOF, .timeout] := by
  unfold readPayload at h
  cases hr : readFull n false st.stream with
  | error e₁ s =>
    simp only [hr, EStateM.Result.error.injEq] at h
    rw [← h.1]
    exact readFull_error hr
  | ok line s => simp [hr] at h

theorem readLine_fuelled (n : Nat) : Fuelled n readLine := by
  intro st _
  refine ⟨fun st' h => absurd (readLine_error h) (by decide), ?_⟩
  intro a st' h
  obtain ⟨bs, hc, -⟩ := readLine_sound _ _ _ h
  have := hc.length
  omega

theorem readPayload_fuelled (n k : Nat) : Fuelled n (readPayload k) := by
  intro st _
  refine ⟨fun st' h => absurd (readPayload_error h) (by decide), ?_⟩
  intro a st' h
  obtain ⟨bs, hc, -⟩ := readPayload_sound _ _ _ _ h
  have := hc.length
  omega

/-- A line has at least its line feed, so what follows it gets along with less fuel. -/
theorem readLine_bind_fuelled {f : Bytes → Read α} (hf : ∀ line, Fuelled n (f line)) :
    Fuelled (n + 1) (readLine >>= f) := by
  intro st hst
  have hlt : ∀ line st₁, readLine st = .ok line st₁ → st₁.stream.length < st.stream.length := by
    intro line st₁ h
    obtain ⟨bs, hc, -, rfl⟩ := readLine_sound _ _ _ h
    have hl := hc.length
    simp only [List.length_append, crlf, List.length_cons] at hl
    omega
  refine ⟨?_, ?_⟩
  · intro st' h
    rcases bind_error.1 h with h | ⟨line, st₁, h₁, h⟩
    · exact (readLine_fuelled (n + 1) st hst).1 st' h
    · have := hlt line st₁ h₁
      exact (hf line st₁ (by omega)).1 st' h
  · intro b st' h
    obtain ⟨line, st₁, h₁, h⟩ := bind_ok.1 h
    have h₂ := hlt line st₁ h₁
    have h₃ := (hf line st₁ (by omega)).2 b st' h
    omega

theorem Fuelled.closed (n : Nat) : Closed fun p => Fuelled n p where
  pure := .pure n
  protocol := .throw n (by decide)
  bind := .bind
  payload := readPayload_fuelled n

theorem readValueF_fuelled (n : Nat) : Fuelled n (readValueF n) := by
  induction n with
  | zero =>
    intro st hst
    omega
  | succ n ih => exact (Fuelled.closed n).readValueF readLine_bind_fuelled (.throw n (by decide)) ih

/-! ## `ReadValue` -/

/-- `ReadValue` never runs out of fuel. -/
theorem readValue_ne_stuck (s s' : Stream) : readValue s ≠ .error .stuck s' := by
  intro h
  unfold readValue at h
  have hf := (readValueF_fuelled (s.length + 1) { stream := s, raw := [] } (Nat.lt_succ_self _)).1
  cases hr : readValueF (s.length + 1) { stream := s, raw := [] } with
  | ok v st => simp [hr] at h
  | error e st =>
    simp only [hr, EStateM.Result.error.injEq] at h
    exact hf st (by rw [hr, h.1])

/-- What `ReadValue` returns is a well-formed tree whose bytes are the raw
bytes and what was consumed. -/
theorem readValue_ok {v : Value} (h : readValue s = .ok v s') :
    ∃ t : Tree, t.Wf ∧ v = { t.value with raw := t.bytes } ∧
      s = t.bytes.map Arrival.byte ++ s' := by
  unfold readValue at h
  cases hr : readValueF (s.length + 1) { stream := s, raw := [] } with
  | error e st => simp [hr] at h
  | ok w st =>
    simp only [hr, EStateM.Result.ok.injEq] at h
    obtain ⟨rfl, rfl⟩ := h
    obtain ⟨_, hc, t, ht, rfl, rfl⟩ := readValueF_sound _ _ _ _ hr
    refine ⟨t, ht, ?_, hc.1⟩
    rw [hc.2, List.nil_append]

/-- `ReadValue` reads back every well-formed tree. -/
theorem readValue_bytes {t : Tree} (ht : t.Wf) (s : Stream) :
    readValue (t.bytes.map Arrival.byte ++ s) = .ok { t.value with raw := t.bytes } s := by
  have hlen : t.bytes.length < (t.bytes.map Arrival.byte ++ s).length + 1 := by
    rw [List.length_append, List.length_map]
    omega
  have h := readValueF_complete _ ht hlen [] s
  rw [before, List.nil_append] at h
  rw [readValue, h]

end RespProxy.Resp
