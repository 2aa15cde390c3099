import RespProxy.Resp.Request

/-! # Forwarding a frame and writing it again

The proxy answers a client in two ways: it forwards the wire bytes a reply was
read from, or it changes the parsed reply, clears `Raw`, and lets `Encode`
write it anew.

* `frame_verbatim`: the raw bytes are one frame, they are what `Encode` sends,
  and frames written one behind another are read back as they were;
* `reencodes_iff_writable`: `Encode` without the raw bytes gives the value back
  exactly for the values it has a wire form for. Blob errors and verbatim
  strings are written as lines, without their length, and the null map and the
  null set as empty ones.
-/

namespace RespProxy.Resp

variable {t : RType} {v : Value} {isMap : Bool} {len : Bytes} {k : Nat}

/-! ## One frame behind another -/

/-- `n` calls of `ReadValue` on one connection. -/
def readValues : Nat → Stream → EStateM.Result ReadErr Stream (List Value)
  | 0, s => .ok [] s
  | n + 1, s =>
    match readValue s with
    | .error e s' => .error e s'
    | .ok v s' =>
      match readValues n s' with
      | .error e s'' => .error e s''
      | .ok vs s'' => .ok (v :: vs) s''

theorem Tree.bytes_ne_nil (t : Tree) : t.bytes ≠ [] := by
  match t with
  | .line .. => simp [Tree.bytes, header]
  | .bulk _ _ none => simp [Tree.bytes, header]
  | .bulk _ _ (some _) => simp [Tree.bytes, header]
  | .agg .. => simp [Tree.bytes, header]
  | .attr .. => simp [Tree.bytes, header]

/-- A value that carries its wire bytes is sent as they are. -/
theorem encode_of_raw (h : v.raw ≠ []) : encode v = v.raw := by
  obtain ⟨type, str, int, values, raw, null⟩ := v
  cases type <;> exact if_pos h

/-- What `ReadValue` returned once is returned again by its raw bytes. -/
theorem readValue_again {s r : Stream} (h : readValue s = .ok v r) :
    s = v.raw.map Arrival.byte ++ r ∧ encode v = v.raw ∧
      ∀ r', readValue (v.raw.map Arrival.byte ++ r') = .ok v r' := by
  obtain ⟨t, hwf, rfl, hs⟩ := readValue_ok h
  exact ⟨hs, encode_of_raw t.bytes_ne_nil, readValue_bytes hwf⟩

/-- **Frames are forwarded verbatim.** The raw bytes of a value are the bytes
`ReadValue` consumed and what `Encode` writes; they are read back as that value
whatever follows, and so are any frames written behind it. -/
theorem frame_verbatim {s r : Stream} {v : Value} (h : readValue s = .ok v r) :
    s = v.raw.map Arrival.byte ++ r ∧ encode v = v.raw ∧
      (∀ r', readValue (v.raw.map Arrival.byte ++ r') = .ok v r') ∧
      ∀ ws : List Value, (∀ w ∈ ws, ∃ s' r', readValue s' = .ok w r') → ∀ r',
        readValues (ws.length + 1) ((encodeAll (v :: ws)).map Arrival.byte ++ r') =
          .ok (v :: ws) r' := by
  obtain ⟨hs, henc, hv⟩ := readValue_again h
  refine ⟨hs, henc, hv, ?_⟩
  intro ws
  -- over the frames behind the first one, each of which is consumed exactly
  induction ws generalizing s r v with
  | nil =>
    intro _ r'
    simp [encodeAll, readValues, henc, hv]
  | cons w ws ih =>
    intro hws r'
    obtain ⟨s', r'', hw⟩ := hws w List.mem_cons_self
    obtain ⟨hs', henc', hw'⟩ := readValue_again hw
    have hrest := ih hw hs' henc' hw' (fun x hx => hws x (List.mem_cons_of_mem _ hx)) r'
    rw [encodeAll, henc, List.map_append, List.append_assoc, List.length_cons, readValues, hv]
    dsimp only
    rw [hrest]

theorem frame_verbatim_ping :
    readValue (pingTree.bytes.map Arrival.byte ++ [.expire]) =
        .ok { pingTree.value with raw := pingTree.bytes } [.expire] ∧
      readValues 2 ((pingTree.bytes ++ (pingTree.bytes ++ [])).map Arrival.byte ++ []) =
        .ok [{ pingTree.value with raw := pingTree.bytes },
          { pingTree.value with raw := pingTree.bytes }] [] := by
  have h := readValue_bytes pingTree_wf [.expire]
  refine ⟨h, ?_⟩
  have := (frame_verbatim h).2.2.2 [{ pingTree.value with raw := pingTree.bytes }]
    (fun w hw => by rw [List.mem_singleton.1 hw]; exact ⟨_, _, h⟩) []
  rw [encodeAll, encodeAll, encode_of_raw pingTree.bytes_ne_nil] at this
  exact this

/-! ## What survives without the raw bytes -/

mutual

/-- The value without its wire bytes; an absent string is the empty one. -/
def Value.bare : Value → Value
  | ⟨type, str, int, values, _, null⟩ => ⟨type, .mk str.bytes, int, bareAll values, [], null⟩

def Value.bareAll : List Value → List Value
  | [] => []
  | v :: vs => v.bare :: bareAll vs

end

mutual

/-- `Encode` has a wire form for the value: nowhere in it is a blob error, a
verbatim string, a null map or a null set. -/
def Value.writable : Value → Bool
  | ⟨type, _, _, values, _, null⟩ =>
    decide (type ≠ .blobError ∧ type ≠ .verbatim ∧
      (null = true → type ≠ .map ∧ type ≠ .set)) && writableAll values

def Value.writableAll : List Value → Bool
  | [] => true
  | v :: vs => v.writable && writableAll vs

end

mutual

/-- The line feeds that every frame of the value has. -/
def Value.lines : Value → Nat
  | ⟨type, str, _, values, _, null⟩ =>
    (if type.isBulk = true ∧ null = false then 2 + str.bytes.count lf else 1) + linesAll values

def Value.linesAll : List Value → Nat
  | [] => 0
  | v :: vs => v.lines + linesAll vs

end

mutual

/-- The strings in the value that `Encode` writes without their length. -/
def Value.unsized : Value → Nat
  | ⟨type, _, _, values, _, null⟩ =>
    (if (type = .blobError ∨ type = .verbatim) ∧ null = false then 1 else 0) + unsizedAll values

def Value.unsizedAll : List Value → Nat
  | [] => 0
  | v :: vs => v.unsized + unsizedAll vs

end

mutual

theorem Value.lines_bare : ∀ v : Value, v.bare.lines = v.lines
  | ⟨type, str, int, values, _, null⟩ => by
    rw [Value.bare, Value.lines, Value.lines, Value.linesAll_bareAll values]
    rfl

theorem Value.linesAll_bareAll : ∀ vs : List Value, linesAll (bareAll vs) = linesAll vs
  | [] => by rw [Value.bareAll]
  | v :: vs => by
    rw [Value.bareAll, Value.linesAll, Value.linesAll, Value.lines_bare v,
      Value.linesAll_bareAll vs]

end

theorem Tree.value_raw (t : Tree) : t.value.raw = [] := by
  match t with
  | .line t rest => cases t <;> rfl
  | .bulk _ _ none => rfl
  | .bulk _ _ (some _) => rfl
  | .agg .. => rfl
  | .attr _ _ next => exact next.value_raw

/-- Two frames that start alike are the same value and end at the same place. -/
theorem Tree.bytes_append_inj {t t' : Tree} (h : t.Wf) (h' : t'.Wf) {r r' : Bytes}
    (heq : t.bytes ++ r = t'.bytes ++ r') : t.value = t'.value ∧ r = r' := by
  have hread := readValue_bytes h (r.map Arrival.byte)
  rw [← List.map_append, heq, List.map_append, readValue_bytes h'] at hread
  simp only [EStateM.Result.ok.injEq, Value.mk.injEq] at hread
  obtain ⟨⟨htype, hstr, hint, hvalues, hraw, hnull⟩, hr⟩ := hread
  refine ⟨?_, ?_⟩
  · have hv := t.value_raw
    have hv' := t'.value_raw
    generalize t.value = v at *
    generalize t'.value = v' at *
    cases v
    cases v'
    simp_all
  · rw [hraw] at heq
    exact List.append_cancel_left heq

/-! ### The frame `Encode` writes -/

/-- A single-line value is written as a line that reads like it. -/
theorem Tree.Wf.exists_line {rest : Bytes} (h : (Tree.line t rest).Wf) :
    ∃ body, (Tree.line t body).Wf ∧ encode (lineValue t rest) = header t body ∧
      lineValue t body = lineValue t rest := by
  obtain ⟨ht, hlf, hint⟩ := h
  cases t with
  | simpleString | error | double | bigNumber =>
    refine ⟨rest, .line ht hlf hint, ?_, rfl⟩
    simp [lineValue, encode, clone, header, RType.byte]
  | integer =>
    obtain ⟨n, hn⟩ := Option.isSome_iff_exists.1 (hint rfl)
    have hr := Decimal.parseInt64_range hn
    have hp := Decimal.parseInt64_ofInt hr.1 hr.2
    refine ⟨Decimal.ofInt n, .line ht (lf_not_mem_of_parseInt64 hp) fun _ => by rw [hp]; rfl, ?_, ?_⟩
    · simp [lineValue, encode, header, RType.byte, hn]
    · simp [lineValue, hn, hp]
  | null => exact ⟨[], .line ht (by simp) (by simp), rfl, rfl⟩
  | boolean =>
    -- whatever stood behind `#`, one of the two letters is written
    by_cases hc : rest.head? = some 116 ∨ rest.head? = some 84
    · refine ⟨lit "t", .line ht (by decide) (by simp), ?_, ?_⟩
      · simp only [lineValue, encode, if_pos hc]
        rfl
      · simp only [lineValue, if_pos hc]
        rfl
    · refine ⟨lit "f", .line ht (by decide) (by simp), ?_, ?_⟩
      · simp only [lineValue, encode, if_neg hc]
        rfl
      · simp only [lineValue, if_neg hc]
        rfl
  | bulkString | array | blobError | verbatim | map | set | push | attr | zero => cases ht

/-- The items of an aggregate whose length field is not negative. -/
theorem announced (h : Announces isMap len k) (hneg : isNeg len = false) :
    (isMap = true → k % 2 = 0) ∧ (k : Int) ≤ maxItems := by
  obtain ⟨n, hn, ⟨hlt, -⟩ | ⟨-, hk, hmax⟩⟩ := h
  · rw [isNeg, hn] at hneg
    simp at hneg
    omega
  · refine ⟨?_, hmax⟩
    rintro rfl
    simp only [if_true] at hk
    omega

/-- No items stand behind a negative length field. -/
theorem announced_neg (h : Announces isMap len k) (hneg : isNeg len = true) : k = 0 := by
  obtain ⟨n, hn, ⟨-, hk⟩ | ⟨hle, -, -⟩⟩ := h
  · exact hk
  · rw [isNeg, hn] at hneg
    simp at hneg
    omega

/-- The count `Encode` writes in front of `k` items. -/
def countField (t : RType) (k : Nat) : Bytes := Decimal.ofNat (if t = .map then k / 2 else k)

theorem lf_not_mem_countField (t : RType) (k : Nat) : lf ∉ countField t k := lf_not_mem_ofNat _

theorem announces_countField (heven : t = .map → k % 2 = 0) (hmax : (k : Int) ≤ maxItems) :
    Announces (decide (t = .map)) (countField t k) k ∧ isNeg (countField t k) = false := by
  have hsmall : k ≤ 1000000 := Int.ofNat_le.1 hmax
  have hn : (if t = .map then k / 2 else k) < 2 ^ 63 := by
    split <;> omega
  have hp := Decimal.parseInt64_ofNat hn
  refine ⟨⟨_, hp, .inr ⟨Int.natCast_nonneg _, ?_, hmax⟩⟩, ?_⟩
  · by_cases ht : t = .map
    · have := heven ht
      rw [if_pos ht, if_pos (decide_eq_true ht)]
      omega
    · rw [if_neg ht, if_neg (by simpa using ht)]
  · rw [isNeg, countField, hp, Option.any_some]
    exact decide_eq_false (Int.not_lt.2 (Int.natCast_nonneg _))

theorem Tree.length_valueAll (ts : List Tree) : (Tree.valueAll ts).length = ts.length := by
  rw [Tree.valueAll_eq, List.length_map]

/-- An aggregate that is not null is written with its count in front. -/
theorem encode_agg (ht : t.isAgg = true) (vs : List Value) :
    encode { type := t, values := vs } = header t (countField t vs.length) ++ encodeAll vs := by
  cases t with
  | array | push | set | map => simp [encode, header, countField, RType.byte]
  | _ => cases ht

theorem minus_one : Decimal.parseInt64 (lit "-1") = some (-1) := by decide +kernel

/-- The null aggregate, which `Encode` knows for arrays and pushes only. -/
theorem encode_nullAgg (ht : t = .array ∨ t = .push) :
    encode { type := t, null := true } = header t (lit "-1") := by
  rcases ht with rfl | rfl <;> rfl

/-- The value of an aggregate with a negative length field. -/
theorem Tree.value_of_isNeg {items : List Tree}
    (hk : Announces isMap len items.length) (hneg : isNeg len = true) :
    (Tree.agg t len items).value = { type := t, null := true } := by
  obtain rfl := List.eq_nil_of_length_eq_zero (announced_neg hk hneg)
  rw [Tree.value, hneg]
  rfl

theorem exists_frames (items : List Tree) (hitems : ∀ x ∈ items, x.Wf)
    (ih : ∀ x ∈ items, x.value.writable = true →
      ∃ t : Tree, t.Wf ∧ t.bytes = encode x.value ∧ t.value = x.value)
    (hw : Value.writableAll (Tree.valueAll items) = true) :
    ∃ ts : List Tree, (∀ x ∈ ts, x.Wf) ∧ Tree.bytesAll ts = encodeAll (Tree.valueAll items) ∧
      Tree.valueAll ts = Tree.valueAll items := by
  induction items with
  | nil => exact ⟨[], by simp, rfl, rfl⟩
  | cons x items ihl =>
    rw [Tree.valueAll, Value.writableAll, Bool.and_eq_true] at hw
    obtain ⟨t, hwf, hb, hv⟩ := ih x List.mem_cons_self hw.1
    obtain ⟨ts, hts, hbs, hvs⟩ := ihl (fun y hy => hitems y (List.mem_cons_of_mem _ hy))
      (fun y hy => ih y (List.mem_cons_of_mem _ hy)) hw.2
    refine ⟨t :: ts, ?_, ?_, ?_⟩
    · intro y hy
      rcases List.mem_cons.1 hy with rfl | hy
      · exact hwf
      · exact hts y hy
    · rw [Tree.bytesAll, Tree.valueAll, encodeAll, hb, hbs]
    · rw [Tree.valueAll, Tree.valueAll, hv, hvs]

/-- What `Encode` has a wire form for, it writes as a frame of the same value. -/
theorem Tree.Wf.exists_frame {t₀ : Tree} (h : t₀.Wf) (hw : t₀.value.writable = true) :
    ∃ t : Tree, t.Wf ∧ t.bytes = encode t₀.value ∧ t.value = t₀.value := by
  induction h with
  | @line t rest ht hlf hint =>
    obtain ⟨body, hwf, henc, hval⟩ := (Tree.Wf.line ht hlf hint).exists_line
    exact ⟨_, hwf, henc.symm, hval⟩
  | @null t len n ht hn hneg =>
    cases t with
    | bulkString =>
      exact ⟨.bulk .bulkString (lit "-1") none, .null rfl minus_one (by decide), rfl, rfl⟩
    | _ => simp_all [Tree.value, Value.writable, RType.isBulk]
  | @bulk t len p ht hn hmax =>
    cases t with
    | bulkString =>
      have hmax' : (p.length : Int) ≤ 512 * 1024 * 1024 := hmax
      refine ⟨.bulk .bulkString (Decimal.ofNat p.length) (some p),
        .bulk rfl (Decimal.parseInt64_ofNat (by omega)) hmax, ?_, rfl⟩
      simp [Tree.bytes, Tree.value, encode, header, RType.byte]
    | _ => simp_all [Tree.value, Value.writable, RType.isBulk]
  | @agg t len items ht hk hitems ih =>
    cases hneg : isNeg len with
    | true =>
      rw [Tree.value_of_isNeg hk hneg] at hw ⊢
      have hty : t = .array ∨ t = .push := by
        cases t <;> simp_all [Value.writable, RType.isAgg]
      refine ⟨.agg t (lit "-1") [], .agg ht ⟨-1, minus_one, .inl ⟨by decide, rfl⟩⟩ (by simp), ?_, rfl⟩
      rw [encode_nullAgg hty]
      exact List.append_nil _
    | false =>
      have hval : (Tree.agg t len items).value = { type := t, values := Tree.valueAll items } := by
        rw [Tree.value, hneg]
      rw [hval] at hw ⊢
      rw [Value.writable, Bool.and_eq_true] at hw
      obtain ⟨ts, hts, hbytes, hvals⟩ := exists_frames items hitems ih hw.2
      have hlen : ts.length = items.length := by
        rw [← Tree.length_valueAll, hvals, Tree.length_valueAll]
      obtain ⟨heven, hmax⟩ := announced hk hneg
      have hcount := @announces_countField t items.length (fun h => heven (decide_eq_true h)) hmax
      refine ⟨.agg t (countField t items.length) ts, .agg ht (by rw [hlen]; exact hcount.1) hts, ?_, ?_⟩
      · rw [Tree.bytes, encode_agg ht, hbytes, Tree.length_valueAll]
      · rw [Tree.value, hvals, hcount.2]
  | attr hk hitems hnext _ ih => exact ih hw

/-! ### The values `Encode` loses -/

theorem count_header (t : RType) {rest : Bytes} (h : lf ∉ rest) : (header t rest).count lf = 1 := by
  have ht : (t.byte == lf) = false := by cases t <;> decide
  rw [header, List.count_append, List.count_cons, ht, List.count_eq_zero_of_not_mem h]
  rfl

/-- The line feeds of a value that is not a string with a length. -/
theorem Value.lines_of_not_isBulk (h : v.type.isBulk = false) :
    v.lines = 1 + linesAll v.values := by
  obtain ⟨type, str, int, values, raw, null⟩ := v
  rw [Value.lines, if_neg (by simp_all)]

theorem Value.unsized_of_not_isBulk (h : v.type.isBulk = false) :
    v.unsized = unsizedAll v.values := by
  obtain ⟨type, str, int, values, raw, null⟩ := v
  rw [Value.unsized, if_neg, Nat.zero_add]
  rintro ⟨rfl | rfl, -⟩ <;> cases h

theorem lineValue_plain (ht : t.isLine = true) (rest : Bytes) :
    (lineValue t rest).type.isBulk = false ∧ (lineValue t rest).values = [] := by
  cases t with
  | simpleString | error | integer | null | boolean | double | bigNumber => exact ⟨rfl, rfl⟩
  | _ => cases ht

theorem not_isBulk_of_isAgg (ht : t.isAgg = true) : t.isBulk = false := by
  cases t with
  | array | push | set | map => rfl
  | _ => cases ht

/-- The frames of a value have at least its line feeds. -/
theorem Tree.Wf.lines_le {t : Tree} (h : t.Wf) : t.value.lines ≤ t.bytes.count lf := by
  induction h with
  | @line t rest ht hlf hint =>
    have hp := lineValue_plain ht rest
    rw [Tree.value, Value.lines_of_not_isBulk hp.1, hp.2, Tree.bytes, count_header t hlf]
    exact Nat.le_refl _
  | @null t len n ht hn hneg =>
    rw [Tree.bytes, count_header t (lf_not_mem_of_parseInt64 hn)]
    simp [Tree.value, Value.lines, Value.linesAll]
  | @bulk t len p ht hn hmax =>
    rw [Tree.bytes, List.count_append, count_header t (lf_not_mem_of_parseInt64 hn),
      List.count_append, show crlf.count lf = 1 from rfl]
    simp only [Tree.value, Value.lines, Value.linesAll, ht, Slice.bytes_mk, and_self, if_true]
    omega
  | @agg t len items ht hk hitems ih =>
    obtain ⟨n, hn, -⟩ := hk
    rw [Tree.bytes, List.count_append, count_header t (lf_not_mem_of_parseInt64 hn), Tree.value,
      Value.lines_of_not_isBulk (not_isBulk_of_isAgg ht)]
    have hall : Value.linesAll (Tree.valueAll items) ≤ (Tree.bytesAll items).count lf := by
      clear hn hitems
      induction items with
      | nil => exact Nat.le_refl _
      | cons x items ihl =>
        rw [Tree.valueAll, Value.linesAll, Tree.bytesAll, List.count_append]
        exact Nat.add_le_add (ih x List.mem_cons_self)
          (ihl fun y hy => ih y (List.mem_cons_of_mem _ hy))
    exact Nat.add_le_add_left hall 1
  | attr hk hitems hnext _ ih =>
    rw [Tree.value, Tree.bytes, List.count_append, List.count_append]
    omega

/-- `Encode` writes one line feed less for every string without length. -/
theorem Tree.Wf.count_encode {t : Tree} (h : t.Wf) :
    (encode t.value).count lf + t.value.unsized = t.value.lines := by
  induction h with
  | @line t rest ht hlf hint =>
    have hp := lineValue_plain ht rest
    obtain ⟨body, hwf, henc, -⟩ := (Tree.Wf.line ht hlf hint).exists_line
    obtain ⟨-, hbody, -⟩ := hwf
    rw [Tree.value, henc, count_header t hbody, Value.lines_of_not_isBulk hp.1,
      Value.unsized_of_not_isBulk hp.1, hp.2]
    rfl
  | @null t len n ht hn hneg =>
    cases t with
    | bulkString | blobError | verbatim => rfl
    | _ => cases ht
  | @bulk t len p ht hn hmax =>
    cases t with
    | bulkString =>
      have henc : encode (Tree.bulk .bulkString len (some p)).value = encodeArg p := by
        simp [Tree.value, encode, encodeArg]
      rw [henc, encodeArg_eq, List.count_append, count_header _ (lf_not_mem_ofNat _),
        List.count_append, show crlf.count lf = 1 from rfl]
      simp [Tree.value, Value.lines, Value.unsized, Value.linesAll, Value.unsizedAll, RType.isBulk]
      omega
    | blobError | verbatim =>
      simp [Tree.value, encode, Value.lines, Value.unsized, Value.linesAll, Value.unsizedAll,
        RType.isBulk, RType.byte, crlf, lf, cr]
      omega
    | _ => cases ht
  | @agg t len items ht hk hitems ih =>
    have hb := not_isBulk_of_isAgg ht
    rw [Value.lines_of_not_isBulk (by exact hb), Value.unsized_of_not_isBulk (by exact hb)]
    cases hneg : isNeg len with
    | true =>
      rw [Tree.value_of_isNeg hk hneg]
      cases t with
      | array | push | set | map => decide +kernel
      | _ => cases ht
    | false =>
      have hall : (encodeAll (Tree.valueAll items)).count lf +
          Value.unsizedAll (Tree.valueAll items) = Value.linesAll (Tree.valueAll items) := by
        clear hk hitems
        induction items with
        | nil => rfl
        | cons x items ihl =>
          have hx := ih x List.mem_cons_self
          have hxs := ihl fun y hy => ih y (List.mem_cons_of_mem _ hy)
          rw [Tree.valueAll, encodeAll, Value.unsizedAll, Value.linesAll, List.count_append]
          omega
      rw [Tree.value, hneg, encode_agg ht, List.count_append,
        count_header t (lf_not_mem_countField t _)]
      dsimp only
      omega
  | attr hk hitems hnext _ ih => exact ih

theorem RType.byte_inj {t t' : RType} (h : t.byte = t'.byte) : t = t' := by
  cases t <;> cases t' <;> first | rfl | exact absurd h (by decide)

/-- What `Encode` has a wire form for is read as that value and nothing more. -/
theorem Tree.Wf.value_of_writable {t₀ t : Tree} (h₀ : t₀.Wf) (hw : t₀.value.writable = true)
    (h : t.Wf) {r r' : Bytes} (heq : encode t₀.value ++ r = t.bytes ++ r') :
    t₀.value = t.value ∧ r = r' := by
  obtain ⟨t', h', hbytes, hval⟩ := h₀.exists_frame hw
  rw [← hbytes] at heq
  rw [← hval]
  exact Tree.bytes_append_inj h' h heq

/-- No frame starts with a length line that is empty. -/
theorem Tree.Wf.header_ne_empty {t : Tree} (h : t.Wf) {ty : RType} (hty : ty.isBulk = true)
    {r r' : Bytes} : header ty [] ++ r ≠ t.bytes ++ r' := by
  intro heq
  have hnil : lf ∉ ([] : Bytes) := by simp
  cases h with
  | @line t rest ht hlf _ =>
    obtain ⟨hb, -, -⟩ := header_append_inj hnil hlf heq
    rw [RType.byte_inj hb] at hty
    cases t with
    | simpleString | error | integer | null | boolean | double | bigNumber => cases hty
    | _ => cases ht
  | @null t len n ht hn hneg =>
    obtain ⟨-, rfl, -⟩ := header_append_inj hnil (lf_not_mem_of_parseInt64 hn) heq
    cases hn
  | @bulk t len p ht hn hmax =>
    rw [Tree.bytes, List.append_assoc] at heq
    obtain ⟨-, rfl, -⟩ := header_append_inj hnil (lf_not_mem_of_parseInt64 hn) heq
    cases hn
  | @agg t len items ht hk hitems =>
    obtain ⟨n, hn, -⟩ := hk
    rw [Tree.bytes, List.append_assoc] at heq
    obtain ⟨-, rfl, -⟩ := header_append_inj hnil (lf_not_mem_of_parseInt64 hn) heq
    cases hn
  | @attr len items next hk hitems hnext =>
    obtain ⟨n, hn, -⟩ := hk
    rw [Tree.bytes, List.append_assoc] at heq
    obtain ⟨-, rfl, -⟩ := header_append_inj hnil (lf_not_mem_of_parseInt64 hn) heq
    cases hn

/-- A frame that starts with the header of an aggregate is that aggregate. -/
theorem Tree.Wf.eq_agg {t : Tree} (h : t.Wf) {ty : RType} (hty : ty.isAgg = true) {a r r' : Bytes}
    (ha : lf ∉ a) (heq : header ty a ++ r = t.bytes ++ r') :
    ∃ items, t = .agg ty a items ∧ (∀ x ∈ items, x.Wf) ∧ r = Tree.bytesAll items ++ r' := by
  cases h with
  | @line t rest ht hlf _ =>
    obtain ⟨hb, -, -⟩ := header_append_inj ha hlf heq
    rw [RType.byte_inj hb] at hty
    cases t with
    | array | push | set | map => cases ht
    | _ => cases hty
  | @null t len n ht hn hneg =>
    obtain ⟨hb, -, -⟩ := header_append_inj ha (lf_not_mem_of_parseInt64 hn) heq
    rw [RType.byte_inj hb] at hty
    rw [not_isBulk_of_isAgg hty] at ht
    cases ht
  | @bulk t len p ht hn hmax =>
    rw [Tree.bytes, List.append_assoc] at heq
    obtain ⟨hb, -, -⟩ := header_append_inj ha (lf_not_mem_of_parseInt64 hn) heq
    rw [RType.byte_inj hb] at hty
    rw [not_isBulk_of_isAgg hty] at ht
    cases ht
  | @agg t len items ht hk hitems =>
    obtain ⟨n, hn, -⟩ := hk
    rw [Tree.bytes, List.append_assoc] at heq
    obtain ⟨hb, rfl, hr⟩ := header_append_inj ha (lf_not_mem_of_parseInt64 hn) heq
    obtain rfl := RType.byte_inj hb
    exact ⟨items, rfl, hitems, hr⟩
  | @attr len items next hk hitems hnext =>
    obtain ⟨n, hn, -⟩ := hk
    rw [Tree.bytes, List.append_assoc] at heq
    obtain ⟨hb, -, -⟩ := header_append_inj ha (lf_not_mem_of_parseInt64 hn) heq
    rw [RType.byte_inj hb] at hty
    cases hty

/-- `Encode` wrote a frame of `v`, if it wrote frames at all. -/
def FrameOnly (v : Value) : Prop :=
  ∀ t : Tree, t.Wf → t.value.bare = v.bare → ∀ r r',
    encode v ++ r = t.bytes ++ r' → v.writable = true ∧ r = r'

theorem writableAll_of_frames (items : List Tree)
    (ih : ∀ x ∈ items, x.value.unsized = 0 → FrameOnly x.value)
    (hu : Value.unsizedAll (Tree.valueAll items) = 0) (ts : List Tree) (hts : ∀ x ∈ ts, x.Wf)
    (hv : Value.bareAll (Tree.valueAll ts) = Value.bareAll (Tree.valueAll items)) {r r' : Bytes}
    (heq : encodeAll (Tree.valueAll items) ++ r = Tree.bytesAll ts ++ r') :
    Value.writableAll (Tree.valueAll items) = true ∧ r = r' := by
  induction items generalizing ts with
  | nil =>
    cases ts with
    | nil => exact ⟨rfl, heq⟩
    | cons t ts =>
      rw [Tree.valueAll, Tree.valueAll, Value.bareAll, Value.bareAll] at hv
      cases hv
  | cons x items ihl =>
    cases ts with
    | nil =>
      rw [Tree.valueAll, Tree.valueAll, Value.bareAll, Value.bareAll] at hv
      cases hv
    | cons t ts =>
      simp only [Tree.valueAll, Value.bareAll, List.cons.injEq] at hv
      rw [Tree.valueAll, Value.unsizedAll] at hu
      rw [Tree.valueAll, encodeAll, Tree.bytesAll, List.append_assoc, List.append_assoc] at heq
      obtain ⟨hx, hrest⟩ := ih x List.mem_cons_self (by omega) t (hts t List.mem_cons_self) hv.1 _ _ heq
      obtain ⟨hxs, hr⟩ := ihl (fun y hy => ih y (List.mem_cons_of_mem _ hy)) (by omega) ts
        (fun y hy => hts y (List.mem_cons_of_mem _ hy)) hv.2 hrest
      rw [Tree.valueAll, Value.writableAll, hx, hxs]
      exact ⟨rfl, hr⟩

/-- Where no string is written without its length, `Encode` writes a frame of
the value only if it has a wire form for it. -/
theorem Tree.Wf.frameOnly {t₀ : Tree} (h₀ : t₀.Wf) (hu : t₀.value.unsized = 0) :
    FrameOnly t₀.value := by
  induction h₀ with
  | @line ty rest ht hlf hint =>
    intro t h _ r r' heq
    have hw : (Tree.line ty rest).value.writable = true := by
      cases ty with
      | simpleString | error | integer | null | boolean | double | bigNumber => rfl
      | _ => cases ht
    exact ⟨hw, ((Tree.Wf.line ht hlf hint).value_of_writable hw h heq).2⟩
  | @null ty len n ht hn hneg =>
    intro t h _ r r' heq
    cases ty with
    | bulkString => exact ⟨rfl, ((Tree.Wf.null ht hn hneg).value_of_writable rfl h heq).2⟩
    -- written as no bytes at all
    | blobError | verbatim => exact absurd heq (h.header_ne_empty ht)
    | _ => cases ht
  | @bulk ty len p ht hn hmax =>
    intro t h _ r r' heq
    cases ty with
    | bulkString => exact ⟨rfl, ((Tree.Wf.bulk ht hn hmax).value_of_writable rfl h heq).2⟩
    -- written without a length, which `hu` rules out
    | blobError | verbatim => simp [Tree.value, Value.unsized] at hu
    | _ => cases ht
  | @agg ty len items ht hk hitems ih =>
    intro t h hv r r' heq
    cases hneg : isNeg len with
    | true =>
      rw [Tree.value_of_isNeg hk hneg] at hv heq ⊢
      by_cases hty : ty = .array ∨ ty = .push
      · have hw : (Value.mk ty .nil 0 [] [] true).writable = true := by
          rcases hty with rfl | rfl <;> rfl
        have hval := (Tree.Wf.agg ht hk hitems).value_of_writable (t := t)
        rw [Tree.value_of_isNeg hk hneg] at hval
        exact ⟨hw, (hval hw h heq).2⟩
      · -- a null map or set is written as an empty one, which is not null
        have henc : encode { type := ty, null := true } = header ty (countField ty 0) := by
          cases ty with
          | set | map => rfl
          | array | push => simp at hty
          | _ => cases ht
        rw [henc] at heq
        obtain ⟨ts, rfl, -, -⟩ := h.eq_agg ht (lf_not_mem_countField ty 0) heq
        simp only [Tree.value, Value.bare, Value.mk.injEq] at hv
        have hpos := (@announces_countField ty 0 (fun _ => rfl) (by decide)).2
        rw [hpos] at hv
        cases hv.2.2.2.2.2
    | false =>
      have hval : (Tree.agg ty len items).value = { type := ty, values := Tree.valueAll items } := by
        rw [Tree.value, hneg]
      rw [hval] at hu hv heq ⊢
      rw [encode_agg ht, List.append_assoc] at heq
      obtain ⟨ts, rfl, hts, hrest⟩ := h.eq_agg ht (lf_not_mem_countField ty _) heq
      rw [Value.unsized_of_not_isBulk (by exact not_isBulk_of_isAgg ht)] at hu
      simp only [Tree.value, Value.bare, Value.mk.injEq] at hv
      obtain ⟨hw, hr⟩ := writableAll_of_frames items ih hu ts hts hv.2.2.2.1 hrest
      refine ⟨?_, hr⟩
      rw [Value.writable, hw]
      cases ty with
      | array | push | set | map => rfl
      | _ => cases ht
  | attr hk hitems hnext _ ih => exact ih hu

theorem Value.bare_withRaw (v : Value) (raw : Bytes) : { v with raw := raw }.bare = v.bare := by
  cases v
  rfl

theorem Value.writable_withRaw (v : Value) (raw : Bytes) :
    { v with raw := raw }.writable = v.writable := by
  cases v
  rfl

theorem Tree.value_clearRaw (t : Tree) (raw : Bytes) :
    { ({ t.value with raw := raw } : Value) with raw := [] } = t.value := by
  have h := t.value_raw
  cases hv : t.value
  rw [hv] at h
  cases h
  rfl

/-- **`Encode` without the raw bytes gives a value back exactly if it has a
wire form for it.** -/
theorem reencodes_iff_writable {s r : Stream} {v : Value} (h : readValue s = .ok v r) :
    (∃ w, readValue ((encode { v with raw := [] }).map Arrival.byte) = .ok w [] ∧
      w.bare = v.bare) ↔ v.writable = true := by
  obtain ⟨t₀, h₀, rfl, -⟩ := readValue_ok h
  rw [Tree.value_clearRaw, Value.bare_withRaw, Value.writable_withRaw]
  constructor
  · rintro ⟨w, hread, hbare⟩
    obtain ⟨t, ht, rfl, hbytes⟩ := readValue_ok hread
    rw [Value.bare_withRaw] at hbare
    rw [List.append_nil] at hbytes
    have heq : encode t₀.value = t.bytes :=
      (List.map_injective_iff.2 fun _ _ hb => Arrival.byte.inj hb) hbytes
    -- the line feeds of the frame leave no room for a string without its length
    have hu : t₀.value.unsized = 0 := by
      have hle := ht.lines_le
      have hcount := h₀.count_encode
      rw [← Value.lines_bare, hbare, Value.lines_bare, ← heq] at hle
      omega
    exact (h₀.frameOnly hu t ht hbare [] [] (by rw [heq])).1
  · intro hw
    obtain ⟨t, ht, hbytes, hval⟩ := h₀.exists_frame hw
    refine ⟨{ t.value with raw := t.bytes }, ?_, ?_⟩
    · rw [← hbytes, ← List.append_nil (t.bytes.map Arrival.byte)]
      exact readValue_bytes ht []
    · rw [Value.bare_withRaw, hval]

theorem reencodes_iff_writable_ping :
    pingTree.value.writable = true ∧
      ∃ w, readValue ((encode pingTree.value).map Arrival.byte) = .ok w [] ∧
        w.bare = pingTree.value.bare :=
  ⟨by decide, (reencodes_iff_writable (readValue_bytes pingTree_wf [])).2 (by decide)⟩

/-- The error a read ends with. -/
def readError (s : Stream) : Option ReadErr :=
  match readValue s with
  | .ok _ _ => none
  | .error e _ => some e

def verbatimTree : Tree := .bulk .verbatim (lit "7") (some (lit "txt:foo"))

def nullMapTree : Tree := .agg .map (lit "-1") []

/-- A verbatim string is written without its length and is not read back at
all; a null map comes back as an empty map. -/
theorem verbatim_not_reencoded :
    verbatimTree.bytes = lit "=7\r\ntxt:foo\r\n" ∧ nullMapTree.bytes = lit "%-1\r\n" ∧
    ∃ v w, readValue (verbatimTree.bytes.map Arrival.byte ++ []) = .ok v [] ∧
      readValue (nullMapTree.bytes.map Arrival.byte ++ []) = .ok w [] ∧
      (¬ ∃ x, readValue ((encode { v with raw := [] }).map Arrival.byte) = .ok x [] ∧
        x.bare = v.bare) ∧
      ¬ ∃ x, readValue ((encode { w with raw := [] }).map Arrival.byte) = .ok x [] ∧
        x.bare = w.bare := by
  have hwf : verbatimTree.Wf := .bulk rfl (by decide +kernel) (by decide +kernel)
  have hwf' : nullMapTree.Wf := .agg rfl ⟨-1, minus_one, .inl ⟨by decide, rfl⟩⟩ (by simp)
  refine ⟨by decide, by decide, _, _, readValue_bytes hwf [], readValue_bytes hwf' [], ?_, ?_⟩
  · rintro ⟨x, hread, -⟩
    have herr : readError ((lit "=txt:foo\r\n").map Arrival.byte) = some .protocol := by
      decide +kernel
    have hok : readError ((lit "=txt:foo\r\n").map Arrival.byte) = none := by
      rw [readError]
      rw [show lit "=txt:foo\r\n" = encode verbatimTree.value by decide, ← Tree.value_clearRaw, hread]
    rw [herr] at hok
    cases hok
  · rintro ⟨x, hread, hbare⟩
    have hempty : (Tree.agg .map (lit "0") []).Wf :=
      .agg rfl ⟨0, by decide +kernel, .inr (by decide +kernel)⟩ (by simp)
    have hget := readValue_bytes hempty []
    rw [List.append_nil, show (Tree.agg .map (lit "0") []).bytes = encode nullMapTree.value by decide,
      ← Tree.value_clearRaw nullMapTree, hread] at hget
    cases hget
    exact absurd (congrArg Value.null hbare) (by decide +kernel)

end RespProxy.Resp
