import RespProxy.Resp.Tree

/-! # Client frames and RESP2 requests

On database 0 the proxy forwards the raw bytes of a client command. A backend
that speaks RESP2 expects a request there: an array header and one bulk string
for each argument. The reader takes more than that (attributes in front of a
value, simple strings and null bulks as arguments, signed and zero-padded
lengths), and the raw bytes keep all of it.

`raw_eq_request_iff_plain` says which frames are forwarded as the request for
the arguments the proxy works with: the plain ones.
-/

namespace RespProxy.Resp

variable {argv : Argv} {a a' r r' : Bytes} {items : List Tree} {t : Tree}

/-- The RESP2 request with the arguments `args`. -/
def request (args : List Bytes) : Bytes :=
  header .array (Decimal.ofNat args.length) ++ (args.map encodeArg).flatten

/-- An argument as RESP2 has it: a bulk string that is not null, its length in
plain decimal, nothing in front of it. -/
def Tree.PlainArg : Tree → Prop
  | .bulk .bulkString len (some p) => len = Decimal.ofNat p.length
  | _ => False

/-- A frame as RESP2 has it: an array without attributes in front, its count in
plain decimal, of plain arguments. -/
def Tree.Plain : Tree → Prop
  | .agg .array len items => len = Decimal.ofNat items.length ∧ ∀ x ∈ items, x.PlainArg
  | _ => False

/-! ## Unique readability -/

/-- A line ends at its first CRLF. -/
theorem line_append_inj (ha : lf ∉ a) (ha' : lf ∉ a')
    (h : a ++ crlf ++ r = a' ++ crlf ++ r') : a = a' ∧ r = r' := by
  have hne : cr ≠ lf := by decide
  induction a generalizing a' with
  | nil =>
    rcases a' with _ | ⟨x, _ | ⟨y, l⟩⟩
    · exact ⟨rfl, by simpa [crlf] using h⟩
    · simp only [crlf, List.nil_append, List.cons_append, List.cons.injEq] at h
      exact absurd h.2.1.symm hne
    · simp only [crlf, List.nil_append, List.cons_append, List.cons.injEq] at h
      rw [← h.2.1] at ha'
      simp at ha'
  | cons c a ih =>
    cases a' with
    | nil =>
      -- the other line is empty: its CR is `c`, and its LF is in `a ++ crlf`
      rcases a with _ | ⟨y, l⟩
      · simp only [crlf, List.nil_append, List.cons_append, List.cons.injEq] at h
        exact absurd h.2.1 hne
      · simp only [crlf, List.nil_append, List.cons_append, List.cons.injEq] at h
        rw [h.2.1] at ha
        simp at ha
    | cons x l =>
      simp only [List.cons_append, List.cons.injEq] at h
      simp only [List.mem_cons, not_or] at ha ha'
      obtain ⟨rfl, hr⟩ := ih ha.2 ha'.2 h.2
      exact ⟨by rw [h.1], hr⟩

theorem header_append_inj {t t' : RType} (ha : lf ∉ a) (ha' : lf ∉ a')
    (h : header t a ++ r = header t' a' ++ r') : t.byte = t'.byte ∧ a = a' ∧ r = r' := by
  simp only [header, List.cons_append, List.cons.injEq] at h
  exact ⟨h.1, line_append_inj ha ha' h.2⟩

theorem lf_not_mem_ofNat (n : Nat) : lf ∉ Decimal.ofNat n := Decimal.not_mem_ofNat (by decide) n

theorem encodeArg_eq (b : Bytes) :
    encodeArg b = header .bulkString (Decimal.ofNat b.length) ++ (b ++ crlf) := by
  simp [encodeArg, header, RType.byte]

theorem encodeArg_append_inj {b b' r r' : Bytes} (h : encodeArg b ++ r = encodeArg b' ++ r') :
    b = b' ∧ r = r' := by
  simp only [encodeArg_eq, List.append_assoc] at h
  obtain ⟨-, hlen, hp⟩ := header_append_inj (lf_not_mem_ofNat _) (lf_not_mem_ofNat _) h
  obtain ⟨rfl, hr⟩ := List.append_inj hp (Decimal.ofNat_injective hlen)
  exact ⟨rfl, List.append_cancel_left hr⟩

/-- A request is read in one way only, whatever follows it. -/
theorem request_append_inj {args args' : List Bytes} {r r' : Bytes}
    (h : request args ++ r = request args' ++ r') : args = args' ∧ r = r' := by
  have items : ∀ (args args' : List Bytes), args.length = args'.length →
      (args.map encodeArg).flatten ++ r = (args'.map encodeArg).flatten ++ r' →
        args = args' ∧ r = r' := by
    intro args
    induction args with
    | nil =>
      intro args' hlen h
      obtain rfl := List.eq_nil_of_length_eq_zero hlen.symm
      exact ⟨rfl, by simpa using h⟩
    | cons b args ih =>
      intro args' hlen h
      match args', hlen, h with
      | b' :: args', hlen, h =>
        simp only [List.map_cons, List.flatten_cons, List.append_assoc] at h
        obtain ⟨rfl, hrest⟩ := encodeArg_append_inj h
        obtain ⟨rfl, hr⟩ := ih args' (by simpa using hlen) hrest
        exact ⟨rfl, hr⟩
  rw [request, request, List.append_assoc, List.append_assoc] at h
  obtain ⟨-, hlen, h⟩ := header_append_inj (lf_not_mem_ofNat _) (lf_not_mem_ofNat _) h
  exact items args args' (Decimal.ofNat_injective hlen) h

/-! ## Plain frames -/

/-- The argument the proxy takes from an element. -/
def Tree.arg (t : Tree) : Option Slice := argOf t.value

/-- A plain element is the bulk string of its argument. -/
theorem Tree.PlainArg.bytes_eq {a : Slice} (h : t.PlainArg) (ha : t.arg = some a) :
    t.bytes = encodeArg a.bytes := by
  match t, h with
  | .bulk .bulkString len (some p), h =>
    obtain rfl : Slice.mk p = a := by simpa [Tree.arg, argOf, Tree.value] using ha
    rw [Tree.bytes, encodeArg_eq, Slice.bytes_mk, h]

/-- An element that reads like the bulk string of its argument is plain. -/
theorem Tree.PlainArg.of_bytes (hwf : t.Wf) {a : Slice} {r r' : Bytes}
    (ha : t.arg = some a) (h : t.bytes ++ r = encodeArg a.bytes ++ r') :
    t.PlainArg ∧ r = r' := by
  rw [encodeArg_eq, List.append_assoc] at h
  have hb : ∀ t : RType, t.byte = RType.bulkString.byte → t = .bulkString := by
    intro t
    cases t <;> decide
  cases hwf with
  | @line t rest ht hlf _ =>
    obtain ⟨hty, -, -⟩ := header_append_inj hlf (lf_not_mem_ofNat _) h
    rw [hb t hty] at ht
    cases ht
  | @null t len n _ hn hneg =>
    -- a null bulk is the argument nil, whose length would be zero
    obtain ⟨hty, hlen, -⟩ := header_append_inj (lf_not_mem_of_parseInt64 hn) (lf_not_mem_ofNat _) h
    obtain rfl := hb t hty
    obtain rfl : Slice.nil = a := by simpa [Tree.arg, argOf, Tree.value] using ha
    rw [hlen, Decimal.parseInt64_ofNat (by decide)] at hn
    cases hn
    exact absurd hneg (by decide)
  | @bulk t len p _ hn _ =>
    rw [Tree.bytes, List.append_assoc] at h
    obtain ⟨hty, hlen, hp⟩ := header_append_inj (lf_not_mem_of_parseInt64 hn) (lf_not_mem_ofNat _) h
    obtain rfl := hb t hty
    obtain rfl : Slice.mk p = a := by simpa [Tree.arg, argOf, Tree.value] using ha
    exact ⟨hlen, List.append_cancel_left hp⟩
  | @agg t len items ht hk _ =>
    obtain ⟨n, hn, -⟩ := hk
    rw [Tree.bytes, List.append_assoc] at h
    obtain ⟨hty, -, -⟩ := header_append_inj (lf_not_mem_of_parseInt64 hn) (lf_not_mem_ofNat _) h
    rw [hb t hty] at ht
    cases ht
  | @attr len items next hk _ _ =>
    obtain ⟨n, hn, -⟩ := hk
    rw [Tree.bytes, List.append_assoc] at h
    obtain ⟨hty, -, -⟩ := header_append_inj (lf_not_mem_of_parseInt64 hn) (lf_not_mem_ofNat _) h
    cases hb _ hty

/-- The elements of a frame read like the bulk strings of its arguments exactly
when they are plain. -/
theorem bytesAll_eq_iff (hwf : ∀ x ∈ items, x.Wf) (h : items.mapM Tree.arg = some argv) :
    Tree.bytesAll items = ((argv.map Slice.bytes).map encodeArg).flatten ↔
      ∀ x ∈ items, x.PlainArg := by
  induction items generalizing argv with
  | nil =>
    obtain rfl : [] = argv := by simpa using h
    simp [Tree.bytesAll]
  | cons x items ih =>
    rw [List.mapM_cons] at h
    obtain ⟨a, ha, h⟩ := Option.bind_eq_some_iff.1 h
    obtain ⟨argv', hargv, h⟩ := Option.bind_eq_some_iff.1 h
    obtain rfl : a :: argv' = argv := by simpa using h
    have ih := ih (fun y hy => hwf y (List.mem_cons_of_mem x hy)) hargv
    simp only [Tree.bytesAll, List.map_cons, List.flatten_cons, List.forall_mem_cons]
    constructor
    · intro h
      obtain ⟨hx, h⟩ := Tree.PlainArg.of_bytes (hwf x List.mem_cons_self) ha h
      exact ⟨hx, ih.1 h⟩
    · rintro ⟨hx, hitems⟩
      rw [hx.bytes_eq ha, ih.2 hitems]

theorem Tree.valueAll_mapM (items : List Tree) :
    (Tree.valueAll items).mapM argOf = items.mapM Tree.arg := by
  induction items with
  | nil => rfl
  | cons x items ih => simp only [Tree.valueAll, List.mapM_cons, ih, Tree.arg]

theorem length_of_mapM (h : items.mapM Tree.arg = some argv) :
    argv.length = items.length := by
  induction items generalizing argv with
  | nil =>
    obtain rfl : [] = argv := by simpa using h
    rfl
  | cons x items ih =>
    rw [List.mapM_cons] at h
    obtain ⟨a, ha, h⟩ := Option.bind_eq_some_iff.1 h
    obtain ⟨argv', hargv, h⟩ := Option.bind_eq_some_iff.1 h
    obtain rfl : a :: argv' = argv := by simpa using h
    simp [ih hargv]

theorem type_of_arrayToArgv {v : Value} (h : arrayToArgv v = some argv) :
    v.type = .array ∧ v.null = false ∧ v.values.mapM argOf = some argv := by
  unfold arrayToArgv at h
  split at h
  · cases h
  · next hv =>
    simp only [not_or, not_not, Bool.not_eq_true] at hv
    exact ⟨hv.1, hv.2, h⟩

@[simp] theorem lineValue_type (t : RType) (rest : Bytes) : (lineValue t rest).type = t := by
  cases t <;> rfl

/-- The bytes of a frame are the request for its arguments exactly when the
frame is plain. -/
theorem Tree.bytes_eq_request_iff (hwf : t.Wf) (h : arrayToArgv t.value = some argv) :
    t.bytes = request (argv.map Slice.bytes) ↔ t.Plain := by
  have hstar : ∀ t : RType, t.byte = RType.array.byte → t = .array := by
    intro t
    cases t <;> decide
  obtain ⟨hty, -, hargs⟩ := type_of_arrayToArgv h
  cases hwf with
  | @agg t len items ht hk hitems =>
    obtain rfl : t = .array := hty
    rw [Tree.value, Tree.valueAll_mapM] at hargs
    have hlen := length_of_mapM hargs
    obtain ⟨n, hn, -⟩ := hk
    rw [Tree.bytes, request, Tree.Plain, ← bytesAll_eq_iff hitems hargs, List.length_map, hlen]
    constructor
    · intro h
      exact (header_append_inj (lf_not_mem_of_parseInt64 hn) (lf_not_mem_ofNat _) h).2
    · rintro ⟨rfl, hflat⟩
      rw [hflat]
  | @attr len items next hk hitems hnext =>
    -- an attribute is forwarded in front of the array
    refine ⟨fun h => ?_, fun h => h.elim⟩
    obtain ⟨n, hn, -⟩ := hk
    rw [Tree.bytes, request] at h
    cases hstar _ (header_append_inj (lf_not_mem_of_parseInt64 hn) (lf_not_mem_ofNat _) h).1
  | @line t rest ht hlf hint =>
    rw [Tree.value, lineValue_type] at hty
    subst hty
    cases ht
  | null ht _ _ | bulk ht _ _ =>
    rw [Tree.value] at hty
    subst hty
    cases ht

/-- **The raw bytes of a client command are the RESP2 request for its arguments
exactly when the frame is plain.** Every frame that is accepted is the frame of
a well-formed tree `t` at the head of the stream; if `t` is plain, the raw bytes
cannot be read as any other request, nor as one followed by more bytes. -/
theorem raw_eq_request_iff_plain {s s' : Stream} {v : Value} {argv : Argv}
    (hv : readValue s = .ok v s') (hargv : arrayToArgv v = some argv) :
    (∃ t : Tree, t.Wf ∧ s = t.bytes.map Arrival.byte ++ s') ∧
      ∀ t : Tree, t.Wf → s = t.bytes.map Arrival.byte ++ s' →
        (v.raw = request (argv.map Slice.bytes) ↔ t.Plain) ∧
        (t.Plain → ∀ args rest, v.raw = request args ++ rest →
          args = argv.map Slice.bytes ∧ rest = []) := by
  refine ⟨?_, ?_⟩
  · obtain ⟨t, hwf, -, hs⟩ := readValue_ok hv
    exact ⟨t, hwf, hs⟩
  · rintro t hwf rfl
    rw [readValue_bytes hwf s'] at hv
    obtain ⟨rfl, -⟩ := EStateM.Result.ok.inj hv
    have hiff := Tree.bytes_eq_request_iff hwf hargv
    refine ⟨hiff, ?_⟩
    intro hplain args rest h
    have h' : request args ++ rest = request (argv.map Slice.bytes) ++ [] := by
      rw [← h, List.append_nil]
      exact hiff.2 hplain
    exact request_append_inj h'

/-- The frame of `PING` as RESP2 clients send it. -/
def pingTree : Tree := .agg .array (lit "1") [.bulk .bulkString (lit "4") (some (lit "PING"))]

theorem pingTree_wf : pingTree.Wf := by
  refine .agg rfl ⟨1, by decide +kernel, .inr (by decide +kernel)⟩ ?_
  intro x hx
  obtain rfl := List.mem_singleton.1 hx
  exact .bulk rfl (by decide +kernel) (by decide +kernel)

theorem raw_eq_request_iff_plain_ping :
    (pingTree.bytes = request [lit "PING"] ↔ pingTree.Plain) ∧
      (pingTree.Plain → ∀ args rest, pingTree.bytes = request args ++ rest →
        args = [lit "PING"] ∧ rest = []) :=
  (raw_eq_request_iff_plain (readValue_bytes pingTree_wf []) rfl).2 pingTree pingTree_wf rfl

/-- `PING` behind an attribute, one line of which is a command of its own. -/
def smuggledTree : Tree :=
  .attr (lit "1")
    [.line .simpleString (lit "x"), .bulk .bulkString (lit "8") (some (lit "FLUSHALL"))]
    pingTree

theorem smuggledTree_wf : smuggledTree.Wf := by
  refine .attr ⟨1, by decide +kernel, .inr (by decide +kernel)⟩ ?_ pingTree_wf
  intro x hx
  rcases List.mem_cons.1 hx with rfl | hx
  · exact .line rfl (by decide +kernel) (by decide +kernel)
  · obtain rfl := List.mem_singleton.1 hx
    exact .bulk rfl (by decide +kernel) (by decide +kernel)

/-- The reader skips the attribute and the raw bytes keep it: the proxy works
with `PING` and forwards a line `FLUSHALL` in front of it. -/
theorem raw_ne_request_of_attribute :
    smuggledTree.bytes = lit "|1\r\n+x\r\n$8\r\nFLUSHALL\r\n*1\r\n$4\r\nPING\r\n" ∧
      ∃ v, readValue (smuggledTree.bytes.map Arrival.byte ++ []) = .ok v [] ∧
        arrayToArgv v = some [arg "PING"] ∧ v.raw = smuggledTree.bytes ∧
        v.raw ≠ request ([arg "PING"].map Slice.bytes) :=
  ⟨by decide, _, readValue_bytes smuggledTree_wf [], rfl, rfl, by decide⟩

end RespProxy.Resp
