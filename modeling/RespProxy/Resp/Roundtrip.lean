import RespProxy.Resp.Reencode

/-! # What is written is read back

`Made` is the values that the package's own constructors make, within the limits of the
reader: lines without line feeds, integers of 64 bits, bulk strings of at most 512 MiB
and arrays of at most a million values. `Encode` writes each of them as one frame
(`Made.exists_tree`), and the reader makes of that frame the same value, whatever
follows it; so a stream of commands is read back command by command.
-/

namespace RespProxy.Resp

variable {argv : Argv} {vs : List Value} {v : Value}

/-! ## The values -/

/-- A command within the limits of the reader. -/
structure Sized (argv : Argv) : Prop where
  count : (argv.length : Int) ≤ maxItems
  bulk : ∀ a ∈ argv, (a.bytes.length : Int) ≤ maxBulk

/-- The values of the constructors, within the limits of the reader. -/
inductive Made : Value → Prop where
  | simpleString {s : String} (h : lf ∉ lit s) : Made (simpleString s)
  | error {s : String} (h : lf ∉ lit s) : Made (error s)
  | integer {n : Int} (h : -(2 ^ 63) ≤ n) (h' : n < 2 ^ 63) : Made (integer n)
  | bulkString {a : Slice} (h : (a.bytes.length : Int) ≤ maxBulk) : Made (bulkString a)
  | nullBulk : Made nullBulk
  | nullArray : Made nullArray
  | array {vs : List Value} (h : (vs.length : Int) ≤ maxItems) (hvs : ∀ v ∈ vs, Made v) :
      Made (array vs)
  | commandArray {argv : Argv} (h : Sized argv) : Made (commandArray argv)

/-! ## Their frames -/

theorem Value.length_bareAll (vs : List Value) : (Value.bareAll vs).length = vs.length := by
  induction vs with
  | nil => rfl
  | cons v vs ih => rw [Value.bareAll, List.length_cons, ih, List.length_cons]

/-- A frame that is read as the value, up to raw bytes and nil slices. -/
def HasTree (v : Value) : Prop := ∃ t : Tree, t.Wf ∧ t.bytes = encode v ∧ t.value.bare = v.bare

/-- The frame of an argument. -/
def argTree : Slice → Tree
  | .nil => .bulk .bulkString (lit "-1") none
  | .mk bs => .bulk .bulkString (Decimal.ofNat bs.length) (some bs)

theorem argTree_wf {a : Slice} (h : (a.bytes.length : Int) ≤ maxBulk) : (argTree a).Wf := by
  cases a with
  | nil => exact .null rfl minus_one (by decide)
  | mk bs =>
    have hmax : (bs.length : Int) ≤ 512 * 1024 * 1024 := h
    exact .bulk rfl (Decimal.parseInt64_ofNat (by omega)) h

theorem bytes_argTree (a : Slice) : (argTree a).bytes = encode (bulkString a) := by
  cases a with
  | nil => rfl
  | mk bs => simp [argTree, Tree.bytes, bulkString, encode, header, RType.byte]

theorem value_argTree (a : Slice) : (argTree a).value = bulkString a := by
  cases a <;> rfl

/-- The frame of a command. -/
def commandTree (argv : Argv) : Tree :=
  .agg .array (countField .array argv.length) (argv.map argTree)

theorem Sized.count_eq (h : Sized argv) :
    Announces false (countField .array argv.length) argv.length ∧
      isNeg (countField .array argv.length) = false :=
  announces_countField nofun h.count

theorem Sized.wf (h : Sized argv) : (commandTree argv).Wf := by
  refine .agg rfl (by rw [List.length_map]; exact h.count_eq.1) ?_
  intro t ht
  obtain ⟨a, ha, rfl⟩ := List.mem_map.1 ht
  exact argTree_wf (h.bulk a ha)

theorem bytes_commandTree (argv : Argv) : (commandTree argv).bytes = encodeCommand argv := by
  have hall : Tree.bytesAll (argv.map argTree) = encodeAll (argv.map bulkString) := by
    induction argv with
    | nil => rfl
    | cons a argv ih => rw [List.map_cons, Tree.bytesAll, ih, bytes_argTree]; rfl
  rw [commandTree, Tree.bytes, hall, encodeCommand, commandArray, array, encode_agg rfl,
    List.length_map]

theorem Sized.value (h : Sized argv) : (commandTree argv).value = commandArray argv := by
  have hall : Tree.valueAll (argv.map argTree) = argv.map bulkString := by
    rw [Tree.valueAll_eq, List.map_map]
    exact List.map_congr_left fun a _ => value_argTree a
  rw [commandTree, Tree.value, hall, h.count_eq.2]
  rfl

/-- The frames of several values, one behind the other. -/
theorem exists_trees (h : ∀ v ∈ vs, HasTree v) :
    ∃ ts : List Tree, (∀ t ∈ ts, t.Wf) ∧ Tree.bytesAll ts = encodeAll vs ∧
      Value.bareAll (Tree.valueAll ts) = Value.bareAll vs := by
  induction vs with
  | nil => exact ⟨[], by simp, rfl, rfl⟩
  | cons v vs ih =>
    obtain ⟨t, hwf, hbytes, hvalue⟩ := h v List.mem_cons_self
    obtain ⟨ts, hwfs, hbytess, hvalues⟩ := ih fun w hw => h w (List.mem_cons_of_mem _ hw)
    refine ⟨t :: ts, ?_, ?_, ?_⟩
    · intro t' ht'
      rcases List.mem_cons.1 ht' with rfl | ht'
      · exact hwf
      · exact hwfs t' ht'
    · rw [Tree.bytesAll, encodeAll, hbytes, hbytess]
    · rw [Tree.valueAll, Value.bareAll, Value.bareAll, hvalue, hvalues]

theorem hasTree_array (hmax : (vs.length : Int) ≤ maxItems)
    (h : ∀ v ∈ vs, HasTree v) : HasTree (array vs) := by
  obtain ⟨ts, hwf, hbytes, hvalues⟩ := exists_trees h
  have hlen : ts.length = vs.length := by
    rw [← Tree.length_valueAll, ← Value.length_bareAll, hvalues, Value.length_bareAll]
  obtain ⟨hcount, hneg⟩ := @announces_countField .array vs.length (by simp) hmax
  refine ⟨.agg .array (countField .array vs.length) ts, .agg rfl (by rw [hlen]; exact hcount) hwf,
    ?_, ?_⟩
  · rw [Tree.bytes, array, encode_agg rfl, hbytes]
  · rw [Tree.value, hneg, Value.bare, hvalues]
    rfl

/-- **`Encode` writes a frame of the value.** -/
theorem Made.exists_tree (h : Made v) : HasTree v := by
  induction h with
  | @simpleString s h =>
    refine ⟨.line .simpleString (lit s), .line rfl h (fun hint => by cases hint), ?_, ?_⟩
    · simp [Tree.bytes, header, Resp.simpleString, encode, arg, RType.byte]
    · simp [Tree.value, lineValue, Resp.simpleString, Value.bare, Value.bareAll, clone, arg]
  | @error s h =>
    refine ⟨.line .error (lit s), .line rfl h (fun hint => by cases hint), ?_, ?_⟩
    · simp [Tree.bytes, header, Resp.error, encode, arg, RType.byte]
    · simp [Tree.value, lineValue, Resp.error, Value.bare, Value.bareAll, clone, arg]
  | @integer n h h' =>
    have hp := Decimal.parseInt64_ofInt h h'
    refine ⟨.line .integer (Decimal.ofInt n),
      .line rfl (lf_not_mem_of_parseInt64 hp) fun _ => by rw [hp]; rfl, ?_, ?_⟩
    · simp [Tree.bytes, header, Resp.integer, encode, RType.byte]
    · simp [Tree.value, lineValue, Resp.integer, hp]
  | @bulkString a h => exact ⟨argTree a, argTree_wf h, bytes_argTree a, by rw [value_argTree]⟩
  | nullBulk => exact ⟨.bulk .bulkString (lit "-1") none, .null rfl minus_one (by decide), rfl, rfl⟩
  | nullArray =>
    refine ⟨.agg .array (lit "-1") [], .agg rfl ⟨-1, minus_one, .inl ⟨by decide, rfl⟩⟩ (by simp),
      ?_, rfl⟩
    exact List.append_nil _
  | array h _ ih => exact hasTree_array h ih
  | @commandArray argv h =>
    exact ⟨commandTree argv, h.wf, bytes_commandTree argv, by rw [h.value]⟩

/-- The value that is read from the frame. -/
theorem Made.read (h : Made v) (rest : Stream) :
    ∃ w, readValue ((encode v).map Arrival.byte ++ rest) = .ok w rest ∧ w.bare = v.bare := by
  obtain ⟨t, hwf, hbytes, hvalue⟩ := h.exists_tree
  refine ⟨{ t.value with raw := t.bytes }, ?_, ?_⟩
  · rw [← hbytes]
    exact readValue_bytes hwf rest
  · rw [← hvalue]
    cases t.value
    rfl

/-! ## Streams of commands -/

theorem arrayToArgv_commandArray (argv : Argv) (raw : Bytes) :
    arrayToArgv { commandArray argv with raw } = some argv := by
  have hall : (argv.map bulkString).mapM argOf = some argv := by
    induction argv with
    | nil => rfl
    | cons a argv ih =>
      have ha : argOf (bulkString a) = some a := by cases a <;> rfl
      rw [List.map_cons, List.mapM_cons, ha, ih]
      rfl
  show (if RType.array ≠ .array ∨ false then none else (argv.map bulkString).mapM argOf) = some argv
  rw [if_neg (by simp), hall]

/-- Commands are read back one by one. -/
theorem read_commands {argvs : List Argv} (h : ∀ argv ∈ argvs, Sized argv) (rest : Stream) :
    ∃ ws, readValues argvs.length ((argvs.flatMap encodeCommand).map Arrival.byte ++ rest) =
      .ok ws rest ∧ ws.map arrayToArgv = argvs.map some := by
  induction argvs with
  | nil => exact ⟨[], rfl, rfl⟩
  | cons argv argvs ih =>
    have hsized := h argv List.mem_cons_self
    obtain ⟨ws, hread, hargvs⟩ := ih fun a ha => h a (List.mem_cons_of_mem _ ha)
    refine ⟨{ commandArray argv with raw := encodeCommand argv } :: ws, ?_, ?_⟩
    · have hfirst := readValue_bytes hsized.wf
        ((argvs.flatMap encodeCommand).map Arrival.byte ++ rest)
      rw [bytes_commandTree, hsized.value] at hfirst
      rw [List.flatMap_cons, List.map_append, List.append_assoc, List.length_cons, readValues, hfirst]
      dsimp only
      rw [hread]
    · rw [List.map_cons, arrayToArgv_commandArray, hargvs, List.map_cons]

/-- **What is written is read back.** Behind the frame of a value comes what followed it,
and a stream of commands is read as these commands. -/
theorem written_read (rest : Stream) :
    (∀ v, Made v → ∃ w, readValue ((encode v).map Arrival.byte ++ rest) = .ok w rest ∧
      w.bare = v.bare) ∧
    ∀ argvs : List Argv, (∀ argv ∈ argvs, Sized argv) →
      ∃ ws, readValues argvs.length ((argvs.flatMap encodeCommand).map Arrival.byte ++ rest) =
        .ok ws rest ∧ ws.map arrayToArgv = argvs.map some :=
  ⟨fun _ hv => hv.read rest, fun _ h => read_commands h rest⟩

theorem written_read_nested :
    (∃ w, readValue ((encode (array [integer (-(2 ^ 63)), bulkString (.mk crlf), nullArray])).map
        Arrival.byte ++ [.byte 43]) = .ok w [.byte 43] ∧
      w.bare = (array [integer (-(2 ^ 63)), bulkString (.mk crlf), nullArray]).bare) ∧
    ∃ ws, readValues 2 (([[arg "GET", .mk crlf], [arg "PING"]].flatMap encodeCommand).map
        Arrival.byte ++ [.byte 43]) = .ok ws [.byte 43] ∧
      ws.map arrayToArgv = [some [arg "GET", .mk crlf], some [arg "PING"]] := by
  have hmade : Made (array [integer (-(2 ^ 63)), bulkString (.mk crlf), nullArray]) := by
    refine .array (by decide) ?_
    intro v hv
    simp only [List.mem_cons, List.not_mem_nil, or_false] at hv
    rcases hv with rfl | rfl | rfl
    · exact .integer (by decide) (by decide)
    · exact .bulkString (by decide)
    · exact .nullArray
  refine ⟨(written_read [.byte 43]).1 _ hmade,
    (written_read [.byte 43]).2 [[arg "GET", .mk crlf], [arg "PING"]] ?_⟩
  intro argv hargv
  simp only [List.mem_cons, List.not_mem_nil, or_false] at hargv
  rcases hargv with rfl | rfl
  · exact ⟨by decide, by decide⟩
  · exact ⟨by decide, by decide⟩

/-- A command with more arguments than the reader takes. -/
theorem command_not_read : ¬ ∃ w r, readValue
    ((encode (commandArray (List.replicate 1000001 (arg "a")))).map Arrival.byte) = .ok w r := by
  rintro ⟨w, r, h⟩
  obtain ⟨t, hwf, -, hs⟩ := readValue_ok h
  obtain ⟨front, r', hsplit, hfront, rfl⟩ := List.map_eq_append_iff.1 hs
  have hbytes : front = t.bytes :=
    List.map_injective_iff.2 (fun _ _ hab => Arrival.byte.inj hab) hfront
  have hframe : encode (commandArray (List.replicate 1000001 (arg "a"))) =
      header .array (countField .array 1000001) ++
        encodeAll ((List.replicate 1000001 (arg "a")).map bulkString) := by
    rw [commandArray, array, encode_agg rfl, List.length_map, List.length_replicate]
  rw [hframe, hbytes] at hsplit
  -- the count is beyond the limit
  obtain ⟨items, rfl, -, -⟩ := hwf.eq_agg rfl (lf_not_mem_countField _ _) hsplit
  have hcount : Decimal.parseInt64 (countField .array 1000001) = some 1000001 :=
    Decimal.parseInt64_ofNat (by decide)
  cases hwf with
  | agg _ hk =>
    obtain ⟨n, hn, hlimit⟩ := hk
    rw [hcount] at hn
    cases hn
    rcases hlimit with ⟨hneg, -⟩ | ⟨-, hk, hmax⟩
    · exact absurd hneg (by decide)
    · rw [hk] at hmax
      exact absurd hmax (by decide)

end RespProxy.Resp
