import Mathlib.Data.List.TakeDrop
import RespProxy.Command.Translate

/-! # What becomes of each argument

`rewriteArgv` copies the arguments and puts the prefix on those that `keyIndexes` finds,
with two exceptions: `SCAN` without `MATCH` gets one, and `COPY` is put together anew
(`rewriteArgv_cases`). So no argument gets a prefix twice, and the name never does.

A copy of no bytes is the nil slice, which goes to the backend as the null bulk. That is
what an empty argument becomes when it is copied and gets no prefix.
-/

namespace RespProxy.Command

open Resp

variable {argv out : Argv} {db : Nat} {idx : List Nat}

/-! ## Positions in a copy -/

@[simp] theorem fold_cloneBytes (a : Slice) (w : String) : (cloneBytes a).fold w = a.fold w := by
  rw [Slice.fold, Slice.fold, bytes_cloneBytes]

theorem findFold_cloneArgv (argv : Argv) (start : Nat) (w : String) :
    findFold (cloneArgv argv) start w = findFold argv start w := by
  rw [findFold, findFold, cloneArgv, ← List.map_drop, List.findIdx?_map]
  congr 2
  funext a
  exact fold_cloneBytes a w

theorem atoi_cloneArgv (argv : Argv) (i : Nat) :
    (cloneArgv argv)[i]?.bind Slice.atoi = argv[i]?.bind Slice.atoi := by
  rw [cloneArgv, List.getElem?_map]
  cases argv[i]? with
  | none => rfl
  | some a => exact atoi_cloneBytes a

theorem bytes_getD_cloneArgv (argv : Argv) (i : Nat) :
    ((cloneArgv argv).getD i .nil).bytes = (argv.getD i .nil).bytes := by
  rw [cloneArgv, List.getD_eq_getElem?_getD, List.getD_eq_getElem?_getD, List.getElem?_map]
  cases argv[i]? with
  | none => rfl
  | some a => exact bytes_cloneBytes a

theorem fold_getD_cloneArgv (argv : Argv) (i : Nat) (w : String) :
    ((cloneArgv argv).getD i .nil).fold w = (argv.getD i .nil).fold w := by
  rw [Slice.fold, Slice.fold, bytes_getD_cloneArgv]

theorem numkeysIdx_cloneArgv (argv : Argv) (i : Nat) :
    numkeysIdx (cloneArgv argv) i = numkeysIdx argv i := by
  simp only [numkeysIdx, atoi_cloneArgv, length_cloneArgv]

theorem sortOptIdx_cloneArgv (i : Nat) (opts : Argv) :
    sortOptIdx i (cloneArgv opts) = sortOptIdx i opts := by
  unfold cloneArgv
  induction i, opts using sortOptIdx.induct with
  | case1 i k v rest hby ih => simp [sortOptIdx, hby, ih]
  | case2 i k v rest hby hget ih => simp [sortOptIdx, hby, hget, ih]
  | case3 i k v rest hby hget hstore ih => simp [sortOptIdx, hby, hget, hstore, ih]
  | case4 i k v rest hby hget hstore ih =>
    rw [List.map_cons] at ih
    simp [sortOptIdx, hby, hget, hstore, ih]
  | case5 opts i hopts =>
    rcases opts with _ | ⟨k, _ | ⟨v, rest⟩⟩
    · rfl
    · rfl
    · exact (hopts k v rest rfl).elim

/-- The keys of a copy are those of the command. -/
theorem keyIndexes_cloneArgv (argv : Argv) : keyIndexes (cloneArgv argv) = keyIndexes argv := by
  have hnil : cloneArgv argv = [] ↔ argv = [] := List.map_eq_nil_iff
  have hscan : scanMatchIdx (cloneArgv argv) = scanMatchIdx argv := by
    have hdrop : (cloneArgv argv).dropLast = cloneArgv argv.dropLast := List.map_dropLast.symm
    rw [scanMatchIdx, hdrop, findFold_cloneArgv]
    rfl
  have hsort : sortKeyIdx (cloneArgv argv) = sortKeyIdx argv := by
    have hdrop : (cloneArgv argv).drop 2 = cloneArgv (argv.drop 2) := List.map_drop.symm
    rw [sortKeyIdx, hdrop, sortOptIdx_cloneArgv, length_cloneArgv]
    rfl
  have hstore : storeOptionIdx (cloneArgv argv) = storeOptionIdx argv := by
    simp only [storeOptionIdx, length_cloneArgv, fold_getD_cloneArgv]
  have hspec : ∀ sp, indexesBySpec (cloneArgv argv) sp = indexesBySpec argv sp :=
    indexesBySpec_congr (length_cloneArgv argv)
  simp only [keyIndexes, hnil, nameOf_cloneArgv, evalKeyIdx, xreadKeyIdx, migrateKeyIdx,
    destNumkeysIdx, atoi_cloneArgv, length_cloneArgv, findFold_cloneArgv, bytes_getD_cloneArgv,
    fold_getD_cloneArgv, numkeysIdx_cloneArgv, hscan, hsort, hstore, hspec]

/-! ## Argument by argument -/

/-- Each argument is copied, and gets the prefix at the given positions. -/
def PrefixedAt (db : Nat) (idx : List Nat) (argv out : Argv) : Prop :=
  ∀ i, out[i]? = argv[i]?.map fun a =>
    if i ∈ idx then prefixKey db (cloneBytes a) else cloneBytes a

theorem getElem?_prefixAt (hidx : Ascends 1 argv.length idx) (l : Argv) (i : Nat) :
    (prefixAt db idx l)[i]? = l[i]?.map fun a => if i ∈ idx then prefixKey db a else a := by
  obtain ⟨hsorted, hbounds⟩ := hidx
  unfold prefixAt
  induction idx generalizing l with
  | nil => simp
  | cons j idx ih =>
    obtain ⟨hlt, hsorted⟩ := List.pairwise_cons.1 hsorted
    have hj : 0 < j := (hbounds j List.mem_cons_self).1
    rw [List.foldl_cons, if_pos hj, ih _ hsorted fun k hk => hbounds k (List.mem_cons_of_mem j hk),
      List.getElem?_modify]
    cases l[i]? with
    | none => rfl
    | some a =>
      by_cases hij : j = i
      · -- later positions are other ones
        have hnot : i ∉ idx := fun hi => absurd (hlt i hi) (by omega)
        simp [hij, hnot]
      · simp [hij, Ne.symm hij]

theorem prefixedAt_prefixAt (hidx : Ascends 1 argv.length idx) :
    PrefixedAt db idx argv (prefixAt db idx (cloneArgv argv)) := by
  intro i
  rw [getElem?_prefixAt hidx, cloneArgv, List.getElem?_map, Option.map_map]
  rfl

theorem prefixedAt_clone : PrefixedAt db [] argv (cloneArgv argv) := by
  intro i
  rw [cloneArgv, List.getElem?_map]
  simp

theorem prefixedAt_first : PrefixedAt db (if 2 ≤ argv.length then [1] else []) argv
    (prefixFirst argv db) := by
  rcases argv with _ | ⟨cmd, _ | ⟨key, rest⟩⟩
  · exact prefixedAt_clone
  · exact prefixedAt_clone
  · rintro (_ | _ | i)
    · rfl
    · rfl
    · simp [prefixFirst, cloneArgv]

theorem scanMatch_eq (db : Nat) (l : Argv) :
    scanMatch db l = (l.dropLast.findIdx? fun a => a.fold "MATCH").map fun j =>
      l.modify (j + 1) (prefixKey db) := by
  induction l with
  | nil => rfl
  | cons a l ih =>
    cases l with
    | nil => rfl
    | cons p rest =>
      rw [List.dropLast_cons_cons, List.findIdx?_cons, scanMatch]
      split
      · rfl
      · rw [ih, Option.map_map, Option.map_map]
        rfl

/-- `rewriteSCAN` puts the prefix behind the `MATCH` that `scanMatchIdx` finds, or adds one. -/
theorem rewriteSCAN_cases (hdb : db ≠ 0) :
    PrefixedAt db (scanMatchIdx argv) argv (rewriteSCAN argv db) ∧ scanMatchIdx argv ≠ [] ∨
    scanMatchIdx argv = [] ∧
      rewriteSCAN argv db = cloneArgv argv ++ [arg "MATCH", .mk (dbPrefix db ++ lit "*")] := by
  have hfind : (((cloneArgv argv).drop 2).dropLast.findIdx? fun a => a.fold "MATCH").map (2 + ·) =
      findFold argv.dropLast 2 "MATCH" := by
    rw [← findFold_cloneArgv, findFold, cloneArgv, cloneArgv, List.map_dropLast,
      List.dropLast_drop_eq_drop_dropLast]
  rw [rewriteSCAN, if_neg hdb, scanMatch_eq, scanMatchIdx, ← hfind]
  cases ((cloneArgv argv).drop 2).dropLast.findIdx? fun a => a.fold "MATCH" with
  | none => exact .inr ⟨rfl, rfl⟩
  | some j =>
    refine .inl ⟨fun i => ?_, by simp⟩
    have hmodify : (cloneArgv argv).take 2 ++ ((cloneArgv argv).drop 2).modify (j + 1) (prefixKey db) =
        (cloneArgv argv).modify (2 + j + 1) (prefixKey db) := by
      generalize cloneArgv argv = l
      rw [show 2 + j + 1 = j + 1 + 2 by omega]
      rcases l with _ | ⟨a, _ | ⟨b, l⟩⟩ <;> simp
    dsimp only [Option.map_some]
    rw [hmodify, List.getElem?_modify, cloneArgv, List.getElem?_map]
    cases argv[i]? with
    | none => rfl
    | some a =>
      by_cases hij : 2 + j + 1 = i
      · simp [hij]
      · simp [hij, Ne.symm hij]

/-- An option with its value, of which the value may get the prefix. -/
theorem getElem?_sortOption {i : Nat} {k v v' : Slice} {rest rest' : Argv} {front : List Nat}
    (hfront : ∀ j ∈ front, j = i + 1) (hv : v' = if i + 1 ∈ front then prefixKey db v else v)
    (hidx : ∀ j ∈ idx, i + 2 ≤ j)
    (hrest : ∀ n, rest'[n]? = rest[n]?.map fun a => if i + 2 + n ∈ idx then prefixKey db a else a)
    (n : Nat) :
    (k :: v' :: rest')[n]? = (k :: v :: rest)[n]?.map fun a =>
      if i + n ∈ front ++ idx then prefixKey db a else a := by
  have hnot : ∀ {j}, j < i + 2 → j ∉ idx := fun hj hmem => absurd (hidx _ hmem) (by omega)
  have hnot' : ∀ {j}, j ≠ i + 1 → j ∉ front := fun hj hmem => hj (hfront _ hmem)
  rcases n with _ | _ | n
  · simp [hnot, hnot']
  · simp [hnot, hv]
  · have hne : i + (n + 1 + 1) = i + 2 + n := by omega
    have hfree : i + 2 + n ∉ front := hnot' (by omega)
    simp only [List.getElem?_cons_succ, hrest n, hne, List.mem_append, hfree, false_or]

/-- `rewriteSORT` treats the options as `sortKeyIdx` does. -/
theorem getElem?_sortOptions (i : Nat) (opts : Argv) (n : Nat) :
    (sortOptions db opts)[n]? = opts[n]?.map fun a =>
      if i + n ∈ sortOptIdx i opts then prefixKey db a else a := by
  have hlater : ∀ (i : Nat) (opts : Argv), ∀ j ∈ sortOptIdx i opts, i ≤ j :=
    fun i opts j hj => Nat.le_of_succ_le ((sortOptIdx_ascends i opts).bounds j hj).1
  induction i, opts using sortOptIdx.induct generalizing n with
  | case1 i k v rest hby ih =>
    rw [sortOptions, if_pos hby, sortOptIdx, if_pos hby]
    refine getElem?_sortOption ?_ ?_ (hlater _ rest) ih n
    · split <;> simp
    · split <;> simp
  | case2 i k v rest hby hget ih =>
    rw [sortOptions, if_neg hby, if_pos hget, sortOptIdx, if_neg hby, if_pos hget]
    refine getElem?_sortOption ?_ ?_ (hlater _ rest) ih n
    · split <;> simp
    · split <;> simp
  | case3 i k v rest hby hget hstore ih =>
    rw [sortOptions, if_neg hby, if_neg hget, if_pos hstore, sortOptIdx, if_neg hby, if_neg hget,
      if_pos hstore]
    exact @getElem?_sortOption db _ i k v _ rest _ [i + 1] (by simp) (by simp) (hlater _ rest) ih n
  | case4 i k v rest hby hget hstore ih =>
    rw [sortOptions, if_neg hby, if_neg hget, if_neg hstore, sortOptIdx, if_neg hby, if_neg hget,
      if_neg hstore]
    cases n with
    | zero =>
      have hnot : i ∉ sortOptIdx (i + 1) (v :: rest) := fun h => absurd (hlater _ _ _ h) (by omega)
      simp [hnot]
    | succ n =>
      rw [List.getElem?_cons_succ, List.getElem?_cons_succ, ih, show i + 1 + n = i + (n + 1) by omega]
  | case5 opts i hopts =>
    rcases opts with _ | ⟨k, _ | ⟨v, rest⟩⟩
    · rfl
    · simp [sortOptions, sortOptIdx]
    · exact (hopts k v rest rfl).elim

theorem prefixedAt_sort : PrefixedAt db (sortKeyIdx argv) argv (rewriteSORT argv db) := by
  rcases argv with _ | ⟨cmd, _ | ⟨key, opts⟩⟩
  · exact prefixedAt_clone
  · exact prefixedAt_clone
  · have hidx : sortKeyIdx (cmd :: key :: opts) = 1 :: sortOptIdx 2 opts := rfl
    have hlater : ∀ j < 2, j ∉ sortOptIdx 2 opts := by
      intro j hj hmem
      have := ((sortOptIdx_ascends 2 opts).bounds j hmem).1
      omega
    rw [hidx]
    rintro (_ | _ | i)
    · simp [rewriteSORT, cloneArgv, hlater]
    · simp [rewriteSORT, cloneArgv]
    · have hopt := @getElem?_sortOptions db 2 (cloneArgv opts) i
      rw [sortOptIdx_cloneArgv, cloneArgv, List.getElem?_map, Option.map_map] at hopt
      have hne : i + 1 + 1 ≠ 1 := by omega
      have hcomm : 2 + i = i + 1 + 1 := by omega
      rw [hcomm] at hopt
      simpa [rewriteSORT, cloneArgv, hne, Function.comp_def] using hopt

/-! ## Translation -/

/-- The keys of `COPY` and `MOVE` are in the table. -/
theorem keyIndexes_copy (h : nameOf argv = "COPY") :
    keyIndexes argv = some (indexesBySpec argv (spec 1 2 1)) := by
  have hargv : argv ≠ [] := by
    rintro rfl
    exact absurd h (by decide)
  have hl : (lookup "COPY").map Meta.keys = some (spec 1 2 1) := by decide
  obtain ⟨m, hm, hkeys⟩ := Option.map_eq_some_iff.1 hl
  rw [keyIndexes_of_table hargv (by rw [h]; decide), h, hm, ← hkeys]

theorem keyIndexes_move (h : nameOf argv = "MOVE") :
    keyIndexes argv = some (if 2 ≤ argv.length then [1] else []) := by
  have hargv : argv ≠ [] := by
    rintro rfl
    exact absurd h (by decide)
  have hl : (lookup "MOVE").map Meta.keys = some (spec 1 1 1) := by decide
  obtain ⟨m, hm, hkeys⟩ := Option.map_eq_some_iff.1 hl
  rw [keyIndexes_of_table hargv (by rw [h]; decide), h, hm]
  dsimp only
  rw [hkeys]
  rcases argv with _ | ⟨cmd, _ | ⟨key, rest⟩⟩
  · rfl
  · rfl
  · simp [indexesBySpec, spec]

/-- **What translation does to each argument.** `COPY` without both keys is only copied. -/
theorem rewriteArgv_cases (hdb : db ≠ 0) (hneeds : needsDBRewrite argv = true)
    (hidx : keyIndexes argv = some idx) (h : rewriteArgv argv db = some out) :
    PrefixedAt db idx argv out ∧ nameOf argv ≠ "COPY" ∧ (nameOf argv = "SCAN" → idx ≠ []) ∨
    (nameOf argv = "SCAN" ∧ idx = [] ∧
      out = cloneArgv argv ++ [arg "MATCH", .mk (dbPrefix db ++ lit "*")]) ∨
    nameOf argv = "COPY" ∧ out = rewriteCOPY argv db := by
  have hargv : argv ≠ [] := by
    rintro rfl
    cases hneeds
  by_cases hcopy : nameOf argv = "COPY"
  · simp only [rewriteArgv, hdb, hneeds, hcopy, not_true_eq_false, or_self, if_false, if_true] at h
    exact .inr (.inr ⟨hcopy, (Option.some.inj h).symm⟩)
  by_cases hscan : nameOf argv = "SCAN"
  · have hkeys : idx = scanMatchIdx argv := by simpa [keyIndexes, hargv, hscan, eq_comm] using hidx
    have hout : out = rewriteSCAN argv db := by simpa [rewriteArgv, hdb, hneeds, hscan, eq_comm] using h
    rw [hkeys, hout]
    rcases rewriteSCAN_cases hdb with ⟨hplaced, hne⟩ | ⟨hnil, hadd⟩
    · exact .inl ⟨hplaced, hcopy, fun _ => hne⟩
    · exact .inr (.inl ⟨hscan, hnil, hadd⟩)
  refine .inl ⟨?_, hcopy, fun hname => absurd hname hscan⟩
  by_cases hkeysName : nameOf argv = "KEYS"
  · have hkeys : idx = if 2 ≤ argv.length then [1] else [] := by
      simpa [keyIndexes, hargv, hkeysName, eq_comm] using hidx
    have hout : out = prefixFirst argv db := by
      simpa [rewriteArgv, hdb, hneeds, hkeysName, eq_comm] using h
    rw [hkeys, hout]
    exact prefixedAt_first
  by_cases hsort : nameOf argv = "SORT"
  · have hkeys : idx = sortKeyIdx argv := by simpa [keyIndexes, hargv, hsort, eq_comm] using hidx
    have hout : out = rewriteSORT argv db := by
      simpa [rewriteArgv, hdb, hneeds, hsort, eq_comm] using h
    rw [hkeys, hout]
    exact prefixedAt_sort
  by_cases hmove : nameOf argv = "MOVE"
  · have hout : out = prefixFirst argv db := by
      simpa [rewriteArgv, hdb, hneeds, hmove, eq_comm] using h
    rw [keyIndexes_move hmove] at hidx
    cases hidx
    rw [hout]
    exact prefixedAt_first
  · have hown : nameOf argv ∉ ["COPY", "SCAN", "KEYS", "SORT", "MOVE"] := by
      simp [hcopy, hscan, hkeysName, hsort, hmove]
    rw [rewriteArgv_of_table hdb hneeds hown, keyIndexes_cloneArgv, hidx] at h
    cases h
    exact prefixedAt_prefixAt (keyIndexes_ascends hidx)

/-! ## No position out of range, no prefix twice -/

/-- What becomes of argument `i` of a command: a key gets at most one prefix, and another
argument none. `COPY` gets its options anew. -/
def PrefixedOnce (idx : List Nat) (argv out : Argv) : Prop :=
  ∀ i a b, argv[i]? = some a → out[i]? = some b →
    (i ∈ idx ∧ ∃ d, b.bytes = dbPrefix d ++ a.bytes) ∨
    (i ∉ idx ∧ (b.bytes = a.bytes ∨ 0 < i ∧ nameOf argv = "COPY" ∧ b = arg "REPLACE"))

/-- The positions of the keys are found, in order and inside the command; each key is
there to be read; translation keeps the name and puts no prefix on twice. -/
structure SoundPositions (argv : Argv) (idx : List Nat) : Prop where
  found : keyIndexes argv = some idx
  sorted : idx.Pairwise (· < ·)
  inside : ∀ i ∈ idx, 1 ≤ i ∧ i ≤ argv.length - 1
  read : ∃ keys, extractKeys argv = some keys ∧ keys.map some = idx.map (argv[·]?)
  translated : ∀ db, ∃ out, rewriteArgv argv db = some out ∧
    out.head?.map Slice.bytes = argv.head?.map Slice.bytes ∧ PrefixedOnce idx argv out

/-- An argument with the bytes it had. -/
theorem prefixedOnce_same {i : Nat} {a b : Slice} (h : b.bytes = a.bytes) :
    (i ∈ idx ∧ ∃ d, b.bytes = dbPrefix d ++ a.bytes) ∨
    (i ∉ idx ∧ (b.bytes = a.bytes ∨ 0 < i ∧ nameOf argv = "COPY" ∧ b = arg "REPLACE")) := by
  by_cases hi : i ∈ idx
  · exact .inl ⟨hi, 0, h⟩
  · exact .inr ⟨hi, .inl h⟩

theorem prefixedOnce_clone : PrefixedOnce idx argv (cloneArgv argv) := by
  intro i a b ha hb
  rw [cloneArgv, List.getElem?_map, ha] at hb
  cases hb
  exact prefixedOnce_same (bytes_cloneBytes a)

theorem PrefixedAt.once (h : PrefixedAt db idx argv out) : PrefixedOnce idx argv out := by
  intro i a b ha hb
  rw [h i, ha, Option.map_some] at hb
  cases hb
  by_cases hi : i ∈ idx
  · refine .inl ⟨hi, db, ?_⟩
    rw [if_pos hi, bytes_prefixKey, bytes_cloneBytes]
  · rw [if_neg hi]
    exact prefixedOnce_same (bytes_cloneBytes a)

theorem PrefixedAt.head (h : PrefixedAt db idx argv out) (hpos : 0 ∉ idx) :
    out.head?.map Slice.bytes = argv.head?.map Slice.bytes := by
  rw [List.head?_eq_getElem?, List.head?_eq_getElem?, h 0, Option.map_map]
  simp [hpos, Function.comp_def]

theorem head_cloneArgv (argv : Argv) :
    (cloneArgv argv).head?.map Slice.bytes = argv.head?.map Slice.bytes := by
  cases argv with
  | nil => rfl
  | cons a rest => exact congrArg some (bytes_cloneBytes a)

/-- The keys of `COPY` with both of them. -/
theorem copyIdx_eq (cmd src dst : Slice) (opts : Argv) :
    indexesBySpec (cmd :: src :: dst :: opts) (spec 1 2 1) = [1, 2] := by
  simp [indexesBySpec, spec, List.range_succ]

theorem rewriteCOPY_once (hname : nameOf argv = "COPY") (hidx : keyIndexes argv = some idx) :
    PrefixedOnce idx argv (rewriteCOPY argv db) ∧
      (rewriteCOPY argv db).head?.map Slice.bytes = argv.head?.map Slice.bytes := by
  match argv with
  | [] => exact ⟨prefixedOnce_clone, head_cloneArgv _⟩
  | [_] => exact ⟨prefixedOnce_clone, head_cloneArgv _⟩
  | [_, _] => exact ⟨prefixedOnce_clone, head_cloneArgv _⟩
  | cmd :: src :: dst :: opts =>
    rw [keyIndexes_copy hname, copyIdx_eq] at hidx
    cases hidx
    refine ⟨?_, congrArg some (bytes_cloneBytes cmd)⟩
    intro i a b ha hb
    rcases i with _ | _ | _ | i
    · cases ha
      cases hb
      exact prefixedOnce_same (bytes_cloneBytes cmd)
    · cases ha
      cases hb
      exact .inl ⟨by simp, db, bytes_prefixKey db src⟩
    · cases ha
      cases hb
      exact .inl ⟨by simp, _, bytes_prefixKey _ dst⟩
    · -- behind the keys stands nothing but the option
      refine .inr ⟨by simp, .inr ⟨by omega, hname, ?_⟩⟩
      have hopt : (if (copyOptions opts db false).2 then [arg "REPLACE"] else [])[i]? = some b := hb
      split at hopt
      · exact (List.mem_singleton.1 (List.mem_of_getElem? hopt))
      · cases hopt

theorem rewriteArgv_once (hidx : keyIndexes argv = some idx) (h : rewriteArgv argv db = some out) :
    PrefixedOnce idx argv out ∧ out.head?.map Slice.bytes = argv.head?.map Slice.bytes := by
  have hzero : 0 ∉ idx := fun h0 => Nat.lt_irrefl 0 (keyIndexes_pos hidx h0)
  by_cases hplain : db = 0 ∨ ¬ needsDBRewrite argv = true
  · rw [rewriteArgv, if_pos hplain] at h
    cases h
    refine ⟨?_, rfl⟩
    intro i a b ha hb
    rw [ha] at hb
    cases hb
    exact prefixedOnce_same rfl
  · obtain ⟨hdb, hneeds⟩ := not_or.1 hplain
    rcases rewriteArgv_cases hdb (not_not.1 hneeds) hidx h with
      ⟨hplaced, -, -⟩ | ⟨-, -, rfl⟩ | ⟨hname, rfl⟩
    · exact ⟨hplaced.once, hplaced.head hzero⟩
    · -- the arguments of `SCAN` are followed by a pattern
      refine ⟨fun i a b ha hb => prefixedOnce_clone i a b ha ?_, ?_⟩
      · have hi : i < (cloneArgv argv).length := by
          rw [length_cloneArgv]
          exact (List.getElem?_eq_some_iff.1 ha).1
        rwa [List.getElem?_append_left hi] at hb
      · rw [← head_cloneArgv argv, List.head?_append_of_ne_nil]
        rw [ne_eq, cloneArgv, List.map_eq_nil_iff]
        rintro rfl
        exact hneeds (by decide)
    · exact rewriteCOPY_once hname hidx

/-- **`KeyIndexes` and translation are sound unless the number of keys is huge.** -/
theorem soundPositions_iff (argv : Argv) :
    (∃ idx, SoundPositions argv idx) ↔ hugeNumkeys argv = false := by
  constructor
  · rintro ⟨idx, hsound⟩
    by_contra hhuge
    rw [Bool.not_eq_false, ← keyIndexes_eq_none_iff, hsound.found] at hhuge
    cases hhuge
  · intro hsmall
    obtain ⟨idx, hidx⟩ : ∃ idx, keyIndexes argv = some idx := by
      rw [← Option.ne_none_iff_exists', ne_eq, keyIndexes_eq_none_iff, hsmall]
      simp
    obtain ⟨hsorted, hbounds⟩ := keyIndexes_ascends hidx
    refine ⟨idx, hidx, hsorted, fun i hi => ?_, ?_, fun db => ?_⟩
    · have := hbounds i hi
      omega
    · refine ⟨_, by rw [extractKeys, hidx]; rfl, ?_⟩
      rw [List.map_map]
      refine List.map_congr_left fun i hi => ?_
      simp [List.getElem?_eq_getElem (hbounds i hi).2]
    · obtain ⟨out, hout⟩ := exists_rewriteArgv db hsmall
      obtain ⟨honce, hhead⟩ := rewriteArgv_once hidx hout
      exact ⟨out, hout, hhead, honce⟩

/-- A number of keys at the end of the 64-bit range. -/
theorem huge_numkeys_panics : ¬ ∃ idx, SoundPositions
    [arg "LMPOP", arg "9223372036854775807", arg "k", arg "LEFT"] idx := by
  rintro ⟨idx, hsound⟩
  have hnone : keyIndexes [arg "LMPOP", arg "9223372036854775807", arg "k", arg "LEFT"] = none := by
    decide
  rw [hsound.found] at hnone
  cases hnone

/-! ## Agreement with the positions of the keys -/

/-- `MATCH` with an operand, from position 2 on. -/
def HasMatch (argv : Argv) : Prop :=
  ∃ i, 2 ≤ i ∧ i + 1 < argv.length ∧ (argv.getD i .nil).fold "MATCH" = true

theorem findFold_eq_none_iff {start : Nat} {w : String} :
    findFold argv start w = none ↔
      ∀ i, start ≤ i → i < argv.length → (argv.getD i .nil).fold w = false := by
  rw [findFold, Option.map_eq_none_iff, List.findIdx?_eq_none_iff]
  constructor
  · intro h i hi hlt
    obtain ⟨j, rfl⟩ := Nat.exists_eq_add_of_le hi
    rw [List.getD_eq_getElem?_getD, List.getElem?_eq_getElem hlt, Option.getD_some]
    refine h _ (List.mem_of_getElem? (i := j) ?_)
    rw [List.getElem?_drop, List.getElem?_eq_getElem hlt]
  · intro h a ha
    obtain ⟨j, hj⟩ := List.mem_iff_getElem?.1 ha
    rw [List.getElem?_drop] at hj
    have hno := h (start + j) (Nat.le_add_right _ _) (List.getElem?_eq_some_iff.1 hj).1
    rwa [List.getD_eq_getElem?_getD, hj, Option.getD_some] at hno

theorem scanMatchIdx_eq_nil_iff : scanMatchIdx argv = [] ↔ ¬ HasMatch argv := by
  have hfind : scanMatchIdx argv = [] ↔ findFold argv.dropLast 2 "MATCH" = none := by
    unfold scanMatchIdx
    split <;> simp_all
  rw [hfind, findFold_eq_none_iff]
  have hget : ∀ i, i + 1 < argv.length → argv.dropLast.getD i .nil = argv.getD i .nil := by
    intro i hi
    rw [List.getD_eq_getElem?_getD, List.getD_eq_getElem?_getD, List.getElem?_dropLast,
      if_pos (by omega)]
  constructor
  · rintro h ⟨i, hi, hlt, hfold⟩
    have hno := h i hi (by rw [List.length_dropLast]; omega)
    rw [hget i hlt, hfold] at hno
    cases hno
  · intro h i hi hlt
    rw [List.length_dropLast] at hlt
    rw [hget i (by omega)]
    exact Bool.eq_false_iff.2 fun hfold => h ⟨i, hi, by omega, hfold⟩

theorem PrefixedAt.length (h : PrefixedAt db idx argv out) : out.length = argv.length := by
  have hout : out = argv.mapIdx fun i a =>
      if i ∈ idx then prefixKey db (cloneBytes a) else cloneBytes a := by
    refine List.ext_getElem? fun i => ?_
    rw [h i, List.getElem?_mapIdx]
  rw [hout, List.length_mapIdx]

theorem PrefixedAt.bytes (h : PrefixedAt db idx argv out) {i : Nat} {a b : Slice}
    (ha : argv[i]? = some a) (hb : out[i]? = some b) :
    b.bytes = if i ∈ idx then (prefixKey db a).bytes else a.bytes := by
  rw [h i, ha, Option.map_some] at hb
  cases hb
  split
  · rw [bytes_prefixKey, bytes_prefixKey, bytes_cloneBytes]
  · exact bytes_cloneBytes a

theorem map_bytes_cloneArgv (argv : Argv) :
    (cloneArgv argv).map Slice.bytes = argv.map Slice.bytes := by
  rw [cloneArgv, List.map_map]
  exact List.map_congr_left fun a _ => bytes_cloneBytes a

/-- **The rewriters agree with the positions of the keys.** Keys get the prefix and other
arguments stay, apart from `COPY` and from a `SCAN` without a pattern, which gets one. -/
theorem rewriteArgv_agrees (hdb : 0 < db) (hneeds : needsDBRewrite argv = true)
    (hidx : keyIndexes argv = some idx) :
    ∃ out, rewriteArgv argv db = some out ∧
      (nameOf argv ≠ "COPY" ∧ ¬ (nameOf argv = "SCAN" ∧ ¬ HasMatch argv) →
        out.length = argv.length ∧
        ∀ i a b, argv[i]? = some a → out[i]? = some b →
          b.bytes = if i ∈ idx then (prefixKey db a).bytes else a.bytes) ∧
      (nameOf argv = "SCAN" ∧ ¬ HasMatch argv →
        out.map Slice.bytes = argv.map Slice.bytes ++ [lit "MATCH", dbPrefix db ++ lit "*"]) := by
  have hsmall : hugeNumkeys argv = false := by
    rw [← Bool.not_eq_true, ← keyIndexes_eq_none_iff, hidx]
    simp
  have hmatch : nameOf argv = "SCAN" → (idx = [] ↔ ¬ HasMatch argv) := by
    intro hscan
    have hargv : argv ≠ [] := by
      rintro rfl
      cases hneeds
    have hkeys : idx = scanMatchIdx argv := by simpa [keyIndexes, hargv, hscan, eq_comm] using hidx
    rw [hkeys]
    exact scanMatchIdx_eq_nil_iff
  obtain ⟨out, hout⟩ := exists_rewriteArgv db hsmall
  refine ⟨out, hout, ?_, ?_⟩
  · rintro ⟨hcopy, hscan⟩
    rcases rewriteArgv_cases (by omega) hneeds hidx hout with ⟨hplaced, -⟩ | ⟨hname, hnil, -⟩ | ⟨hname, -⟩
    · exact ⟨hplaced.length, fun i a b => hplaced.bytes⟩
    · exact absurd ⟨hname, (hmatch hname).1 hnil⟩ hscan
    · exact absurd hname hcopy
  · rintro ⟨hscan, hno⟩
    have hnil := (hmatch hscan).2 hno
    rcases rewriteArgv_cases (by omega) hneeds hidx hout with ⟨-, -, hne⟩ | ⟨-, -, rfl⟩ | ⟨hname, -⟩
    · exact absurd hnil (hne hscan)
    · rw [List.map_append, map_bytes_cloneArgv]
      rfl
    · rw [hscan] at hname
      exact absurd hname (by decide)

/-- `SORT` with a pattern and a destination in database 4. -/
theorem rewriteArgv_agrees_sort :
    ∃ out, rewriteArgv [arg "sort", arg "k", arg "BY", arg "w_*", arg "STORE", arg "d"] 4 = some out ∧
      out.length = 6 ∧ out.map Slice.bytes =
        [lit "sort", lit "db4:k", lit "BY", lit "db4:w_*", lit "STORE", lit "db4:d"] := by
  have hidx : keyIndexes [arg "sort", arg "k", arg "BY", arg "w_*", arg "STORE", arg "d"] =
      some [1, 3, 5] := by
    decide
  obtain ⟨out, hout, hplaced, -⟩ := rewriteArgv_agrees (by decide : 0 < 4) (by decide) hidx
  obtain ⟨hlen, -⟩ := hplaced ⟨by decide, fun h => absurd h.1 (by decide)⟩
  refine ⟨out, hout, hlen, ?_⟩
  cases hout
  decide

/-! ## What is sent -/

/-- The arguments sent for a command: translated at once, or copied into the queue of
`MULTI` and translated by `EXEC`. -/
def sentArgv (queued : Bool) (argv : Argv) (db : Nat) : Option Argv :=
  rewriteArgv (if queued then cloneArgv argv else argv) db

/-- Translation changes the command. -/
def Rewritten (db : Nat) (argv : Argv) : Prop := db ≠ 0 ∧ needsDBRewrite argv = true

/-- The arguments that a command has in database `db`: `SCAN` without a pattern gets that
of the database, and of the options of `COPY` only `REPLACE` is for the backend. -/
def askedFor (db : Nat) (args : List Bytes) : List Bytes :=
  if db = 0 ∨ ¬ needsDBRewrite (args.map Slice.mk) then args
  else if nameOf (args.map Slice.mk) = "SCAN" ∧ keyIndexes (args.map Slice.mk) = some [] then
    args ++ [lit "MATCH", dbPrefix db ++ lit "*"]
  else if nameOf (args.map Slice.mk) = "COPY" ∧ 3 ≤ args.length then
    args.take 3 ++
      (if (copyOptions ((args.map Slice.mk).drop 3) db false).2 then [lit "REPLACE"] else [])
  else args

/-- The argument at `i` gets a prefix. -/
def GetsPrefix (db : Nat) (argv : Argv) (i : Nat) : Prop :=
  Rewritten db argv ∧ i ∈ (keyIndexes argv).getD [] ∧
    (nameOf argv = "COPY" → 3 ≤ argv.length ∧ (i = 2 → (copyOptions (argv.drop 3) db false).1 ≠ 0))

/-- The frame of `out` has an argument for each of `args`. Those that `keep` selects are
not null, and have the given bytes unless they are keys. -/
structure SentAs (idx : List Nat) (keep : Nat → Bytes → Prop) (args : List Bytes) (out : Argv) :
    Prop where
  frame : encodeCommand out = 42 :: Decimal.ofNat args.length ++ crlf ++
    (out.map fun b => encode (bulkString b)).flatten
  length : out.length = args.length
  plain : ∀ i a b, args[i]? = some a → out[i]? = some b → keep i a → i ∉ idx →
    encode (bulkString b) = encodeArg a
  present : ∀ i a b, args[i]? = some a → out[i]? = some b → keep i a →
    encode (bulkString b) ≠ encode nullBulk

/-- The arguments whose bytes are promised: all but the empty ones that are copied and
get no prefix. -/
def Vouched (queued : Bool) (db : Nat) (argv : Argv) (i : Nat) (a : Bytes) : Prop :=
  a ≠ [] ∨ (queued = false ∧ ¬ Rewritten db argv) ∨ GetsPrefix db argv i

theorem encode_bulk (bs : Bytes) : encode (bulkString (.mk bs)) = encodeArg bs := by
  simp [bulkString, encode, encodeArg]

/-- A length starts with a digit, and the null bulk with a sign. -/
theorem encodeArg_ne_null (bs : Bytes) : encodeArg bs ≠ encode nullBulk := by
  intro h
  have hnull : encode nullBulk = 36 :: 45 :: 49 :: crlf := by decide
  rw [hnull, encodeArg] at h
  obtain ⟨d, ds, hd⟩ := List.exists_cons_of_ne_nil (Decimal.ofNat_ne_nil bs.length)
  rw [hd] at h
  have hdigit := Decimal.isDigit_of_mem_ofNat (hd ▸ List.mem_cons_self : d ∈ Decimal.ofNat bs.length)
  cases (List.cons.inj (List.cons.inj h).2).1
  exact absurd hdigit (by decide)

theorem encodeCommand_eq (out : Argv) : encodeCommand out = 42 :: Decimal.ofNat out.length ++ crlf ++
    (out.map fun b => encode (bulkString b)).flatten := by
  have hall : ∀ vs : List Value, encodeAll vs = (vs.map encode).flatten := by
    intro vs
    induction vs with
    | nil => simp [encodeAll]
    | cons v vs ih => simp [encodeAll, ih]
  simp [encodeCommand, commandArray, array, encode, hall, RType.byte, Function.comp_def]

theorem sentAs_of {idx : List Nat} {keep : Nat → Bytes → Prop} {args : List Bytes}
    (hlen : out.length = args.length)
    (heach : ∀ i a b, args[i]? = some a → out[i]? = some b → keep i a →
      b = .mk a ∨ i ∈ idx ∧ ∃ bs, b = .mk bs) : SentAs idx keep args out where
  frame := by rw [encodeCommand_eq, hlen]
  length := hlen
  plain i a b ha hb hkeep hi := by
    rcases heach i a b ha hb hkeep with rfl | ⟨hmem, -⟩
    · exact encode_bulk a
    · exact absurd hmem hi
  present i a b ha hb hkeep := by
    rcases heach i a b ha hb hkeep with rfl | ⟨-, bs, rfl⟩
    · exact encode_bulk a ▸ encodeArg_ne_null a
    · exact encode_bulk bs ▸ encodeArg_ne_null bs

theorem cloneBytes_of_ne_nil {a : Slice} (h : a.bytes ≠ []) : cloneBytes a = .mk a.bytes := by
  rw [cloneBytes, Slice.ofAppend, if_neg h]

theorem prefixKey_mk (hdb : db ≠ 0) (a : Slice) : prefixKey db a = .mk (dbPrefix db ++ a.bytes) :=
  if_neg hdb

theorem copyOptions_cloneArgv (opts : Argv) (db : Nat) (replace : Bool) :
    copyOptions (cloneArgv opts) db replace = copyOptions opts db replace := by
  unfold cloneArgv
  induction opts, db, replace using copyOptions.induct with
  | case1 db replace => rfl
  | case2 a rest db replace hrep ih =>
    rw [List.map_cons, copyOptions.eq_def, copyOptions.eq_def (a :: rest)]
    simp [hrep, ih]
  | case3 a db replace hrep v rest hdb n hn ih =>
    simp [copyOptions, hrep, hdb, atoi_cloneBytes, hn, ih]
  | case4 a db replace hrep v rest hdb hn ih =>
    simp [copyOptions, hrep, hdb, atoi_cloneBytes, hn, ih]
  | case5 a db replace hrep v rest hdb ih =>
    rw [List.map_cons] at ih
    simp [copyOptions, hrep, hdb, ih]
  | case6 a db replace hrep => simp [copyOptions, hrep]

theorem needsDBRewrite_cloneArgv (argv : Argv) :
    needsDBRewrite (cloneArgv argv) = needsDBRewrite argv := by
  have hnil : cloneArgv argv = [] ↔ argv = [] := List.map_eq_nil_iff
  simp only [needsDBRewrite, nameOf_cloneArgv, ne_eq, hnil]

/-- What the session hands to the translation is the command or a copy of it, which
differs in empty arguments only. -/
structure Handed (args : List Bytes) (handed : Argv) : Prop where
  name : nameOf handed = nameOf (args.map Slice.mk)
  keys : keyIndexes handed = keyIndexes (args.map Slice.mk)
  needs : needsDBRewrite handed = needsDBRewrite (args.map Slice.mk)
  length : handed.length = args.length
  bytes : ∀ i : Nat, handed[i]?.map Slice.bytes = args[i]?

theorem handed_self (args : List Bytes) : Handed args (args.map Slice.mk) where
  name := rfl
  keys := rfl
  needs := rfl
  length := List.length_map _
  bytes i := by simp [Function.comp_def, Slice.bytes]

theorem handed_clone (args : List Bytes) : Handed args (cloneArgv (args.map Slice.mk)) where
  name := nameOf_cloneArgv _
  keys := keyIndexes_cloneArgv _
  needs := needsDBRewrite_cloneArgv _
  length := by simp
  bytes i := by
    have hid : Slice.bytes ∘ cloneBytes ∘ Slice.mk = id :=
      funext fun bs => bytes_cloneBytes (.mk bs)
    rw [cloneArgv, List.map_map, List.getElem?_map, Option.map_map, hid, Option.map_id, id]

section Sent

variable {queued : Bool} {args : List Bytes} {handed : Argv}

/-- The command or its copy, without translation. -/
theorem sentAs_plain (hplain : ¬ Rewritten db (args.map Slice.mk)) :
    SentAs idx (Vouched queued db (args.map Slice.mk)) args
      (if queued then cloneArgv (args.map Slice.mk) else args.map Slice.mk) := by
  refine sentAs_of (by split <;> simp) fun i a b ha hb hkeep => .inl ?_
  cases queued with
  | false =>
    rw [if_neg (by decide), List.getElem?_map, ha] at hb
    exact (Option.some.inj hb).symm
  | true =>
    rw [if_pos rfl, cloneArgv, List.getElem?_map, List.getElem?_map, ha] at hb
    rcases hkeep with hne | ⟨hdirect, -⟩ | hgets
    · exact (Option.some.inj hb).symm.trans (cloneBytes_of_ne_nil hne)
    · cases hdirect
    · exact absurd hgets.1 hplain

/-- An argument that is copied and gets no prefix. -/
theorem Vouched.copied {i : Nat} {a : Bytes} {b : Slice} (h : Vouched queued db (args.map Slice.mk) i a)
    (hrewritten : Rewritten db (args.map Slice.mk)) (hnot : ¬ GetsPrefix db (args.map Slice.mk) i)
    (hb : b.bytes = a) : cloneBytes b = .mk a := by
  rcases h with hne | ⟨-, hplain⟩ | hgets
  · exact hb ▸ cloneBytes_of_ne_nil (hb ▸ hne)
  · exact absurd hrewritten hplain
  · exact absurd hgets hnot

theorem sentAs_placed {pos : List Nat} (hrewritten : Rewritten db (args.map Slice.mk))
    (hpos : ∀ i ∈ pos, i ∈ idx) (hgets : ∀ i, GetsPrefix db (args.map Slice.mk) i → i ∈ pos)
    (hh : Handed args handed) (h : PrefixedAt db pos handed out) :
    SentAs idx (Vouched queued db (args.map Slice.mk)) args out := by
  refine sentAs_of (h.length.trans hh.length) fun i a b ha hb hkeep => ?_
  have hi := hh.bytes i
  rw [ha] at hi
  obtain ⟨c, hc, hca⟩ := Option.map_eq_some_iff.1 hi
  rw [h i, hc, Option.map_some] at hb
  cases hb
  by_cases hmem : i ∈ pos
  · rw [if_pos hmem]
    exact .inr ⟨hpos i hmem, _, prefixKey_mk hrewritten.1 _⟩
  · rw [if_neg hmem]
    exact .inl (hkeep.copied hrewritten (mt (hgets i) hmem) hca)

/-- `SCAN` with the pattern of the database behind its own arguments. -/
theorem sentAs_scan (hrewritten : Rewritten db (args.map Slice.mk))
    (hidx : keyIndexes (args.map Slice.mk) = some []) (hh : Handed args handed) :
    SentAs [] (Vouched queued db (args.map Slice.mk)) (args ++ [lit "MATCH", dbPrefix db ++ lit "*"])
      (cloneArgv handed ++ [arg "MATCH", .mk (dbPrefix db ++ lit "*")]) := by
  refine sentAs_of (by simp [hh.length]) fun i a b ha hb hkeep => .inl ?_
  have hsame : (cloneArgv handed).length = args.length := by rw [length_cloneArgv, hh.length]
  by_cases hi : i < args.length
  · rw [List.getElem?_append_left hi] at ha
    rw [List.getElem?_append_left (by omega), cloneArgv, List.getElem?_map] at hb
    obtain ⟨c, hc, rfl⟩ := Option.map_eq_some_iff.1 hb
    have hca := hh.bytes i
    rw [ha, hc] at hca
    refine hkeep.copied hrewritten (fun hgets => ?_) (Option.some.inj hca)
    have := hgets.2.1
    rw [hidx] at this
    cases this
  · rw [List.getElem?_append_right (by omega)] at ha
    rw [List.getElem?_append_right (by omega), hsame] at hb
    have hmap : [arg "MATCH", Slice.mk (dbPrefix db ++ lit "*")] =
        [lit "MATCH", dbPrefix db ++ lit "*"].map Slice.mk := rfl
    rw [hmap, List.getElem?_map, ha] at hb
    exact (Option.some.inj hb).symm

/-- `COPY` with both keys. -/
theorem sentAs_copy {cmd src dst : Slice} {opts : Argv} {name key key' : Bytes} {rest : List Bytes}
    (hrewritten : Rewritten db ((name :: key :: key' :: rest).map Slice.mk))
    (hname : nameOf ((name :: key :: key' :: rest).map Slice.mk) = "COPY") (hcmd : cmd.bytes = name)
    (hdst : dst = .mk key' ∨ dst = cloneBytes (.mk key'))
    (hopts : copyOptions opts db false = copyOptions (rest.map Slice.mk) db false) :
    SentAs [1, 2] (Vouched queued db ((name :: key :: key' :: rest).map Slice.mk))
      ([name, key, key'] ++
        (if (copyOptions (rest.map Slice.mk) db false).2 then [lit "REPLACE"] else []))
      (rewriteCOPY (cmd :: src :: dst :: opts) db) := by
  have hout : rewriteCOPY (cmd :: src :: dst :: opts) db =
      [cloneBytes cmd, prefixKey db src, prefixKey (copyOptions (rest.map Slice.mk) db false).1 dst] ++
        (if (copyOptions (rest.map Slice.mk) db false).2 then [arg "REPLACE"] else []) := by
    rw [← hopts]
    rfl
  rw [hout]
  have hkeyed : ∀ d, d ≠ 0 → ∀ a : Slice, ∃ bs, prefixKey d a = .mk bs :=
    fun d hd a => ⟨_, prefixKey_mk hd a⟩
  refine sentAs_of (by split <;> simp) fun i a b ha hb hkeep => ?_
  rcases i with _ | _ | _ | i
  · -- the name
    cases ha
    cases hb
    refine .inl (cloneBytes_of_ne_nil ?_ |>.trans (by rw [hcmd]))
    rw [hcmd]
    rintro rfl
    have hnone : upperName [] = "COPY" := hname
    exact absurd hnone (by decide)
  · cases ha
    cases hb
    exact .inr ⟨by simp, hkeyed db hrewritten.1 src⟩
  · -- a destination in database 0 has no prefix
    cases ha
    cases hb
    refine .inr ⟨by simp, ?_⟩
    by_cases hdest : (copyOptions (rest.map Slice.mk) db false).1 = 0
    · rw [hdest]
      rcases hkeep with hne | ⟨-, hplain⟩ | hgets
      · rcases hdst with rfl | rfl
        · exact ⟨key', rfl⟩
        · exact ⟨key', cloneBytes_of_ne_nil hne⟩
      · exact absurd hrewritten hplain
      · exact absurd hdest ((hgets.2.2 hname).2 rfl)
    · exact hkeyed _ hdest dst
  · left
    have ha : (if (copyOptions (rest.map Slice.mk) db false).2 then [lit "REPLACE"] else [])[i]? =
      some a := ha
    have hb : (if (copyOptions (rest.map Slice.mk) db false).2 then [arg "REPLACE"] else [])[i]? =
      some b := hb
    split at ha
    · rw [List.mem_singleton.1 (List.mem_of_getElem? ha)]
      rw [if_pos ‹_›] at hb
      exact List.mem_singleton.1 (List.mem_of_getElem? hb)
    · cases ha

/-- `COPY` without both keys is only copied. -/
theorem sentAs_copy_short (hrewritten : Rewritten db (args.map Slice.mk))
    (hname : nameOf (args.map Slice.mk) = "COPY") (hshort : ¬ 3 ≤ args.length)
    (hh : Handed args handed) :
    SentAs idx (Vouched queued db (args.map Slice.mk)) args (rewriteCOPY handed db) := by
  have hclone : rewriteCOPY handed db = cloneArgv handed := by
    match handed, hh.length with
    | [], _ => rfl
    | [_], _ => rfl
    | [_, _], _ => rfl
    | _ :: _ :: _ :: _, hlen =>
      simp only [List.length_cons] at hlen
      omega
  rw [hclone]
  refine sentAs_placed hrewritten (by simp) (fun i hi => ?_) hh prefixedAt_clone
  exact absurd (by simpa using (hi.2.2 hname).1) hshort

/-- A command that translation changes. -/
theorem sentAs_rewritten (hplain : ¬ (db = 0 ∨ ¬ needsDBRewrite (args.map Slice.mk) = true))
    (hsame : handed = args.map Slice.mk ∨ handed = cloneArgv (args.map Slice.mk))
    (h : rewriteArgv handed db = some out) :
    SentAs ((keyIndexes (args.map Slice.mk)).getD []) (Vouched queued db (args.map Slice.mk))
      (askedFor db args) out := by
  have hh : Handed args handed := by
    rcases hsame with rfl | rfl
    · exact handed_self args
    · exact handed_clone args
  obtain ⟨hdb, hneeds⟩ := not_or.1 hplain
  have hrewritten : Rewritten db (args.map Slice.mk) := ⟨hdb, not_not.1 hneeds⟩
  obtain ⟨idx, hidx⟩ : ∃ idx, keyIndexes handed = some idx := by
    rw [← Option.ne_none_iff_exists', ne_eq, keyIndexes_eq_none_iff]
    intro hhuge
    rw [rewriteArgv_eq_none_iff.2 ⟨hdb, hhuge⟩] at h
    cases h
  have hcases := rewriteArgv_cases hdb (hh.needs.trans hrewritten.2) hidx h
  rw [hh.keys] at hidx
  rw [hh.name] at hcases
  rw [askedFor, if_neg hplain, hidx, Option.getD_some]
  rcases hcases with ⟨hplaced, hcopy, hscan⟩ | ⟨hscan, rfl, rfl⟩ | ⟨hcopy, rfl⟩
  · rw [if_neg (by simpa using hscan), if_neg (fun h => hcopy h.1)]
    refine sentAs_placed hrewritten (fun _ hi => hi) (fun i hi => ?_) hh hplaced
    simpa [hidx] using hi.2.1
  · rw [if_pos ⟨hscan, rfl⟩]
    exact sentAs_scan hrewritten hidx hh
  · rw [if_neg (by simp [hcopy])]
    by_cases hshort : 3 ≤ args.length
    · rw [if_pos ⟨hcopy, hshort⟩]
      obtain ⟨name, key, key', rest, rfl⟩ : ∃ name key key' rest, args = name :: key :: key' :: rest := by
        match args, hshort with
        | name :: key :: key' :: rest, _ => exact ⟨name, key, key', rest, rfl⟩
      rw [keyIndexes_copy hcopy, List.map_cons, List.map_cons, List.map_cons, copyIdx_eq] at hidx
      cases hidx
      rcases hsame with rfl | rfl
      · exact sentAs_copy hrewritten hcopy rfl (.inl rfl) rfl
      · exact sentAs_copy hrewritten hcopy (bytes_cloneBytes _) (.inr rfl) (copyOptions_cloneArgv _ _ _)
    · rw [if_neg fun h => hshort h.2]
      exact sentAs_copy_short hrewritten hcopy hshort hh

/-- **What is sent for a command.** Apart from the pattern of `SCAN` and the options of
`COPY`, the arguments are the client's. -/
theorem sentArgv_as_asked (h : sentArgv queued (args.map Slice.mk) db = some out) :
    SentAs ((keyIndexes (args.map Slice.mk)).getD []) (Vouched queued db (args.map Slice.mk))
      (askedFor db args) out := by
  unfold sentArgv at h
  by_cases hplain : db = 0 ∨ ¬ needsDBRewrite (args.map Slice.mk) = true
  · have hneeds : needsDBRewrite (if queued then cloneArgv (args.map Slice.mk)
        else args.map Slice.mk) = needsDBRewrite (args.map Slice.mk) := by
      split
      · exact needsDBRewrite_cloneArgv _
      · rfl
    rw [rewriteArgv, hneeds, if_pos hplain] at h
    cases h
    rw [askedFor, if_pos hplain]
    exact sentAs_plain fun hrewritten => hplain.elim hrewritten.1 (absurd hrewritten.2)
  · refine sentAs_rewritten hplain ?_ h
    split
    · exact .inr rfl
    · exact .inl rfl

end Sent

theorem sentArgv_as_asked_queued :
    SentAs [1] (Vouched true 3 [arg "SET", arg "k", arg "v"]) [lit "SET", lit "k", lit "v"]
      [arg "SET", arg "db3:k", arg "v"] :=
  @sentArgv_as_asked [arg "SET", arg "db3:k", arg "v"] 3 true [lit "SET", lit "k", lit "v"] (by decide)

/-- In database 1 the backend gets a pattern that the client did not send. -/
theorem scan_gets_pattern : ∃ out, sentArgv false [arg "SCAN", arg "0"] 1 = some out ∧
    ¬ SentAs ((keyIndexes [arg "SCAN", arg "0"]).getD []) (fun _ _ => True) [lit "SCAN", lit "0"] out :=
  ⟨[arg "SCAN", arg "0", arg "MATCH", arg "db1:*"], by decide,
    fun h => absurd h.length (by decide)⟩

end RespProxy.Command
