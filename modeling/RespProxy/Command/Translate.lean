import RespProxy.Command.Db
import RespProxy.Command.Indexes

/-! # Where translated keys are

`rewriteArgv` puts the prefix of the database on the arguments at the positions of
`keyIndexes`. A number of keys that leaves the 64-bit range makes both panic, and translation
does not change that number; nothing else does:

* `keyIndexes_eq_none_iff`, `rewriteArgv_eq_none_iff`: where they panic;
* `hugeNumkeys_rewriteArgv`: the number of keys is kept.

The pieces of a fan-out are put together from the keys of one slot each.
-/

namespace RespProxy.Command

variable {argv : Argv} {idx : List Nat} {i : Nat}
variable {slotFn : Slice → Nat} {keys : List Slice} {argv' out : Argv} {g : KeyGroup}

variable {db : Nat}

/-! ## Names -/

/-- The names with extractors of their own. -/
def specialNames : List String :=
  ["EVAL", "EVALSHA", "EVAL_RO", "EVALSHA_RO", "XREAD", "XREADGROUP", "MIGRATE", "LMPOP", "ZMPOP",
    "SINTERCARD", "BLMPOP", "BZMPOP", "ZUNIONSTORE", "ZINTERSTORE", "ZDIFFSTORE", "ZUNION", "ZINTER",
    "ZDIFF", "MEMORY", "KEYS", "SCAN", "SORT", "GEORADIUS", "GEORADIUSBYMEMBER"]

theorem keyIndexes_of_table (hargv : argv ≠ []) (hn : nameOf argv ∉ specialNames) :
    keyIndexes argv = some (match lookup (nameOf argv) with
      | none => []
      | some m => indexesBySpec argv m.keys) := by
  simp only [specialNames, List.mem_cons, List.not_mem_nil, or_false, not_or] at hn
  cases hl : lookup (nameOf argv) <;>
    simp only [keyIndexes, hargv, if_false, List.mem_cons, List.not_mem_nil, hn, or_self, hl]

/-! ## Numbers of keys

`numkeysIdx` adds the announced number of keys to a position. Where the sum
leaves the 64-bit range, `make` panics. -/

/-- The place of the number of keys, for the commands read by `numkeysIdx`. -/
def numkeysAt (name : String) : Option Nat :=
  if name ∈ ["LMPOP", "ZMPOP", "SINTERCARD", "ZUNION", "ZINTER", "ZDIFF"] then some 1
  else if name ∈ ["BLMPOP", "BZMPOP", "ZUNIONSTORE", "ZINTERSTORE", "ZDIFFSTORE"] then some 2
  else none

/-- The command announces a number of keys that, counted from its place, leaves
the 64-bit range. -/
def hugeNumkeys (argv : Argv) : Bool :=
  match numkeysAt (nameOf argv) with
  | none => false
  | some i =>
    match argv[i]?.bind Slice.atoi with
    | none => false
    | some n => decide (i + 1 < argv.length ∧ 2 ^ 63 ≤ (i : Int) + 1 + n)

theorem numkeysIdx_eq_none (argv : Argv) (hi : i ≤ 2) :
    numkeysIdx argv i = none ↔ (match argv[i]?.bind Slice.atoi with
      | none => false
      | some n => decide (i + 1 < argv.length ∧ 2 ^ 63 ≤ (i : Int) + 1 + n)) = true := by
  unfold numkeysIdx
  cases hn : argv[i]?.bind Slice.atoi with
  | none => simp
  | some n =>
    have hrange : -(2 ^ 63) ≤ n ∧ n < 2 ^ 63 := by
      obtain ⟨a, -, ha⟩ := Option.bind_eq_some_iff.1 hn
      exact Decimal.parseInt64_range ha
    have hwrap : 0 ≤ n → (Decimal.wrap64 ((i + 1 : Nat) + n) < 0 ↔ 2 ^ 63 ≤ (i : Int) + 1 + n) := by
      intro hpos
      rw [Decimal.wrap64, Int.bmod_def]
      split <;> omega
    dsimp only
    split
    · rename_i hout
      simp only [reduceCtorEq, decide_eq_true_eq, false_iff, not_and]
      omega
    · rename_i hin
      split
      · rename_i hneg
        simp only [decide_eq_true_eq, true_iff]
        exact ⟨by omega, (hwrap (by omega)).1 hneg⟩
      · rename_i hneg
        simp only [reduceCtorEq, decide_eq_true_eq, false_iff, not_and]
        intro _ hbig
        exact hneg ((hwrap (by omega)).2 hbig)

theorem keyIndexes_numkeys (h : numkeysAt (nameOf argv) = some i) :
    keyIndexes argv = numkeysIdx argv i ∨ i = 2 ∧ keyIndexes argv = destNumkeysIdx argv := by
  have hargv : argv ≠ [] := by
    rintro rfl
    cases h
  unfold numkeysAt at h
  split at h
  · rename_i hn
    cases h
    left
    simp only [List.mem_cons, List.not_mem_nil, or_false] at hn
    rcases hn with hn | hn | hn | hn | hn | hn <;> simp [keyIndexes, hargv, hn]
  split at h
  · rename_i hn
    cases h
    simp only [List.mem_cons, List.not_mem_nil, or_false] at hn
    rcases hn with hn | hn | hn | hn | hn <;> simp [keyIndexes, hargv, hn]
  · cases h

theorem exists_keyIndexes (h : numkeysAt (nameOf argv) = none) :
    ∃ idx, keyIndexes argv = some idx := by
  have hname : ∀ names : List String, (∀ w ∈ names, (numkeysAt w).isSome = true) →
      nameOf argv ∉ names := by
    intro names hall hn
    have := hall _ hn
    simp [h] at this
  unfold keyIndexes
  dsimp only
  rw [if_neg (hname ["LMPOP", "ZMPOP", "SINTERCARD"] (by decide)),
    if_neg (hname ["BLMPOP", "BZMPOP"] (by decide)),
    if_neg (hname ["ZUNIONSTORE", "ZINTERSTORE", "ZDIFFSTORE"] (by decide)),
    if_neg (hname ["ZUNION", "ZINTER", "ZDIFF"] (by decide))]
  repeat' split
  all_goals exact ⟨_, rfl⟩

/-- `KeyIndexes` panics at a huge number of keys only. -/
theorem keyIndexes_eq_none_iff : keyIndexes argv = none ↔ hugeNumkeys argv = true := by
  cases hat : numkeysAt (nameOf argv) with
  | none =>
    obtain ⟨idx, hidx⟩ := exists_keyIndexes hat
    simp [hidx, hugeNumkeys, hat]
  | some i =>
    have hle : i ≤ 2 := by
      unfold numkeysAt at hat
      grind
    have hnone := numkeysIdx_eq_none argv hle
    have hhuge : hugeNumkeys argv = (match argv[i]?.bind Slice.atoi with
        | none => false
        | some n => decide (i + 1 < argv.length ∧ 2 ^ 63 ≤ (i : Int) + 1 + n)) := by
      simp only [hugeNumkeys, hat]
    rw [hhuge, ← hnone]
    rcases keyIndexes_numkeys hat with hidx | ⟨rfl, hidx⟩
    · rw [hidx]
    · rw [hidx, destNumkeysIdx]
      split
      · rename_i hlen
        have hget : argv[2]? = none := List.getElem?_eq_none (by omega)
        simp [numkeysIdx, hget]
      · rw [Option.map_eq_none_iff]

/-! ## Translation and numbers of keys -/

@[simp] theorem length_prefixAt (db : Nat) (idx : List Nat) (argv : Argv) :
    (prefixAt db idx argv).length = argv.length := by
  unfold prefixAt
  induction idx generalizing argv with
  | nil => rfl
  | cons i idx ih =>
    rw [List.foldl_cons, ih]
    split
    · exact List.length_modify _ _ _
    · rfl

theorem getElem?_prefixAt_of_not_mem (argv : Argv) (h : i ∉ idx) :
    (prefixAt db idx argv)[i]? = argv[i]? := by
  unfold prefixAt
  induction idx generalizing argv with
  | nil => rfl
  | cons j idx ih =>
    simp only [List.mem_cons, not_or] at h
    rw [List.foldl_cons, ih _ h.2]
    split
    · exact List.getElem?_modify_ne _ _ (Ne.symm h.1)
    · rfl

theorem not_mem_of_mem_numkeysIdx (h : numkeysIdx argv i = some idx) : ∀ j ∈ idx, i < j := by
  unfold numkeysIdx at h
  split at h
  · cases h
    exact fun j hj => (List.not_mem_nil hj).elim
  · dsimp only at h
    split at h
    · cases h
      exact fun j hj => (List.not_mem_nil hj).elim
    split at h
    · cases h
    · cases h
      intro j hj
      have := (mem_positions.1 hj).1
      omega

/-- The number of keys is not a key. -/
theorem numkeysAt_not_mem
    (hat : numkeysAt (nameOf argv) = some i) (h : keyIndexes argv = some idx) : i ∉ idx := by
  rcases keyIndexes_numkeys hat with hidx | ⟨rfl, hidx⟩
  · rw [hidx] at h
    intro hmem
    exact absurd (not_mem_of_mem_numkeysIdx h i hmem) (Nat.lt_irrefl i)
  · rw [hidx, destNumkeysIdx] at h
    split at h
    · cases h
      split <;> simp
    · obtain ⟨idx', hidx', rfl⟩ := Option.map_eq_some_iff.1 h
      intro hmem
      rcases List.mem_cons.1 hmem with hmem | hmem
      · cases hmem
      · exact absurd (not_mem_of_mem_numkeysIdx hidx' 2 hmem) (Nat.lt_irrefl 2)

@[simp] theorem atoi_cloneBytes (a : Slice) : (cloneBytes a).atoi = a.atoi := by
  rw [Slice.atoi, bytes_cloneBytes]
  rfl

@[simp] theorem length_cloneArgv (argv : Argv) : (cloneArgv argv).length = argv.length :=
  List.length_map _

theorem hugeNumkeys_congr (hname : nameOf argv' = nameOf argv) (hlen : argv'.length = argv.length)
    (hget : ∀ i, numkeysAt (nameOf argv) = some i →
      argv'[i]?.bind Slice.atoi = argv[i]?.bind Slice.atoi) :
    hugeNumkeys argv' = hugeNumkeys argv := by
  unfold hugeNumkeys
  rw [hname]
  cases hat : numkeysAt (nameOf argv) with
  | none => rfl
  | some i => simp only [hget i hat, hlen]

@[simp] theorem hugeNumkeys_cloneArgv (argv : Argv) :
    hugeNumkeys (cloneArgv argv) = hugeNumkeys argv := by
  refine hugeNumkeys_congr (nameOf_cloneArgv argv) (length_cloneArgv argv) fun i _ => ?_
  rw [cloneArgv, List.getElem?_map]
  cases argv[i]? <;> simp

/-- The commands with a rewriting of their own have no number of keys. -/
theorem rewriteArgv_numkeys (h : (numkeysAt (nameOf argv)).isSome = true) :
    rewriteArgv argv db = if db = 0 then some argv
      else (keyIndexes (cloneArgv argv)).map fun idx => prefixAt db idx (cloneArgv argv) := by
  have hargv : argv ≠ [] := by
    rintro rfl
    cases h
  have hname : ∀ names : List String, (∀ w ∈ names, (numkeysAt w).isSome = false) →
      nameOf argv ∉ names := by
    intro names hall hn
    rw [hall _ hn] at h
    cases h
  have hneeds : needsDBRewrite argv = true := by
    simp only [needsDBRewrite, Bool.and_eq_true, decide_eq_true_eq]
    exact ⟨hargv, hname noRewrite (by decide)⟩
  have hown := hname ["COPY", "SCAN", "KEYS", "SORT", "MOVE"] (by decide)
  simp only [List.mem_cons, List.not_mem_nil, or_false, not_or] at hown
  simp [rewriteArgv, hneeds, hown]

theorem exists_rewriteArgv (db : Nat) (h : hugeNumkeys argv = false) :
    ∃ out, rewriteArgv argv db = some out := by
  have hidx : ∃ idx, keyIndexes (cloneArgv argv) = some idx := by
    rw [← Option.ne_none_iff_exists', ne_eq, keyIndexes_eq_none_iff, hugeNumkeys_cloneArgv, h]
    simp
  obtain ⟨idx, hidx⟩ := hidx
  unfold rewriteArgv
  dsimp only
  rw [hidx]
  repeat' split
  all_goals exact ⟨_, rfl⟩

/-- Translation does not touch the number of keys. -/
theorem hugeNumkeys_rewriteArgv (h : rewriteArgv argv db = some out) :
    hugeNumkeys out = hugeNumkeys argv := by
  have hname := nameOf_rewriteArgv h
  cases hat : numkeysAt (nameOf argv) with
  | none =>
    unfold hugeNumkeys
    rw [hname, hat]
  | some i =>
    rw [rewriteArgv_numkeys (by rw [hat]; rfl)] at h
    split at h
    · cases h
      rfl
    · obtain ⟨idx, hidx, rfl⟩ := Option.map_eq_some_iff.1 h
      rw [← hugeNumkeys_cloneArgv argv]
      refine hugeNumkeys_congr (nameOf_prefixAt _ _ _) (length_prefixAt _ _ _) fun j hj => ?_
      rw [getElem?_prefixAt_of_not_mem _ (numkeysAt_not_mem hj hidx)]

/-- A command that is not translated has a huge number of keys. -/
theorem rewriteArgv_eq_none_iff :
    rewriteArgv argv db = none ↔ db ≠ 0 ∧ hugeNumkeys argv = true := by
  constructor
  · intro h
    have hhuge : hugeNumkeys argv = true := by
      by_contra hn
      obtain ⟨out, hout⟩ := exists_rewriteArgv db (Bool.eq_false_iff.2 hn)
      rw [h] at hout
      cases hout
    refine ⟨?_, hhuge⟩
    rintro rfl
    simp [rewriteArgv] at h
  · rintro ⟨hdb, hhuge⟩
    have hat : (numkeysAt (nameOf argv)).isSome = true := by
      unfold hugeNumkeys at hhuge
      split at hhuge
      · cases hhuge
      · rename_i hi
        rw [hi]
        rfl
    rw [rewriteArgv_numkeys hat, if_neg hdb, Option.map_eq_none_iff, keyIndexes_eq_none_iff,
      hugeNumkeys_cloneArgv, hhuge]

theorem exists_extractKeys (h : hugeNumkeys argv = false) :
    ∃ keys, extractKeys argv = some keys := by
  cases hk : keyIndexes argv with
  | none =>
    rw [keyIndexes_eq_none_iff, h] at hk
    cases hk
  | some idx => exact ⟨_, by rw [extractKeys, hk]; rfl⟩

theorem extractKeys_none (h : hugeNumkeys argv = true) : extractKeys argv = none := by
  rw [extractKeys, keyIndexes_eq_none_iff.2 h]
  rfl

theorem huge_of_extractKeys (hout : rewriteArgv argv db = some out)
    (h : extractKeys out = none) : hugeNumkeys argv = true := by
  by_contra hsmall
  rw [← hugeNumkeys_rewriteArgv hout] at hsmall
  obtain ⟨keys, hkeys⟩ := exists_extractKeys (Bool.eq_false_iff.2 hsmall)
  rw [hkeys] at h
  cases h

/-! ## Translated keys -/

/-- The name of a command is not one of its keys. -/
theorem keyIndexes_pos (h : keyIndexes argv = some idx) (hi : i ∈ idx) : 0 < i := ((keyIndexes_ascends h).bounds i hi).1

/-- Names whose keys the table has, and that are translated position by position. -/
theorem rewriteArgv_of_table (hdb : db ≠ 0) (hneeds : needsDBRewrite argv = true)
    (hown : nameOf argv ∉ ["COPY", "SCAN", "KEYS", "SORT", "MOVE"]) :
    rewriteArgv argv db =
      (keyIndexes (cloneArgv argv)).map fun idx => prefixAt db idx (cloneArgv argv) := by
  simp only [List.mem_cons, List.not_mem_nil, or_false, not_or] at hown
  simp [rewriteArgv, hneeds, hown, hdb]

/-! ## Pieces of a fan-out -/

/-- The indexes of a group are those of its keys. -/
theorem mem_groupBySlot (hg : g ∈ groupBySlot keys slotFn) :
    g.index = (keys.zipIdx.filter fun x => slotFn x.1 = g.slot).map Prod.snd := by
  obtain ⟨x, hx, rfl⟩ := List.mem_map.1 hg
  rw [(Group.mem_groupBy.1 hx).2]

theorem nodup_slots (keys : List Slice) (slotFn : Slice → Nat) :
    ((groupBySlot keys slotFn).map KeyGroup.slot).Nodup := by
  rw [groupBySlot, List.map_map]
  exact Group.nodup_keys _ _

/-- Every key has a group. -/
theorem slot_mem_groupBySlot (slotFn : Slice → Nat) {a : Slice}
    (h : a ∈ keys) : slotFn a ∈ (groupBySlot keys slotFn).map KeyGroup.slot := by
  obtain ⟨i, hi⟩ := List.mem_iff_getElem?.1 h
  have hmem : (a, i) ∈ keys.zipIdx := List.mem_zipIdx_iff_getElem?.2 hi
  obtain ⟨x, hx, hxs⟩ := Group.exists_group (f := fun k : Slice × Nat => slotFn k.1) hmem
  exact List.mem_map.2 ⟨_, List.mem_map_of_mem hx, hxs⟩

theorem filterMap_zipIdx {α : Type} (p : α → Bool) (xs : List α) :
    ((xs.zipIdx.filter fun x => p x.1).filterMap fun x => xs[x.2]?) = xs.filter p := by
  have hget : ∀ x ∈ xs.zipIdx.filter (fun x => p x.1), xs[x.2]? = some x.1 := by
    intro x hx
    exact List.mem_zipIdx_iff_getElem?.1 (List.mem_filter.1 hx).1
  rw [List.filterMap_congr hget]
  refine (congrFun List.filterMap_eq_map _).trans ?_
  have hfst : (xs.zipIdx.map Prod.fst).filter p = xs.filter p := by rw [List.zipIdx_map_fst]
  rw [List.filter_map] at hfst
  exact hfst

/-- The positions of the keys of a group. -/
theorem filterMap_index {get : Nat → Slice} (hg : g ∈ groupBySlot (idx.map get) slotFn) :
    (g.index.filterMap fun ki => idx[ki]?) = idx.filter fun j => slotFn (get j) = g.slot := by
  rw [mem_groupBySlot hg, List.zipIdx_map, List.filter_map, List.map_map, List.filterMap_map]
  exact filterMap_zipIdx (fun j => slotFn (get j) = g.slot) idx

/-- The commands that are split. -/
def splitNames : List String := ["DEL", "UNLINK", "EXISTS", "TOUCH", "MGET", "MSET"]

theorem lookup_split {name : String} (h : name ∈ splitNames) :
    ∃ m, lookup name = some m ∧ m.keys = spec 1 (-1) (if name = "MSET" then 2 else 1) ∧
      (m.fanout = .mset ↔ name = "MSET") := by
  have hall : ∀ w ∈ splitNames, ∃ m ∈ lookup w,
      m.keys = spec 1 (-1) (if w = "MSET" then 2 else 1) ∧ (m.fanout = .mset ↔ w = "MSET") := by
    decide +kernel
  exact hall name h

theorem keyIndexes_split (h : nameOf argv ∈ splitNames) :
    keyIndexes argv =
      some (indexesBySpec argv (spec 1 (-1) (if nameOf argv = "MSET" then 2 else 1))) := by
  have hargv : argv ≠ [] := by
    rintro rfl
    exact absurd h (by decide)
  have hspecial : nameOf argv ∉ specialNames :=
    (by decide : ∀ w ∈ splitNames, w ∉ specialNames) _ h
  obtain ⟨m, hm, hkeys, -⟩ := lookup_split h
  rw [keyIndexes_of_table hargv hspecial, hm]
  dsimp only
  rw [hkeys]

theorem indexesBySpec_congr (h : argv.length = argv'.length) (sp : KeySpec) :
    indexesBySpec argv sp = indexesBySpec argv' sp := by
  unfold indexesBySpec
  rw [h]

end RespProxy.Command
