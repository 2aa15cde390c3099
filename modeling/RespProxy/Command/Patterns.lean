import RespProxy.Command.Arguments
import RespProxy.Command.Prefixes

/-! # The pattern of `SCAN` and `KEYS`

A backend reads the options of `SCAN` in pairs and goes by the last `MATCH`. `rewriteSCAN`
looks for the word `MATCH` at any position and puts the prefix of the database behind the
first one, so the two part where `MATCH` is repeated, where the operand of `TYPE` spells
`MATCH`, and where that operand is empty: the copy of an empty argument is nil, which no
backend takes.

* `effectivePattern`: the pattern a backend goes by, if it takes the request at all;
* `Glob.starts_with`: a pattern that starts with `dbN:` selects keys of database `N` only;
* `effectivePattern_rewritten_iff`: when the pattern behind the rewriting is the client's
  with `dbN:` in front.
-/

namespace RespProxy.Command

open Resp

variable {db : Nat}
variable {os : List ScanOption} {v w : Slice}
variable {o : ScanOption} {rest opts argv : Argv}

/-! ## What the backend reads -/

/-- An option of `SCAN`. -/
inductive ScanOption where
  | count (n : Int)
  | pattern (p : Bytes)
  | kind (t : Bytes)
deriving DecidableEq, Repr

/-- One option: `COUNT n`, `MATCH p` or `TYPE t`. A null argument is a protocol error. -/
def scanOption (w v : Slice) : Option ScanOption :=
  if v = .nil then none
  else if w.fold "COUNT" then
    v.atoi.bind fun n => if 1 ≤ n then some (.count n) else none
  else if w.fold "MATCH" then some (.pattern v.bytes)
  else if w.fold "TYPE" then some (.kind v.bytes)
  else none

/-- The options, in pairs. -/
def scanOptions : Argv → Option (List ScanOption)
  | [] => some []
  | [_] => none
  | w :: v :: rest => (scanOption w v).bind fun o => (scanOptions rest).map (o :: ·)

/-- The last `MATCH`. -/
def lastPattern : List ScanOption → Option Bytes
  | [] => none
  | .pattern p :: os => (lastPattern os).or (some p)
  | .count _ :: os | .kind _ :: os => lastPattern os

/-- The pattern that a backend goes by; `none` if it refuses the request. -/
def effectivePattern : Argv → Option Bytes
  | cmd :: a :: opts =>
    if upperName cmd.bytes = "KEYS" then if opts = [] ∧ a ≠ .nil then some a.bytes else none
    else if upperName cmd.bytes = "SCAN" ∧ (Decimal.parseNat a.bytes).isSome = true then
      (scanOptions opts).map fun os => (lastPattern os).getD (lit "*")
    else none
  | _ => none

/-- A matcher of glob patterns: bytes other than `*`, `?`, `[` and the backslash stand for
themselves. -/
structure Glob where
  selects : Bytes → Bytes → Prop
  literal : ∀ b p k, b ∉ [42, 63, 91, 92] → selects (b :: p) k → ∃ k', k = b :: k' ∧ selects p k'

theorem Glob.starts_with (G : Glob) {front p k : Bytes} (hfront : ∀ b ∈ front, b ∉ [42, 63, 91, 92])
    (h : G.selects (front ++ p) k) : front <+: k := by
  induction front generalizing k with
  | nil => exact List.nil_prefix
  | cons b front ih =>
    obtain ⟨k', rfl, hk'⟩ := G.literal b (front ++ p) k (hfront b List.mem_cons_self) h
    exact (List.cons_prefix_cons).2 ⟨rfl, ih (fun c hc => hfront c (List.mem_cons_of_mem b hc)) hk'⟩

theorem dbPrefix_literal (hdb : db ≠ 0) : ∀ b ∈ dbPrefix db, b ∉ [42, 63, 91, 92] := by
  intro b hb
  rw [dbPrefix_of_ne_zero hdb, List.mem_append, List.mem_append] at hb
  have hdigit : ∀ c : UInt8, Decimal.isDigit c = true → c ∉ [42, 63, 91, 92] := by
    intro c hc hmem
    simp only [List.mem_cons, List.not_mem_nil, or_false] at hmem
    rcases hmem with rfl | rfl | rfl | rfl <;> exact absurd hc (by decide)
  rcases hb with (hb | hb) | hb
  · have hall : ∀ c ∈ lit "db", c ∉ [42, 63, 91, 92] := by decide +kernel
    exact hall b hb
  · exact hdigit b (Decimal.isDigit_of_mem_ofNat hb)
  · have hall : ∀ c ∈ lit ":", c ∉ [42, 63, 91, 92] := by decide +kernel
    exact hall b hb

/-! ## The options in a copy -/

/-- An operand that a copy loses: the empty one of `MATCH` or `TYPE`. -/
def ScanOption.isEmpty : ScanOption → Bool
  | .count _ => false
  | .pattern v | .kind v => v.isEmpty

def ScanOption.isPattern : ScanOption → Bool
  | .pattern _ => true
  | .count _ | .kind _ => false

/-- What the first option is, by the words of the grammar. -/
inductive ScanPair (w v : Slice) : ScanOption → Prop
  | count {n : Int} (hw : w.fold "COUNT" = true) (hv : v.atoi = some n) (hn : 1 ≤ n) :
    ScanPair w v (.count n)
  | pattern (hw : w.fold "MATCH" = true) (hc : w.fold "COUNT" = false) :
      ScanPair w v (.pattern v.bytes)
  | kind (hw : w.fold "TYPE" = true) (hc : w.fold "COUNT" = false) (hm : w.fold "MATCH" = false) :
    ScanPair w v (.kind v.bytes)

theorem scanOption_eq_some_iff :
    scanOption w v = some o ↔ v ≠ .nil ∧ ScanPair w v o := by
  unfold scanOption
  constructor
  · intro h
    split at h
    · cases h
    next hnil =>
    refine ⟨hnil, ?_⟩
    split at h
    · next hw =>
      obtain ⟨n, hn, hpos⟩ := Option.bind_eq_some_iff.1 h
      split at hpos
      · next hle =>
        cases hpos
        exact .count hw hn hle
      · cases hpos
    next hc =>
    split at h
    · next hw =>
      cases h
      exact .pattern hw (Bool.eq_false_iff.2 hc)
    next hm =>
    split at h
    · next hw =>
      cases h
      exact .kind hw (Bool.eq_false_iff.2 hc) (Bool.eq_false_iff.2 hm)
    · cases h
  · rintro ⟨hnil, hpair⟩
    rw [if_neg hnil]
    cases hpair with
    | count hw hv hn => rw [if_pos hw, hv, Option.bind_some, if_pos hn]
    | pattern hw hc => rw [if_neg (by simp [hc]), if_pos hw]
    | kind hw hc hm => rw [if_neg (by simp [hc]), if_neg (by simp [hm]), if_pos hw]

theorem cloneBytes_eq_nil_iff : cloneBytes v = .nil ↔ v.bytes = [] := by
  unfold cloneBytes Slice.ofAppend
  split <;> simp_all

/-- A copied option is the option, or none if its operand was empty. -/
theorem scanOption_cloneBytes (h : scanOption w v = some o) :
    scanOption (cloneBytes w) (cloneBytes v) = if o.isEmpty then none else some o := by
  obtain ⟨-, hpair⟩ := scanOption_eq_some_iff.1 h
  split
  · next hempty =>
    have hnil : cloneBytes v = .nil := by
      rw [cloneBytes_eq_nil_iff]
      cases hpair with
      | count hw hv hn => cases hempty
      | pattern hw hc => exact List.isEmpty_iff.1 hempty
      | kind hw hc hm => exact List.isEmpty_iff.1 hempty
    rw [scanOption, if_pos hnil]
  · next hfull =>
    rw [scanOption_eq_some_iff, ne_eq, cloneBytes_eq_nil_iff]
    cases hpair with
    | count hw hv hn =>
      refine ⟨?_, .count (by rwa [fold_cloneBytes]) (by rwa [atoi_cloneBytes]) hn⟩
      intro hnil
      rw [Slice.atoi, hnil] at hv
      cases hv
    | pattern hw hc =>
      refine ⟨fun hnil => hfull (List.isEmpty_iff.2 hnil), ?_⟩
      rw [← bytes_cloneBytes v]
      exact .pattern (by rwa [fold_cloneBytes]) (by rwa [fold_cloneBytes])
    | kind hw hc hm =>
      refine ⟨fun hnil => hfull (List.isEmpty_iff.2 hnil), ?_⟩
      rw [← bytes_cloneBytes v]
      exact .kind (by rwa [fold_cloneBytes]) (by rwa [fold_cloneBytes]) (by rwa [fold_cloneBytes])

theorem scanOptions_cons (h : scanOptions (w :: v :: rest) = some os) :
    ∃ o os', os = o :: os' ∧ scanOption w v = some o ∧ scanOptions rest = some os' := by
  rw [scanOptions] at h
  obtain ⟨o, ho, hrest⟩ := Option.bind_eq_some_iff.1 h
  obtain ⟨os', hos', rfl⟩ := Option.map_eq_some_iff.1 hrest
  exact ⟨o, os', rfl, ho, hos'⟩

theorem scanOptions_cloneArgv (h : scanOptions opts = some os) :
    scanOptions (cloneArgv opts) = if os.any ScanOption.isEmpty then none else some os := by
  induction opts using scanOptions.induct generalizing os with
  | case1 =>
    cases h
    rfl
  | case2 a => cases h
  | case3 w v rest ih =>
    obtain ⟨o, os', rfl, ho, hos'⟩ := scanOptions_cons h
    have hrest := ih hos'
    rw [cloneArgv] at hrest
    rw [cloneArgv, List.map_cons, List.map_cons, scanOptions, scanOption_cloneBytes ho, hrest]
    rw [List.any_cons]
    cases o.isEmpty <;> cases os'.any ScanOption.isEmpty <;> rfl

/-! ## The options behind the rewriting -/

/-- The options as `rewriteSCAN` leaves them. -/
def placedOptions (db : Nat) (opts : Argv) : Argv :=
  (scanMatch db (cloneArgv opts)).getD
    (cloneArgv opts ++ [arg "MATCH", .mk (dbPrefix db ++ lit "*")])

theorem rewriteSCAN_cons (hdb : db ≠ 0) (cmd cursor : Slice) (opts : Argv) :
    rewriteSCAN (cmd :: cursor :: opts) db =
      cloneBytes cmd :: cloneBytes cursor :: placedOptions db opts := by
  have hopts : (cloneArgv (cmd :: cursor :: opts)).drop 2 = cloneArgv opts := rfl
  rw [rewriteSCAN, if_neg hdb, hopts, placedOptions]
  cases scanMatch db (cloneArgv opts) <;> rfl

theorem scanMatch_cons {a : Slice} (ha : a.fold "MATCH" = false) (l : Argv) :
    scanMatch db (a :: l) = (scanMatch db l).map (a :: ·) := by
  cases l with
  | nil => rfl
  | cons p rest => rw [scanMatch, if_neg (by simp [ha])]

theorem placedOptions_cons (hw : w.fold "MATCH" = false) (hv : v.fold "MATCH" = false)
    (rest : Argv) :
    placedOptions db (w :: v :: rest) = cloneBytes w :: cloneBytes v :: placedOptions db rest := by
  unfold placedOptions
  rw [cloneArgv, List.map_cons, List.map_cons, scanMatch_cons (by rwa [fold_cloneBytes]),
    scanMatch_cons (by rwa [fold_cloneBytes])]
  show _ = cloneBytes w :: cloneBytes v :: (scanMatch db (rest.map cloneBytes)).getD _
  cases scanMatch db (rest.map cloneBytes) <;> rfl

theorem placedOptions_match (hw : w.fold "MATCH" = true) (rest : Argv) :
    placedOptions db (w :: v :: rest) =
      cloneBytes w :: prefixKey db (cloneBytes v) :: cloneArgv rest := by
  unfold placedOptions
  rw [cloneArgv, List.map_cons, List.map_cons, scanMatch, if_pos (by rwa [fold_cloneBytes])]
  rfl

/-- An operand that spells `MATCH`: the word behind it gets the prefix. -/
theorem placedOptions_operand {x : Slice} (hw : w.fold "MATCH" = false)
    (hv : v.fold "MATCH" = true) (rest : Argv) :
    placedOptions db (w :: v :: x :: rest) =
      cloneBytes w :: cloneBytes v :: prefixKey db (cloneBytes x) :: cloneArgv rest := by
  unfold placedOptions
  rw [cloneArgv, List.map_cons, List.map_cons, List.map_cons,
    scanMatch_cons (by rwa [fold_cloneBytes]), scanMatch, if_pos (by rwa [fold_cloneBytes])]
  rfl

theorem placedOptions_last (hw : w.fold "MATCH" = false) :
    placedOptions db [w, v] = cloneBytes w :: cloneBytes v :: placedOptions db [] := by
  unfold placedOptions
  rw [cloneArgv, List.map_cons, List.map_cons, scanMatch_cons (by rwa [fold_cloneBytes])]
  rfl

/-- A word with the prefix of a database is no option. -/
theorem fold_prefixKey (hdb : db ≠ 0) (a : Slice) {w : String}
    (hw : (lit w).head?.map lowerByte ≠ some 100) : (prefixKey db a).fold w = false := by
  rw [Slice.fold, equalFoldASCII, decide_eq_false_iff_not]
  intro h
  apply hw
  rw [← List.head?_map, ← h, bytes_prefixKey, dbPrefix_of_ne_zero hdb]
  rfl

/-- Translation does not make a command block: a key with a prefix is not the word `BLOCK`. -/
theorem isBlocking_rewriteArgv (h : rewriteArgv argv db = some out)
    (hblock : isBlocking argv = false) : isBlocking out = false := by
  by_cases hsame : db = 0 ∨ ¬ needsDBRewrite argv
  · rw [rewriteArgv, if_pos hsame] at h
    cases h
    exact hblock
  obtain ⟨hdb, hneeds⟩ : db ≠ 0 ∧ needsDBRewrite argv = true := by simpa using hsame
  have hargv : argv ≠ [] := by
    rintro rfl
    cases hneeds
  simp only [isBlocking, hargv, ne_eq, not_false_eq_true, decide_true, Bool.true_and,
    Bool.or_eq_false_iff, Bool.and_eq_false_iff, decide_eq_false_iff_not,
    Option.isSome_eq_false_iff, Option.isNone_iff_eq_none] at hblock
  simp only [isBlocking, nameOf_rewriteArgv h, Bool.and_eq_false_iff, Bool.or_eq_false_iff,
    decide_eq_false_iff_not, Option.isSome_eq_false_iff, Option.isNone_iff_eq_none]
  refine .inr ⟨hblock.1, ?_⟩
  by_cases hread : nameOf argv ∈ ["XREAD", "XREADGROUP"]
  · have hnone := hblock.2.resolve_left (not_not.2 hread)
    have hall : ∀ w ∈ ["XREAD", "XREADGROUP"], w ∉ ["COPY", "SCAN", "KEYS", "SORT", "MOVE"] := by
      decide
    rw [rewriteArgv_of_table hdb hneeds (hall _ hread), keyIndexes_cloneArgv] at h
    obtain ⟨idx, hidx, rfl⟩ := Option.map_eq_some_iff.1 h
    refine .inr (findFold_eq_none_iff.2 fun i hi hlt => ?_)
    have hlen : i < argv.length := by simpa [cloneArgv] using hlt
    have hkeep := findFold_eq_none_iff.1 hnone i hi hlen
    rw [List.getD_eq_getElem?_getD, prefixedAt_prefixAt (keyIndexes_ascends hidx) i,
      List.getElem?_eq_getElem hlen]
    rw [List.getD_eq_getElem?_getD, List.getElem?_eq_getElem hlen] at hkeep
    dsimp only [Option.map_some, Option.getD_some] at hkeep ⊢
    split
    · exact fold_prefixKey hdb _ (by decide)
    · rw [fold_cloneBytes]
      exact hkeep
  · exact .inl hread
theorem scanOption_prefixKey (hdb : db ≠ 0) (a v : Slice) :
    scanOption (prefixKey db a) v = none := by
  have hcount := fold_prefixKey hdb a (w := "COUNT") (by decide)
  have hmatch := fold_prefixKey hdb a (w := "MATCH") (by decide)
  have htype := fold_prefixKey hdb a (w := "TYPE") (by decide)
  simp [scanOption, hcount, hmatch, htype]

/-! ## When the pattern is the client's -/

/-- The word that `rewriteSCAN` finds first is the only `MATCH`, or there is neither; and
no operand of `TYPE` is empty. An operand of `TYPE` that spells `MATCH` is found before a
later option, and not if it is the last argument. -/
def MatchFound : List ScanOption → Prop
  | [] => True
  | .count _ :: os => MatchFound os
  | .pattern _ :: os => ∀ o ∈ os, o.isPattern = false ∧ o.isEmpty = false
  | .kind t :: os =>
    t ≠ [] ∧ (equalFoldASCII t (lit "MATCH") = true → os = []) ∧ MatchFound os

theorem lastPattern_eq_none_iff :
    lastPattern os = none ↔ ∀ o ∈ os, o.isPattern = false := by
  induction os with
  | nil => simp [lastPattern]
  | cons o os ih =>
    cases o with
    | count n => simp [lastPattern, ih, ScanOption.isPattern]
    | pattern p => simp [lastPattern, ScanOption.isPattern]
    | kind t => simp [lastPattern, ih, ScanOption.isPattern]

theorem dbPrefix_append_ne (hdb : db ≠ 0) (p : Bytes) : dbPrefix db ++ p ≠ p := by
  intro h
  have hlen := congrArg List.length h
  rw [dbPrefix_of_ne_zero hdb] at hlen
  simp only [List.length_append] at hlen
  have hcolon : (lit ":").length = 1 := rfl
  omega

/-- The pattern that a backend goes by for these options. -/
def patternOf (opts : Argv) : Option Bytes :=
  (scanOptions opts).map fun os => (lastPattern os).getD (lit "*")

theorem patternOf_cons (h : scanOption w v = some o)
    (ho : o.isPattern = false) (rest : Argv) : patternOf (w :: v :: rest) = patternOf rest := by
  unfold patternOf
  rw [scanOptions, h, Option.bind_some, Option.map_map]
  congr 1
  funext os
  cases o with
  | count n => rfl
  | pattern p => cases ho
  | kind t => rfl

theorem patternOf_refused (h : scanOption w v = none) (rest : Argv) :
    patternOf (w :: v :: rest) = none := by
  rw [patternOf, scanOptions, h]
  rfl

/-- A first `MATCH` has the last word if there is no other. -/
theorem patternOf_match_iff (hdb : db ≠ 0)
    (hw : w.fold "MATCH" = true) (hc : w.fold "COUNT" = false) (h : scanOptions rest = some os) :
    patternOf (placedOptions db (w :: v :: rest)) =
        some (dbPrefix db ++ (lastPattern (.pattern v.bytes :: os)).getD (lit "*")) ↔
      ∀ o ∈ os, o.isPattern = false ∧ o.isEmpty = false := by
  have hfirst : scanOption (cloneBytes w) (prefixKey db (cloneBytes v)) =
      some (.pattern (dbPrefix db ++ v.bytes)) := by
    rw [scanOption_eq_some_iff, ← bytes_cloneBytes v, ← bytes_prefixKey]
    refine ⟨?_, .pattern (by rwa [fold_cloneBytes]) (by rwa [fold_cloneBytes])⟩
    rw [prefixKey, if_neg hdb]
    intro hnil
    cases hnil
  rw [placedOptions_match hw, patternOf, scanOptions, hfirst, Option.bind_some,
    scanOptions_cloneArgv h]
  by_cases hany : os.any ScanOption.isEmpty = true
  · -- an empty operand is lost in the copy
    rw [if_pos hany]
    obtain ⟨o, ho, hempty⟩ := List.any_eq_true.1 hany
    refine ⟨fun h => by simp at h, fun hall => ?_⟩
    rw [(hall o ho).2] at hempty
    cases hempty
  · have hfull : ∀ o ∈ os, o.isEmpty = false :=
      fun o ho => Bool.eq_false_iff.2 fun he => hany (List.any_eq_true.2 ⟨o, ho, he⟩)
    rw [if_neg hany]
    simp only [Option.map_some, lastPattern, Option.some.injEq]
    cases hlast : lastPattern os with
    | none =>
      have hno := lastPattern_eq_none_iff.1 hlast
      simp only [Option.none_or, Option.getD_some, true_iff]
      exact fun o ho => ⟨hno o ho, hfull o ho⟩
    | some q =>
      simp only [Option.some_or, Option.getD_some]
      refine ⟨fun h => absurd h.symm (dbPrefix_append_ne hdb q), fun hall => ?_⟩
      rw [lastPattern_eq_none_iff.2 fun o ho => (hall o ho).1] at hlast
      cases hlast

/-- An operand that reads as `MATCH` is taken for the option, with the word behind it. -/
theorem patternOf_operand_iff (hdb : db ≠ 0)
    (ho : scanOption w v = some (.kind v.bytes)) (hm : w.fold "MATCH" = false)
    (hv : v.fold "MATCH" = true) (h : scanOptions rest = some os) :
    patternOf (placedOptions db (w :: v :: rest)) =
        some (dbPrefix db ++ (lastPattern (.kind v.bytes :: os)).getD (lit "*")) ↔
      MatchFound (.kind v.bytes :: os) := by
  have hclone := scanOption_cloneBytes ho
  cases rest with
  | nil =>
    -- the last argument has nothing behind it that could be taken for its operand
    cases h
    have hne : v.bytes ≠ [] := by
      intro hnil
      rw [Slice.fold, hnil] at hv
      exact absurd hv (by decide)
    rw [ScanOption.isEmpty, List.isEmpty_eq_false_iff.2 hne] at hclone
    rw [placedOptions_last hm, patternOf_cons hclone rfl]
    exact iff_of_true rfl ⟨hne, fun _ => rfl, trivial⟩
  | cons x rest =>
    -- the prefix makes an unknown option of the word that comes next
    cases rest with
    | nil => cases h
    | cons y rest =>
      obtain ⟨o, os', rfl, -⟩ := scanOptions_cons h
      refine iff_of_false ?_ fun hfound => List.cons_ne_nil o os' (hfound.2.1 hv)
      rw [placedOptions_operand hm hv, patternOf, scanOptions, cloneArgv, List.map_cons,
        scanOptions, scanOption_prefixKey hdb]
      simp

/-- **The options behind the rewriting.** By pairs, as the backend reads them. -/
theorem patternOf_placedOptions_iff (hdb : db ≠ 0) (h : scanOptions opts = some os) :
    patternOf (placedOptions db opts) = some (dbPrefix db ++ (lastPattern os).getD (lit "*")) ↔
      MatchFound os := by
  induction opts using scanOptions.induct generalizing os with
  | case1 =>
    cases h
    exact iff_of_true rfl trivial
  | case2 a => cases h
  | case3 w v rest ih =>
    obtain ⟨o, os', rfl, ho, hos'⟩ := scanOptions_cons h
    have hclone := scanOption_cloneBytes ho
    obtain ⟨-, hpair⟩ := scanOption_eq_some_iff.1 ho
    cases hpair with
    | count hw hv hn =>
      have hw' : w.fold "MATCH" = false := Slice.fold_other hw (by decide)
      have hv' : v.fold "MATCH" = false :=
        Slice.fold_of_startsNumber (Slice.startsNumber_of_atoi hv) (by decide)
      have hrest := ih hos'
      rw [placedOptions_cons hw' hv', patternOf_cons hclone rfl]
      exact hrest
    | pattern hw hc => exact patternOf_match_iff hdb hw hc hos'
    | kind hw hc hm =>
      -- the loop of `rewriteSCAN` goes by single words, so it can take the operand for `MATCH`
      by_cases hv : v.fold "MATCH" = true
      · exact patternOf_operand_iff hdb ho hm hv hos'
      · have hv' : v.fold "MATCH" = false := Bool.eq_false_iff.2 hv
        rw [placedOptions_cons hm hv']
        by_cases hempty : v.bytes = []
        · rw [patternOf_refused (by rw [hclone, ScanOption.isEmpty, hempty]; rfl)]
          exact iff_of_false (by simp) fun hfound => hfound.1 hempty
        · rw [ScanOption.isEmpty, List.isEmpty_eq_false_iff.2 hempty] at hclone
          have hrest := ih hos'
          rw [patternOf_cons hclone rfl]
          refine hrest.trans ⟨fun hfound => ⟨hempty, fun hfold => absurd hfold hv, hfound⟩, ?_⟩
          exact fun hfound => hfound.2.2

/-! ## Requests -/

/-- What a backend takes is `KEYS` with a pattern, or `SCAN` with a cursor and options. -/
theorem effectivePattern_cases {p : Bytes} (h : effectivePattern argv = some p) :
    (nameOf argv = "KEYS" ∧ ∃ cmd a, argv = [cmd, a] ∧ p = a.bytes) ∨
    (nameOf argv = "SCAN" ∧ ∃ cmd cursor opts, argv = cmd :: cursor :: opts ∧
      (Decimal.parseNat cursor.bytes).isSome = true ∧ patternOf opts = some p) := by
  rcases argv with _ | ⟨cmd, _ | ⟨a, opts⟩⟩
  · cases h
  · cases h
  · rw [effectivePattern] at h
    split at h
    · next hname =>
      split at h
      · next hargs =>
        cases h
        obtain ⟨rfl, -⟩ := hargs
        exact .inl ⟨hname, cmd, a, rfl, rfl⟩
      · cases h
    · split at h
      · next hscan => exact .inr ⟨hscan.1, cmd, a, opts, rfl, hscan.2, h⟩
      · cases h

theorem effectivePattern_scan {cmd cursor : Slice} (hname : upperName cmd.bytes = "SCAN")
    (hcursor : (Decimal.parseNat cursor.bytes).isSome = true) (opts : Argv) :
    effectivePattern (cmd :: cursor :: opts) = patternOf opts := by
  rw [effectivePattern, if_neg (by rw [hname]; decide), if_pos ⟨hname, hcursor⟩]
  rfl

theorem rewriteArgv_scan (hdb : db ≠ 0) (hname : nameOf argv = "SCAN") :
    rewriteArgv argv db = some (rewriteSCAN argv db) := by
  have hargv : argv ≠ [] := by
    rintro rfl
    exact absurd hname (by decide)
  have hneeds : needsDBRewrite argv = true := by simp [needsDBRewrite, hargv, hname, noRewrite]
  simp [rewriteArgv, hdb, hneeds, hname]

theorem rewriteArgv_keys (hdb : db ≠ 0) (hname : nameOf argv = "KEYS") :
    rewriteArgv argv db = some (prefixFirst argv db) := by
  have hargv : argv ≠ [] := by
    rintro rfl
    exact absurd hname (by decide)
  have hneeds : needsDBRewrite argv = true := by simp [needsDBRewrite, hargv, hname, noRewrite]
  simp [rewriteArgv, hdb, hneeds, hname]

/-- The pattern behind the rewriting is the client's with the prefix in front. -/
def ConfinedPattern (db : Nat) (argv : Argv) (p : Bytes) : Prop :=
  ∃ out, rewriteArgv argv db = some out ∧ effectivePattern out = some (dbPrefix db ++ p)

theorem confinedPattern_keys (hdb : db ≠ 0) {cmd a : Slice} (hname : upperName cmd.bytes = "KEYS") :
    ConfinedPattern db [cmd, a] a.bytes := by
  refine ⟨_, rewriteArgv_keys hdb hname, ?_⟩
  have hout : prefixFirst [cmd, a] db = [cloneBytes cmd, prefixKey db (cloneBytes a)] := rfl
  have hne : prefixKey db (cloneBytes a) ≠ .nil := by
    rw [prefixKey, if_neg hdb]
    intro hnil
    cases hnil
  rw [hout, effectivePattern, if_pos (by rwa [bytes_cloneBytes]), if_pos ⟨rfl, hne⟩,
    bytes_prefixKey,
    bytes_cloneBytes]

theorem confinedPattern_scan_iff (hdb : db ≠ 0) {cmd cursor : Slice}
    (hname : upperName cmd.bytes = "SCAN")
    (hcursor : (Decimal.parseNat cursor.bytes).isSome = true) (hos : scanOptions opts = some os) :
    ConfinedPattern db (cmd :: cursor :: opts) ((lastPattern os).getD (lit "*")) ↔
      MatchFound os := by
  have hout : effectivePattern (cloneBytes cmd :: cloneBytes cursor :: placedOptions db opts) =
      patternOf (placedOptions db opts) :=
    effectivePattern_scan (by rwa [bytes_cloneBytes]) (by rwa [bytes_cloneBytes]) _
  rw [← patternOf_placedOptions_iff hdb hos, ← hout, ← rewriteSCAN_cons hdb]
  have hsome : rewriteArgv (cmd :: cursor :: opts) db =
      some (rewriteSCAN (cmd :: cursor :: opts) db) :=
    rewriteArgv_scan hdb hname
  constructor
  · rintro ⟨out, hrew, hpat⟩
    rw [hsome] at hrew
    cases hrew
    exact hpat
  · exact fun hpat => ⟨_, hsome, hpat⟩

/-- **The pattern in a virtual database.** For a request that the backend takes, the pattern
behind the rewriting is `dbN:` and the client's, and so selects keys of the database only:
always for `KEYS`, and for `SCAN` if the word found is the only `MATCH`. -/
theorem effectivePattern_rewritten_iff (hdb : 0 < db) {argv : Argv} {p : Bytes}
    (h : effectivePattern argv = some p) :
    (∃ out, rewriteArgv argv db = some out ∧ effectivePattern out = some (dbPrefix db ++ p) ∧
      ∀ (G : Glob) (q k : Bytes), effectivePattern out = some q → G.selects q k →
        dbPrefix db <+: k) ↔
      (nameOf argv = "SCAN" → ∀ os, scanOptions (argv.drop 2) = some os → MatchFound os) := by
  have hdb0 : db ≠ 0 := by omega
  -- what a pattern with the prefix selects has the prefix
  have hconfined : (∃ out, rewriteArgv argv db = some out ∧
      effectivePattern out = some (dbPrefix db ++ p) ∧ ∀ (G : Glob) (q k : Bytes),
        effectivePattern out = some q → G.selects q k → dbPrefix db <+: k) ↔
      ConfinedPattern db argv p := by
    constructor
    · rintro ⟨out, hout, hpat, -⟩
      exact ⟨out, hout, hpat⟩
    · rintro ⟨out, hout, hpat⟩
      refine ⟨out, hout, hpat, fun G q k hq hk => ?_⟩
      rw [hpat] at hq
      cases hq
      exact G.starts_with (dbPrefix_literal hdb0) hk
  rw [hconfined]
  rcases effectivePattern_cases h with ⟨hname, cmd, a, rfl, rfl⟩ |
    ⟨hname, cmd, cursor, opts, rfl, hcursor, hpat⟩
  · refine iff_of_true (confinedPattern_keys hdb0 hname) fun hscan => ?_
    rw [hname] at hscan
    exact absurd hscan (by decide)
  · obtain ⟨os, hos, rfl⟩ := Option.map_eq_some_iff.1 hpat
    rw [confinedPattern_scan_iff hdb0 hname hcursor hos]
    constructor
    · intro hfound _ os' hos'
      have hsame : some os = some os' := hos.symm.trans hos'
      cases hsame
      exact hfound
    · exact fun hall => hall hname os hos

/-- A pattern between other options, in database 2. -/
theorem effectivePattern_rewritten_between :
    ∃ out, rewriteArgv [arg "scan", arg "0", arg "COUNT", arg "5", arg "match", arg "u:*",
        arg "TYPE", arg "string"] 2 = some out ∧
      effectivePattern out = some (lit "db2:u:*") := by
  have hpat : effectivePattern [arg "scan", arg "0", arg "COUNT", arg "5", arg "match", arg "u:*",
      arg "TYPE", arg "string"] = some (lit "u:*") := by
    decide
  obtain ⟨out, hout, hconf, -⟩ := (effectivePattern_rewritten_iff (by decide : 0 < 2) hpat).2 (by
    intro _ os hos
    have hread : scanOptions [arg "COUNT", arg "5", arg "match", arg "u:*", arg "TYPE",
        arg "string"] = some [.count 5, .pattern (lit "u:*"), .kind (lit "string")] := by
      decide
    have hsame := hread.symm.trans hos
    cases hsame
    show ∀ o ∈ [ScanOption.kind (lit "string")], o.isPattern = false ∧ o.isEmpty = false
    decide)
  exact ⟨out, hout, hconf⟩

/-- A second `MATCH` gets no prefix: the keys of every database are scanned. -/
theorem scan_repeated_match :
    effectivePattern [arg "SCAN", arg "0", arg "MATCH", arg "a*", arg "MATCH", arg "*"] =
        some (lit "*") ∧
      (rewriteArgv [arg "SCAN", arg "0", arg "MATCH", arg "a*", arg "MATCH", arg "*"] 1).bind
        effectivePattern = some (lit "*") ∧
      lit "*" ≠ dbPrefix 1 ++ lit "*" := by
  decide

end RespProxy.Command
