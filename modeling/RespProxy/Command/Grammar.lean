import RespProxy.Command.Arguments

/-! # Key positions and the grammar of the commands

The grammar of `XREAD`, `XREADGROUP`, `GEORADIUS`, `GEORADIUSBYMEMBER`, `MIGRATE` and `SORT`
is positional: what stands behind an option word is its operand, whatever it spells. The
extractors of `KeyIndexes` look for words at any position.

A request of the grammar (`KeyedRequest`) is put together from options with their operands, and
each of its arguments is marked if it is a key. `XREAD` and `SORT` are always read as the
grammar does: their operands in front of a word are numbers, and `sortKeyIdx` steps over
operands. The others are misled by operands that spell the word they look for
(`KeyedRequest.Plain`); `keyIndexes_grammar_iff` says that nothing else misleads them.
-/

namespace RespProxy.Command

open Resp

/-! ## Words, numbers and marks -/

/-- A spelling, in any case, of one of the words. -/
structure Word (ws : List String) where
  text : Slice
  spells : ws.any (text.fold ·) = true

/-- The name of a command. -/
structure CommandName (name : String) where
  text : Slice
  spells : upperName text.bytes = name

/-- The operand reads as a number: digits, signs and a point, or an infinity. -/
def readsNumber (a : Slice) : Bool := a.startsNumber || a.fold "inf" || a.fold "infinity"

/-- An operand that the grammar wants to be a number. -/
structure Number where
  text : Slice
  reads : readsNumber text = true

theorem Word.fold_other {ws : List String} (w : Word ws) (w' : String)
    (h : ws.all (fun x => !equalFoldASCII (lit x) (lit w')) = true) : w.text.fold w' = false := by
  obtain ⟨x, hx, hfold⟩ := List.any_eq_true.1 w.spells
  refine Slice.fold_other hfold ?_
  simpa using List.all_eq_true.1 h x hx

theorem Word.fold_self {x : String} (w : Word [x]) : w.text.fold x = true := by
  simpa using w.spells

theorem equalFoldASCII_comm (a b : Bytes) : equalFoldASCII a b = equalFoldASCII b a := by
  simp [equalFoldASCII, eq_comm]

/-- A number is not taken for a word that reads as none. -/
theorem Number.fold_word (n : Number) {w : String} (hw : readsNumber (arg w) = false) :
    n.text.fold w = false := by
  have hreads := n.reads
  rw [readsNumber, Bool.or_eq_true, Bool.or_eq_true] at hreads
  rw [readsNumber, Bool.or_eq_false_iff, Bool.or_eq_false_iff] at hw
  obtain ⟨⟨hstarts, hinf⟩, hinfinity⟩ := hw
  rcases hreads with (h | h) | h
  · exact Slice.fold_of_startsNumber h hstarts
  · exact Slice.fold_other h ((equalFoldASCII_comm _ _).trans hinf)
  · exact Slice.fold_other h ((equalFoldASCII_comm _ _).trans hinfinity)

/-- An argument and whether it is a key. -/
abbrev Marked := Slice × Bool

def plainArg (a : Slice) : Marked := (a, false)

def keyArg (a : Slice) : Marked := (a, true)

/-- The positions of the keys, the first argument at `i`. -/
def keysFrom (i : Nat) : List Marked → List Nat
  | [] => []
  | m :: ms => if m.2 then i :: keysFrom (i + 1) ms else keysFrom (i + 1) ms

theorem keysFrom_append (i : Nat) (ms ms' : List Marked) :
    keysFrom i (ms ++ ms') = keysFrom i ms ++ keysFrom (i + ms.length) ms' := by
  induction ms generalizing i with
  | nil => rfl
  | cons m ms ih =>
    have hlen : i + 1 + ms.length = i + (m :: ms).length := by
      rw [List.length_cons]
      omega
    simp only [List.cons_append, keysFrom, ih, hlen]
    split <;> rfl

theorem keysFrom_plain (i : Nat) {ms : List Marked} (h : ∀ m ∈ ms, m.2 = false) :
    keysFrom i ms = [] := by
  induction ms generalizing i with
  | nil => rfl
  | cons m ms ih =>
    rw [keysFrom, if_neg (by simp [h m List.mem_cons_self])]
    exact ih (i + 1) fun m' hm' => h m' (List.mem_cons_of_mem m hm')

theorem positions_cons {i n : Nat} :
    positions i (i + (n + 1)) = i :: positions (i + 1) (i + 1 + n) := by
  unfold positions
  rw [Nat.add_sub_cancel_left, Nat.add_sub_cancel_left, List.range_succ_eq_map, List.map_cons,
    List.map_map]
  congr 1
  refine List.map_congr_left fun j _ => ?_
  show i + (j + 1) = i + 1 + j
  omega

theorem keysFrom_keys (i : Nat) (as : List Slice) :
    keysFrom i (as.map keyArg) = positions i (i + as.length) := by
  induction as generalizing i with
  | nil => simp [keysFrom, positions]
  | cons a as ih =>
    rw [List.length_cons, positions_cons, ← ih]
    rfl

theorem le_of_mem_keysFrom {i j : Nat} {ms : List Marked} (h : j ∈ keysFrom i ms) : i ≤ j := by
  induction ms generalizing i with
  | nil => cases h
  | cons m ms ih =>
    rw [keysFrom] at h
    split at h
    · rcases List.mem_cons.1 h with rfl | h
      · exact Nat.le_refl _
      · exact Nat.le_of_succ_le (ih h)
    · exact Nat.le_of_succ_le (ih h)

/-! ## The grammar -/

/-- Options of `XREAD`. -/
inductive ReadOption where
  | count (w : Word ["COUNT"]) (n : Number)
  | block (w : Word ["BLOCK"]) (ms : Number)

def ReadOption.marked : ReadOption → List Marked
  | .count w n => [plainArg w.text, plainArg n.text]
  | .block w ms => [plainArg w.text, plainArg ms.text]

/-- Options of `XREADGROUP` beside the group. -/
inductive GroupOption where
  | read (o : ReadOption)
  | noack (w : Word ["NOACK"])

def GroupOption.marked : GroupOption → List Marked
  | .read o => o.marked
  | .noack w => [plainArg w.text]

/-- Options of `GEORADIUS` and `GEORADIUSBYMEMBER`. -/
inductive GeoOption where
  | flag (w : Word ["WITHCOORD", "WITHDIST", "WITHHASH", "ASC", "DESC"])
  | count (w : Word ["COUNT"]) (n : Number)
  | countAny (w : Word ["COUNT"]) (n : Number) (any : Word ["ANY"])
  | store (w : Word ["STORE", "STOREDIST"]) (k : Slice)

def GeoOption.marked : GeoOption → List Marked
  | .flag w => [plainArg w.text]
  | .count w n => [plainArg w.text, plainArg n.text]
  | .countAny w n any => [plainArg w.text, plainArg n.text, plainArg any.text]
  | .store w k => [plainArg w.text, keyArg k]

/-- Options of `MIGRATE` in front of the keys. -/
inductive MigrateOption where
  | flag (w : Word ["COPY", "REPLACE"])
  | auth (w : Word ["AUTH"]) (password : Slice)
  | auth2 (w : Word ["AUTH2"]) (user password : Slice)

def MigrateOption.marked : MigrateOption → List Marked
  | .flag w => [plainArg w.text]
  | .auth w password => [plainArg w.text, plainArg password]
  | .auth2 w user password => [plainArg w.text, plainArg user, plainArg password]

/-- The operands that may be anything. -/
def MigrateOption.secrets : MigrateOption → List Slice
  | .flag _ => []
  | .auth _ password => [password]
  | .auth2 _ user password => [user, password]

/-- Options of `SORT`. The pattern of `BY` is no key pattern if it says not to sort, nor is
the `#` of `GET`, which stands for the element itself. -/
inductive SortOption where
  | sortBy (w : Word ["BY"]) (pattern : Slice)
  | limit (w : Word ["LIMIT"]) (offset count : Number)
  | get (w : Word ["GET"]) (pattern : Slice)
  | flag (w : Word ["ASC", "DESC", "ALPHA"])
  | store (w : Word ["STORE"]) (destination : Slice)

def SortOption.marked : SortOption → List Marked
  | .sortBy w p => [plainArg w.text, (p, !p.fold "nosort")]
  | .limit w offset count => [plainArg w.text, plainArg offset.text, plainArg count.text]
  | .get w p => [plainArg w.text, (p, decide (p.bytes ≠ lit "#"))]
  | .flag w => [plainArg w.text]
  | .store w d => [plainArg w.text, keyArg d]

/-- The streams of `XREAD`: the keys, then an id for each. -/
structure Streams where
  word : Word ["STREAMS"]
  streams : List (Slice × Slice)
  some_stream : streams ≠ []

def Streams.marked (s : Streams) : List Marked :=
  plainArg s.word.text ::
    ((s.streams.map fun x => keyArg x.1) ++ s.streams.map fun x => plainArg x.2)

/-- A request of the grammar. `MIGRATE` names one key, or none and a list behind `KEYS`. -/
inductive KeyedRequest where
  | xread (name : CommandName "XREAD") (opts : List ReadOption) (streams : Streams)
  | xreadgroup (name : CommandName "XREADGROUP") (opts : List GroupOption) (w : Word ["GROUP"])
      (group consumer : Slice) (opts' : List GroupOption) (streams : Streams)
  | georadius (name : CommandName "GEORADIUS") (k : Slice) (longitude latitude radius : Number)
      (unit : Word ["M", "KM", "FT", "MI"]) (opts : List GeoOption)
  | georadiusbymember (name : CommandName "GEORADIUSBYMEMBER") (k member : Slice) (radius : Number)
      (unit : Word ["M", "KM", "FT", "MI"]) (opts : List GeoOption)
  | migrate (name : CommandName "MIGRATE") (host port k db timeout : Slice)
      (opts : List MigrateOption)
  | migrateKeys (name : CommandName "MIGRATE") (host port db timeout : Slice)
      (opts : List MigrateOption) (w : Word ["KEYS"]) (k : Slice) (ks : List Slice)
  | sort (name : CommandName "SORT") (k : Slice) (opts : List SortOption)

/-- The arguments of a request with the keys among them. -/
def KeyedRequest.marked : KeyedRequest → List Marked
  | .xread name opts streams =>
    plainArg name.text :: (opts.flatMap ReadOption.marked ++ streams.marked)
  | .xreadgroup name opts w group consumer opts' streams =>
    plainArg name.text :: (opts.flatMap GroupOption.marked ++
      [plainArg w.text, plainArg group, plainArg consumer] ++ opts'.flatMap GroupOption.marked ++
      streams.marked)
  | .georadius name k longitude latitude radius unit opts =>
    [plainArg name.text, keyArg k, plainArg longitude.text, plainArg latitude.text,
      plainArg radius.text,
      plainArg unit.text] ++ opts.flatMap GeoOption.marked
  | .georadiusbymember name k member radius unit opts =>
    [plainArg name.text, keyArg k, plainArg member, plainArg radius.text, plainArg unit.text] ++
      opts.flatMap GeoOption.marked
  | .migrate name host port k db timeout opts =>
    [plainArg name.text, plainArg host, plainArg port, keyArg k, plainArg db, plainArg timeout] ++
      opts.flatMap MigrateOption.marked
  | .migrateKeys name host port db timeout opts w k ks =>
    [plainArg name.text, plainArg host, plainArg port, plainArg (arg ""), plainArg db,
      plainArg timeout] ++
      opts.flatMap MigrateOption.marked ++ plainArg w.text :: (k :: ks).map keyArg
  | .sort name k opts => plainArg name.text :: keyArg k :: opts.flatMap SortOption.marked

def KeyedRequest.argv (r : KeyedRequest) : Argv := r.marked.map Prod.fst

def KeyedRequest.keyPositions (r : KeyedRequest) : List Nat := keysFrom 0 r.marked

/-- The extractors find the keys of the grammar. -/
def KeyedRequest.Found (r : KeyedRequest) : Prop := keyIndexes r.argv = some r.keyPositions

/-- The argument spells `STORE` or `STOREDIST`. -/
def spellsStore (a : Slice) : Bool := a.fold "STORE" || a.fold "STOREDIST"

/-- No key behind `STORE` spells an option that looks for a key, unless it comes last. -/
def StoresPlain : List GeoOption → Prop
  | [] => True
  | .store _ k :: opts => (spellsStore k = true → opts = []) ∧ StoresPlain opts
  | .flag _ :: opts | .count _ _ :: opts | .countAny _ _ _ :: opts => StoresPlain opts

/-- No operand spells the word that is looked for, where it would be taken for it; and the
one key of `MIGRATE` has a name. -/
def KeyedRequest.Plain : KeyedRequest → Prop
  | .xread _ _ _ | .sort _ _ _ => True
  | .xreadgroup _ _ _ group consumer _ _ =>
    group.fold "STREAMS" = false ∧ consumer.fold "STREAMS" = false
  | .georadius _ k _ _ _ _ opts => spellsStore k = false ∧ StoresPlain opts
  | .georadiusbymember _ k member _ _ opts =>
    spellsStore k = false ∧ spellsStore member = false ∧ StoresPlain opts
  | .migrate _ _ _ k _ _ opts =>
    k.bytes ≠ [] ∧ ∀ a ∈ opts.flatMap MigrateOption.secrets, a.fold "KEYS" = false
  | .migrateKeys _ _ _ _ _ opts _ _ _ =>
    ∀ a ∈ opts.flatMap MigrateOption.secrets, a.fold "KEYS" = false

/-! ## Where a word is found -/

section

variable {w : String} {start : Nat} {front back : Argv} {a x : Slice}

theorem findFold_append (hstart : start ≤ front.length)
    (hfront : ∀ x ∈ front.drop start, x.fold w = false) (ha : a.fold w = true) :
    findFold (front ++ a :: back) start w = some front.length := by
  have hnone : (front.drop start).findIdx? (fun a => a.fold w) = none :=
    List.findIdx?_eq_none_iff.2 hfront
  rw [findFold, List.drop_append_of_le_length hstart, List.findIdx?_append, hnone,
    List.findIdx?_cons, if_pos ha]
  simp only [Option.none_or, Option.map_some, List.length_drop, Nat.zero_add, Option.some.injEq]
  omega

/-- An argument in front that spells the word is found first. -/
theorem findFold_front (hx : x ∈ front.drop start) (hfold : x.fold w = true) (back : Argv) :
    ∃ j, findFold (front ++ back) start w = some j ∧ start ≤ j ∧ j < front.length := by
  have hstart : start ≤ front.length := by
    by_contra hlt
    rw [List.drop_eq_nil_of_le (by omega)] at hx
    cases hx
  have hsome : ((front.drop start).findIdx? fun a => a.fold w) ≠ none := by
    intro hnone
    rw [List.findIdx?_eq_none_iff.1 hnone x hx] at hfold
    cases hfold
  obtain ⟨j, hj⟩ := Option.ne_none_iff_exists'.1 hsome
  have hlt := (List.findIdx?_eq_some_iff_getElem.1 hj).1
  rw [List.length_drop] at hlt
  refine ⟨start + j, ?_, Nat.le_add_right _ _, by omega⟩
  rw [findFold, List.drop_append_of_le_length hstart, List.findIdx?_append, hj]
  rfl

theorem positions_ne {b c d e : Nat} (h : b < d) (hde : d < e) : positions b c ≠ positions d e := by
  intro heq
  have hd : d ∈ positions b c := heq ▸ mem_positions.2 ⟨Nat.le_refl d, hde⟩
  have hb : b ∈ positions d e := heq ▸ mem_positions.2 ⟨Nat.le_refl b, by
    have := (mem_positions.1 hd).2
    omega⟩
  have := (mem_positions.1 hb).1
  omega

/-- The keys of `XREAD` are found behind the word, unless it is spelled before. -/
theorem xreadKeyIdx_iff {ks ids : List Slice} (hfront : 1 ≤ front.length)
    (ha : a.fold "STREAMS" = true) (hks : ks ≠ []) (hlen : ids.length = ks.length) :
    xreadKeyIdx (front ++ a :: (ks ++ ids)) =
        positions (front.length + 1) (front.length + 1 + ks.length) ↔
      ∀ x ∈ front.drop 1, x.fold "STREAMS" = false := by
  have hpos : 0 < ks.length := List.length_pos_iff.2 hks
  constructor
  · intro h x hx
    -- an earlier `STREAMS` shifts the keys to the left
    by_contra hfold
    obtain ⟨j, hj, -, hlt⟩ := findFold_front hx (Bool.not_eq_false _ ▸ hfold) (a :: (ks ++ ids))
    rw [xreadKeyIdx, hj] at h
    dsimp only at h
    split at h
    · have hmem : front.length + 1 ∈ positions (front.length + 1) (front.length + 1 + ks.length) :=
        mem_positions.2 ⟨Nat.le_refl _, by omega⟩
      rw [← h] at hmem
      cases hmem
    · exact positions_ne (by omega) (by omega) h
  · intro h
    have hrest : (front ++ a :: (ks ++ ids)).length - (front.length + 1) = 2 * ks.length := by
      simp only [List.length_append, List.length_cons]
      omega
    rw [xreadKeyIdx, findFold_append hfront h ha]
    dsimp only
    rw [hrest, if_neg (by omega), Nat.mul_div_cancel_left _ (by decide)]

/-- The keys of `MIGRATE` behind `KEYS`. -/
theorem migrateKeyIdx_keys_iff {ks : List Slice} (hfront : 6 ≤ front.length)
    (ha : a.fold "KEYS" = true) (hks : ks ≠ []) :
    migrateKeyIdx (front ++ a :: ks) = positions (front.length + 1) (front.length + 1 + ks.length) ↔
      ∀ x ∈ front.drop 6, x.fold "KEYS" = false := by
  have hpos : 0 < ks.length := List.length_pos_iff.2 hks
  have hlen : (front ++ a :: ks).length = front.length + 1 + ks.length := by
    simp only [List.length_append, List.length_cons]
    omega
  rw [migrateKeyIdx, if_neg (by omega), hlen]
  constructor
  · intro h x hx
    by_contra hfold
    obtain ⟨j, hj, -, hlt⟩ := findFold_front hx (Bool.not_eq_false _ ▸ hfold) (a :: ks)
    rw [hj] at h
    exact positions_ne (by omega) (by omega) h
  · intro h
    rw [findFold_append hfront h ha]

/-- The one key of `MIGRATE`. -/
theorem migrateKeyIdx_one_iff (hfront : 6 ≤ front.length) :
    migrateKeyIdx front = [3] ↔
      (front.getD 3 .nil).bytes ≠ [] ∧ ∀ x ∈ front.drop 6, x.fold "KEYS" = false := by
  rw [migrateKeyIdx, if_neg (by omega)]
  by_cases h : ∀ x ∈ front.drop 6, x.fold "KEYS" = false
  · have hnone : findFold front 6 "KEYS" = none := by
      rw [findFold, List.findIdx?_eq_none_iff.2 h]
      rfl
    rw [hnone]
    dsimp only
    split
    · next hnil => exact iff_of_false (by simp) fun hboth => hboth.1 hnil
    · next hne => exact iff_of_true rfl ⟨hne, h⟩
  · refine iff_of_false ?_ fun hboth => h hboth.2
    have hex : ∃ x, x ∈ front.drop 6 ∧ x.fold "KEYS" = true := by
      by_contra hno
      exact h fun x hx => Bool.eq_false_iff.2 fun hfold => hno ⟨x, hx, hfold⟩
    obtain ⟨x, hx, hfold⟩ := hex
    obtain ⟨j, hj, hge, hlt⟩ := findFold_front hx hfold []
    rw [List.append_nil] at hj
    rw [hj]
    intro heq
    have hfound : positions (j + 1) front.length = [3] := heq
    -- the positions found start behind the options
    have hmem : 3 ∈ positions (j + 1) front.length := hfound ▸ List.mem_singleton.2 rfl
    have := (mem_positions.1 hmem).1
    omega

end

/-! ## The keys behind `STORE` -/

/-- `storeOptionIdx` from position `i` on. -/
def storeFrom : Nat → Argv → List Nat
  | i, a :: b :: rest => if spellsStore a then (i + 1) :: storeFrom (i + 1) (b :: rest)
      else storeFrom (i + 1) (b :: rest)
  | _, _ => []

theorem storeOptionIdx_eq (name : Slice) (args : Argv) :
    storeOptionIdx (name :: args) = storeFrom 1 args := by
  -- over the arguments that are left, with those in front of them kept aside
  have hgen : ∀ (args front : Argv), ((positions front.length ((front ++ args).length - 1)).filter
      fun i => spellsStore ((front ++ args).getD i .nil)).map (· + 1) =
        storeFrom front.length args := by
    intro args
    induction args with
    | nil =>
      intro front
      have hnone : positions front.length ((front ++ ([] : Argv)).length - 1) = [] := by
        rw [positions, List.append_nil, Nat.sub_eq_zero_of_le (Nat.sub_le _ _)]
        rfl
      rw [hnone]
      rfl
    | cons a args ih =>
      intro front
      cases args with
      | nil =>
        have hnone : positions front.length ((front ++ [a]).length - 1) = [] := by
          rw [positions, List.length_append]
          simp
        rw [hnone]
        rfl
      | cons b rest =>
        have hrest := ih (front ++ [a])
        rw [List.append_assoc, List.singleton_append, List.length_append, List.length_singleton]
          at hrest
        have hlen : (front ++ a :: b :: rest).length - 1 = front.length + (rest.length + 1) := by
          simp only [List.length_append, List.length_cons]
          omega
        have hfirst : (front ++ a :: b :: rest).getD front.length .nil = a := by
          rw [List.getD_eq_getElem?_getD, List.getElem?_append_right (Nat.le_refl _), Nat.sub_self]
          rfl
        rw [hlen, Nat.add_comm rest.length, ← Nat.add_assoc] at hrest
        rw [hlen, positions_cons, List.filter_cons, hfirst, storeFrom, ← hrest]
        split <;> rfl
  exact hgen args [name]

theorem storeFrom_cons {a : Slice} (ha : spellsStore a = false) (i : Nat) (rest : Argv) :
    storeFrom i (a :: rest) = storeFrom (i + 1) rest := by
  cases rest with
  | nil => rfl
  | cons b rest => rw [storeFrom, if_neg (by simp [ha])]

/-- An operand in front of other arguments: it must not spell the word. -/
theorem storeFrom_operand_iff {a b : Slice} {i : Nat} {rest : Argv} {idx : List Nat}
    (hidx : ∀ j ∈ idx, i + 2 ≤ j) :
    storeFrom i (a :: b :: rest) = idx ↔
      spellsStore a = false ∧ storeFrom (i + 1) (b :: rest) = idx := by
  rw [storeFrom]
  cases spellsStore a with
  | false => simp
  | true =>
    refine iff_of_false ?_ fun h => by cases h.1
    intro heq
    have := hidx (i + 1) (heq ▸ List.mem_cons_self)
    omega

theorem Word.not_store {ws : List String} (w : Word ws)
    (h : ws.all (fun x => !equalFoldASCII (lit x) (lit "STORE") &&
      !equalFoldASCII (lit x) (lit "STOREDIST")) = true) : spellsStore w.text = false := by
  have hall := List.all_eq_true.1 h
  have hstore : w.text.fold "STORE" = false :=
    w.fold_other _ (List.all_eq_true.2 fun x hx => (Bool.and_eq_true _ _ ▸ hall x hx).1)
  have hdist : w.text.fold "STOREDIST" = false :=
    w.fold_other _ (List.all_eq_true.2 fun x hx => (Bool.and_eq_true _ _ ▸ hall x hx).2)
  rw [spellsStore, hstore, hdist]
  rfl

theorem Word.store (w : Word ["STORE", "STOREDIST"]) : spellsStore w.text = true := by
  simpa [spellsStore] using w.spells

theorem Number.not_store (n : Number) : spellsStore n.text = false := by
  rw [spellsStore, n.fold_word (by decide), n.fold_word (by decide)]
  rfl

/-- Behind an option word there is no key at once. -/
theorem keysFrom_options_ge (i : Nat) (opts : List GeoOption) :
    ∀ j ∈ keysFrom i (opts.flatMap GeoOption.marked), i + 1 ≤ j := by
  intro j hj
  cases opts with
  | nil => cases hj
  | cons o opts =>
    rw [List.flatMap_cons] at hj
    cases o with
    | flag w | count w n | countAny w n any | store w k => exact le_of_mem_keysFrom hj

/-- The key behind `STORE` is read as an option word once more. -/
theorem storeFrom_store_iff (w : Word ["STORE", "STOREDIST"]) (k : Slice) (i : Nat)
    {opts : List GeoOption}
    (hrest : storeFrom (i + 2) ((opts.flatMap GeoOption.marked).map Prod.fst) =
      keysFrom (i + 2) (opts.flatMap GeoOption.marked) ↔ StoresPlain opts) :
    storeFrom i (w.text :: k :: (opts.flatMap GeoOption.marked).map Prod.fst) =
        (i + 1) :: keysFrom (i + 2) (opts.flatMap GeoOption.marked) ↔
      StoresPlain (.store w k :: opts) := by
  rw [storeFrom, if_pos w.store, List.cons.injEq, StoresPlain]
  simp only [true_and]
  cases hopts : (opts.flatMap GeoOption.marked).map Prod.fst with
  | nil =>
    -- the last argument: nothing stands behind it
    have hnil : opts.flatMap GeoOption.marked = [] := List.map_eq_nil_iff.1 hopts
    have hno : opts = [] := by
      cases opts with
      | nil => rfl
      | cons o opts => cases o <;> cases hnil
    subst hno
    exact iff_of_true rfl ⟨fun _ => rfl, trivial⟩
  | cons b rest =>
    have hne : opts ≠ [] := by
      rintro rfl
      cases hopts
    rw [hopts] at hrest
    rw [storeFrom_operand_iff (keysFrom_options_ge (i + 2) opts), hrest]
    simp only [hne, imp_false, Bool.not_eq_true]

/-- The options of `GEORADIUS`, from position `i` on. -/
theorem storeFrom_options_iff (i : Nat) (opts : List GeoOption) :
    storeFrom i ((opts.flatMap GeoOption.marked).map Prod.fst) =
        keysFrom i (opts.flatMap GeoOption.marked) ↔ StoresPlain opts := by
  induction opts generalizing i with
  | nil => exact iff_of_true rfl trivial
  | cons o opts ih =>
    rw [List.flatMap_cons, List.map_append]
    -- words and numbers are passed over; only a key can be taken for an option word
    cases o with
    | flag w =>
      have hw := storeFrom_cons (w.not_store (by decide)) i
        ((opts.flatMap GeoOption.marked).map Prod.fst)
      exact (Eq.congr_left hw).trans (ih (i + 1))
    | count w n =>
      have hw := storeFrom_cons (w.not_store (by decide)) i
        (n.text :: (opts.flatMap GeoOption.marked).map Prod.fst)
      rw [storeFrom_cons n.not_store] at hw
      exact (Eq.congr_left hw).trans (ih (i + 2))
    | countAny w n any =>
      have hw := storeFrom_cons (w.not_store (by decide)) i
        (n.text :: any.text :: (opts.flatMap GeoOption.marked).map Prod.fst)
      rw [storeFrom_cons n.not_store, storeFrom_cons (any.not_store (by decide))] at hw
      exact (Eq.congr_left hw).trans (ih (i + 3))
    | store w k => exact storeFrom_store_iff w k i (ih (i + 2))

/-! ## The keys of `SORT` -/

theorem sortOptIdx_cons {a : Slice} (hby : a.fold "BY" = false) (hget : a.fold "GET" = false)
    (hstore : a.fold "STORE" = false) (i : Nat) (rest : Argv) :
    sortOptIdx i (a :: rest) = sortOptIdx (i + 1) rest := by
  cases rest with
  | nil => rfl
  | cons b rest =>
    rw [sortOptIdx, if_neg (by simp [hby]), if_neg (by simp [hget]), if_neg (by simp [hstore])]

theorem Number.sortOptIdx_cons (n : Number) (i : Nat) (rest : Argv) :
    sortOptIdx i (n.text :: rest) = sortOptIdx (i + 1) rest :=
  Command.sortOptIdx_cons (n.fold_word (by decide)) (n.fold_word (by decide))
    (n.fold_word (by decide)) i rest

theorem Word.sortOptIdx_cons {ws : List String} (w : Word ws)
    (hby : ws.all (fun x => !equalFoldASCII (lit x) (lit "BY")) = true)
    (hget : ws.all (fun x => !equalFoldASCII (lit x) (lit "GET")) = true)
    (hstore : ws.all (fun x => !equalFoldASCII (lit x) (lit "STORE")) = true) (i : Nat)
    (rest : Argv) :
    sortOptIdx i (w.text :: rest) = sortOptIdx (i + 1) rest :=
  Command.sortOptIdx_cons (w.fold_other _ hby) (w.fold_other _ hget) (w.fold_other _ hstore) i rest

/-- `sortKeyIdx` steps over operands, so none is taken for an option. -/
theorem sortOptIdx_options (i : Nat) (opts : List SortOption) :
    sortOptIdx i ((opts.flatMap SortOption.marked).map Prod.fst) =
      keysFrom i (opts.flatMap SortOption.marked) := by
  induction opts generalizing i with
  | nil => rfl
  | cons o opts ih =>
    rw [List.flatMap_cons, List.map_append]
    -- `BY`, `GET` and `STORE` are skipped with their operand; the numbers of `LIMIT` spell no word
    cases o with
    | sortBy w p =>
      show sortOptIdx i (w.text :: p :: (opts.flatMap SortOption.marked).map Prod.fst) = _
      rw [sortOptIdx, if_pos w.fold_self, ih]
      cases hp : p.fold "nosort" <;>
        simp [SortOption.marked, plainArg, keysFrom, hp]
    | limit w offset count =>
      show sortOptIdx i (w.text :: offset.text :: count.text ::
        (opts.flatMap SortOption.marked).map Prod.fst) = _
      rw [w.sortOptIdx_cons (by decide) (by decide) (by decide), offset.sortOptIdx_cons,
        count.sortOptIdx_cons, ih]
      rfl
    | get w p =>
      show sortOptIdx i (w.text :: p :: (opts.flatMap SortOption.marked).map Prod.fst) = _
      rw [sortOptIdx, if_neg (by simp [w.fold_other "BY" (by decide)]), if_pos w.fold_self, ih]
      by_cases hp : p.bytes = lit "#" <;> simp [SortOption.marked, plainArg, keysFrom, hp]
    | flag w =>
      show sortOptIdx i (w.text :: (opts.flatMap SortOption.marked).map Prod.fst) = _
      rw [w.sortOptIdx_cons (by decide) (by decide) (by decide), ih]
      rfl
    | store w d =>
      show sortOptIdx i (w.text :: d :: (opts.flatMap SortOption.marked).map Prod.fst) = _
      rw [sortOptIdx, if_neg (by simp [w.fold_other "BY" (by decide)]),
        if_neg (by simp [w.fold_other "GET" (by decide)]), if_pos w.fold_self, ih]
      rfl

/-! ## Requests -/

/-- The options of `XREAD` are words and numbers. -/
theorem ReadOption.marked_plain (o : ReadOption) :
    ∀ m ∈ o.marked, m.2 = false ∧ m.1.fold "STREAMS" = false := by
  intro m hm
  cases o with
  | count w n | block w n =>
    simp only [ReadOption.marked, plainArg, List.mem_cons, List.not_mem_nil, or_false] at hm
    rcases hm with rfl | rfl
    · exact ⟨rfl, w.fold_other _ (by decide)⟩
    · exact ⟨rfl, n.fold_word (by decide)⟩

theorem GroupOption.marked_plain (o : GroupOption) :
    ∀ m ∈ o.marked, m.2 = false ∧ m.1.fold "STREAMS" = false := by
  intro m hm
  cases o with
  | read o => exact o.marked_plain m hm
  | noack w =>
    simp only [GroupOption.marked, plainArg, List.mem_cons, List.not_mem_nil, or_false] at hm
    subst hm
    exact ⟨rfl, w.fold_other _ (by decide)⟩

theorem keysFrom_streams (i : Nat) (s : Streams) :
    keysFrom i s.marked = positions (i + 1) (i + 1 + s.streams.length) := by
  have hkeys := keysFrom_keys (i + 1) (s.streams.map Prod.fst)
  rw [List.map_map, List.length_map] at hkeys
  show keysFrom (i + 1) _ = _
  rw [keysFrom_append]
  refine (congrArg₂ (· ++ ·) hkeys (keysFrom_plain _ ?_)).trans (List.append_nil _)
  intro m hm
  obtain ⟨x, -, rfl⟩ := List.mem_map.1 hm
  rfl

/-- Streams behind arguments that are no keys. -/
theorem xreadKeyIdx_streams_iff {front : List Marked} (hfront : ∀ m ∈ front, m.2 = false)
    (hne : 1 ≤ front.length) (s : Streams) :
    xreadKeyIdx ((front ++ s.marked).map Prod.fst) = keysFrom 0 (front ++ s.marked) ↔
      ∀ x ∈ (front.map Prod.fst).drop 1, x.fold "STREAMS" = false := by
  have hargs : (front ++ s.marked).map Prod.fst =
      front.map Prod.fst ++ s.word.text :: (s.streams.map Prod.fst ++ s.streams.map Prod.snd) := by
    rw [List.map_append, Streams.marked, List.map_cons, List.map_append, List.map_map, List.map_map]
    rfl
  rw [hargs, keysFrom_append, keysFrom_plain 0 hfront, List.nil_append, keysFrom_streams,
    Nat.zero_add]
  have hiff := @xreadKeyIdx_iff (front.map Prod.fst) s.word.text (s.streams.map Prod.fst)
    (s.streams.map Prod.snd) (by rwa [List.length_map]) s.word.fold_self
    (by simpa using s.some_stream) (by rw [List.length_map, List.length_map])
  rwa [List.length_map, List.length_map] at hiff

theorem ne_nil_of_nameOf {argv : Argv} {name : String} (h : nameOf argv = name)
    (hname : name ≠ "") : argv ≠ [] := by
  rintro rfl
  exact hname h.symm

theorem keyIndexes_xread {argv : Argv} (h : nameOf argv = "XREAD" ∨ nameOf argv = "XREADGROUP") :
    keyIndexes argv = some (xreadKeyIdx argv) := by
  rcases h with h | h <;> simp [keyIndexes, ne_nil_of_nameOf h (by decide), h]

theorem keyIndexes_migrate {argv : Argv} (h : nameOf argv = "MIGRATE") :
    keyIndexes argv = some (migrateKeyIdx argv) := by
  simp [keyIndexes, ne_nil_of_nameOf h (by decide), h]

theorem keyIndexes_sort {argv : Argv} (h : nameOf argv = "SORT") :
    keyIndexes argv = some (sortKeyIdx argv) := by
  simp [keyIndexes, ne_nil_of_nameOf h (by decide), h]

theorem keyIndexes_georadius {name k : Slice} {rest : Argv}
    (h : upperName name.bytes = "GEORADIUS" ∨ upperName name.bytes = "GEORADIUSBYMEMBER") :
    keyIndexes (name :: k :: rest) = some (1 :: storeFrom 1 (k :: rest)) := by
  have hspec : ∀ n ∈ ["GEORADIUS", "GEORADIUSBYMEMBER"],
      (lookup n).map Meta.keys = some (spec 1 1 1) := by
    decide
  have hname : nameOf (name :: k :: rest) ∈ ["GEORADIUS", "GEORADIUSBYMEMBER"] := by
    simpa [nameOf] using h
  obtain ⟨m, hm, hkeys⟩ := Option.map_eq_some_iff.1 (hspec _ hname)
  have hidx : indexesBySpec (name :: k :: rest) (spec 1 1 1) = [1] := by simp [indexesBySpec, spec]
  have hstore := storeOptionIdx_eq name (k :: rest)
  rcases h with h | h
  · have hname : nameOf (name :: k :: rest) = "GEORADIUS" := h
    rw [hname] at hm
    simp [keyIndexes, hname, hm, hkeys, hidx, hstore]
  · have hname : nameOf (name :: k :: rest) = "GEORADIUSBYMEMBER" := h
    rw [hname] at hm
    simp [keyIndexes, hname, hm, hkeys, hidx, hstore]

/-- Of the options of `MIGRATE` only the operands of `AUTH` and `AUTH2` can spell `KEYS`. -/
theorem migrateOptions_iff (opts : List MigrateOption) :
    (∀ x ∈ (opts.flatMap MigrateOption.marked).map Prod.fst, x.fold "KEYS" = false) ↔
      ∀ a ∈ opts.flatMap MigrateOption.secrets, a.fold "KEYS" = false := by
  induction opts with
  | nil => exact iff_of_true (fun x hx => by cases hx) fun a ha => by cases ha
  | cons o opts ih =>
    rw [List.flatMap_cons, List.flatMap_cons, List.map_append, List.forall_mem_append,
      List.forall_mem_append, ih]
    refine and_congr_left fun _ => ?_
    cases o with
    | flag w =>
      simp [MigrateOption.marked, MigrateOption.secrets, plainArg, w.fold_other "KEYS" (by decide)]
    | auth w password =>
      simp [MigrateOption.marked, MigrateOption.secrets, plainArg, w.fold_other "KEYS" (by decide)]
    | auth2 w user password =>
      simp [MigrateOption.marked, MigrateOption.secrets, plainArg, w.fold_other "KEYS" (by decide)]

theorem migrateOptions_plain (opts : List MigrateOption) :
    ∀ m ∈ opts.flatMap MigrateOption.marked, m.2 = false := by
  intro m hm
  obtain ⟨o, -, hm⟩ := List.mem_flatMap.1 hm
  cases o with
  | flag w | auth w p | auth2 w u p =>
    simp only [MigrateOption.marked, plainArg, List.mem_cons, List.not_mem_nil, or_false] at hm
    rcases hm with rfl | rfl | rfl <;> rfl

theorem KeyedRequest.found_iff {r : KeyedRequest} {idx keys : List Nat} {P : Prop}
    (hidx : keyIndexes r.argv = some idx) (hkeys : r.keyPositions = keys) (h : idx = keys ↔ P) :
    r.Found ↔ P := by
  rw [KeyedRequest.Found, hidx, hkeys, Option.some.injEq, h]

theorem keyIndexes_xread_streams (name : CommandName "XREAD") (opts : List ReadOption) (s : Streams) :
    (KeyedRequest.xread name opts s).Found := by
  have hopts : ∀ m ∈ opts.flatMap ReadOption.marked, m.2 = false ∧ m.1.fold "STREAMS" = false := by
    intro m hm
    obtain ⟨o, -, hm⟩ := List.mem_flatMap.1 hm
    exact o.marked_plain m hm
  have hplain : ∀ m ∈ plainArg name.text :: opts.flatMap ReadOption.marked, m.2 = false := by
    intro m hm
    rcases List.mem_cons.1 hm with rfl | hm
    · rfl
    · exact (hopts m hm).1
  refine (KeyedRequest.found_iff (r := .xread name opts s) (keyIndexes_xread (.inl name.spells)) rfl
    (xreadKeyIdx_streams_iff hplain (by simp) s)).2 fun x hx => ?_
  obtain ⟨m, hm, rfl⟩ := List.mem_map.1 hx
  exact (hopts m hm).2

theorem xreadgroup_iff (name : CommandName "XREADGROUP") (opts : List GroupOption)
    (w : Word ["GROUP"]) (group consumer : Slice) (opts' : List GroupOption) (s : Streams) :
    (KeyedRequest.xreadgroup name opts w group consumer opts' s).Found ↔
      group.fold "STREAMS" = false ∧ consumer.fold "STREAMS" = false := by
  have hopts : ∀ (os : List GroupOption), ∀ m ∈ os.flatMap GroupOption.marked,
      m.2 = false ∧ m.1.fold "STREAMS" = false := by
    intro os m hm
    obtain ⟨o, -, hm⟩ := List.mem_flatMap.1 hm
    exact o.marked_plain m hm
  have hargs : ∀ (os : List GroupOption), ∀ x ∈ (os.flatMap GroupOption.marked).map Prod.fst,
      x.fold "STREAMS" = false := by
    intro os x hx
    obtain ⟨m, hm, rfl⟩ := List.mem_map.1 hx
    exact (hopts os m hm).2
  have hplain : ∀ m ∈ plainArg name.text :: (opts.flatMap GroupOption.marked ++
      [plainArg w.text, plainArg group, plainArg consumer] ++ opts'.flatMap GroupOption.marked),
      m.2 = false := by
    intro m hm
    simp only [List.mem_cons, List.mem_append, List.not_mem_nil, or_false] at hm
    rcases hm with rfl | (hm | rfl | rfl | rfl) | hm
    · rfl
    · exact (hopts opts m hm).1
    · rfl
    · rfl
    · rfl
    · exact (hopts opts' m hm).1
  refine KeyedRequest.found_iff (keyIndexes_xread (.inr name.spells)) rfl
    ((xreadKeyIdx_streams_iff hplain (by simp) s).trans ?_)
  -- of the arguments in front of the streams, the group and the consumer may be anything
  rw [List.map_cons, List.drop_succ_cons, List.drop_zero, List.map_append, List.map_append,
    List.forall_mem_append, List.forall_mem_append]
  constructor
  · rintro ⟨⟨-, hmid⟩, -⟩
    exact ⟨hmid group (by simp [plainArg]), hmid consumer (by simp [plainArg])⟩
  · rintro ⟨hgroup, hconsumer⟩
    refine ⟨⟨hargs opts, ?_⟩, hargs opts'⟩
    simp [plainArg, hgroup, hconsumer, w.fold_other "STREAMS" (by decide)]

theorem migrate_iff (name : CommandName "MIGRATE") (host port k db timeout : Slice)
    (opts : List MigrateOption) :
    (KeyedRequest.migrate name host port k db timeout opts).Found ↔
      k.bytes ≠ [] ∧ ∀ a ∈ opts.flatMap MigrateOption.secrets, a.fold "KEYS" = false := by
  have hkeys : (KeyedRequest.migrate name host port k db timeout opts).keyPositions = [3] := by
    show 3 :: keysFrom 6 (opts.flatMap MigrateOption.marked) = [3]
    rw [keysFrom_plain 6 (migrateOptions_plain opts)]
  refine KeyedRequest.found_iff (keyIndexes_migrate name.spells) hkeys ?_
  rw [migrateKeyIdx_one_iff (by simp [KeyedRequest.argv, KeyedRequest.marked]),
    ← migrateOptions_iff]
  rfl

theorem migrateKeys_iff (name : CommandName "MIGRATE") (host port db timeout : Slice)
    (opts : List MigrateOption) (w : Word ["KEYS"]) (k : Slice) (ks : List Slice) :
    (KeyedRequest.migrateKeys name host port db timeout opts w k ks).Found ↔
      ∀ a ∈ opts.flatMap MigrateOption.secrets, a.fold "KEYS" = false := by
  let front : List Marked := [plainArg name.text, plainArg host, plainArg port, plainArg (arg ""),
    plainArg db, plainArg timeout] ++ opts.flatMap MigrateOption.marked
  -- everything up to `KEYS` is no key: the key argument is the empty string
  have hplain : ∀ m ∈ front, m.2 = false := by
    intro m hm
    rcases List.mem_append.1 hm with hm | hm
    · simp only [plainArg, List.mem_cons, List.not_mem_nil, or_false] at hm
      rcases hm with rfl | rfl | rfl | rfl | rfl | rfl <;> rfl
    · exact migrateOptions_plain opts m hm
  have hkeys : (KeyedRequest.migrateKeys name host port db timeout opts w k ks).keyPositions =
      positions (front.length + 1) (front.length + 1 + (k :: ks).length) := by
    show keysFrom 0 (front ++ plainArg w.text :: (k :: ks).map keyArg) = _
    rw [keysFrom_append, keysFrom_plain 0 hplain, List.nil_append, Nat.zero_add, ← keysFrom_keys]
    rfl
  have hargs : (KeyedRequest.migrateKeys name host port db timeout opts w k ks).argv =
      front.map Prod.fst ++ w.text :: (k :: ks) := by
    show (front ++ plainArg w.text :: (k :: ks).map keyArg).map Prod.fst = _
    rw [List.map_append, List.map_cons, List.map_map]
    exact congrArg (fun l => front.map Prod.fst ++ w.text :: l) (List.map_id _)
  have hfront : 6 ≤ (front.map Prod.fst).length := by simp [front]
  have hiff := migrateKeyIdx_keys_iff hfront w.fold_self (List.cons_ne_nil k ks)
  rw [List.length_map] at hiff
  refine KeyedRequest.found_iff (keyIndexes_migrate name.spells) hkeys ?_
  rw [hargs, hiff, ← migrateOptions_iff]
  rfl

theorem georadius_iff (name : CommandName "GEORADIUS") (k : Slice)
    (longitude latitude radius : Number)
    (unit : Word ["M", "KM", "FT", "MI"]) (opts : List GeoOption) :
    (KeyedRequest.georadius name k longitude latitude radius unit opts).Found ↔
      spellsStore k = false ∧ StoresPlain opts := by
  have hge : ∀ j ∈ keysFrom 6 (opts.flatMap GeoOption.marked), 1 + 2 ≤ j := by
    intro j hj
    have := le_of_mem_keysFrom hj
    omega
  refine KeyedRequest.found_iff (keyIndexes_georadius (.inl name.spells)) rfl ?_
  show 1 :: storeFrom 1 (k :: longitude.text :: latitude.text :: radius.text :: unit.text ::
    (opts.flatMap GeoOption.marked).map Prod.fst) = 1 :: keysFrom 6 (opts.flatMap GeoOption.marked) ↔ _
  rw [List.cons.injEq, storeFrom_operand_iff hge, storeFrom_cons longitude.not_store,
    storeFrom_cons latitude.not_store, storeFrom_cons radius.not_store, storeFrom_cons (unit.not_store (by decide)),
    storeFrom_options_iff]
  simp only [true_and]

theorem georadiusbymember_iff (name : CommandName "GEORADIUSBYMEMBER") (k member : Slice)
    (radius : Number) (unit : Word ["M", "KM", "FT", "MI"]) (opts : List GeoOption) :
    (KeyedRequest.georadiusbymember name k member radius unit opts).Found ↔
      spellsStore k = false ∧ spellsStore member = false ∧ StoresPlain opts := by
  have hge : ∀ i ≤ 2, ∀ j ∈ keysFrom 5 (opts.flatMap GeoOption.marked), i + 2 ≤ j := by
    intro i hi j hj
    have := le_of_mem_keysFrom hj
    omega
  refine KeyedRequest.found_iff (keyIndexes_georadius (.inr name.spells)) rfl ?_
  show 1 :: storeFrom 1 (k :: member :: radius.text :: unit.text ::
    (opts.flatMap GeoOption.marked).map Prod.fst) = 1 :: keysFrom 5 (opts.flatMap GeoOption.marked) ↔ _
  rw [List.cons.injEq, storeFrom_operand_iff (hge 1 (by decide)), storeFrom_operand_iff (hge 2 (by decide)),
    storeFrom_cons radius.not_store, storeFrom_cons (unit.not_store (by decide)),
    storeFrom_options_iff]
  simp only [true_and]

theorem keyIndexes_sort_options (name : CommandName "SORT") (k : Slice) (opts : List SortOption) :
    (KeyedRequest.sort name k opts).Found := by
  refine (KeyedRequest.found_iff (r := .sort name k opts) (keyIndexes_sort name.spells) rfl
    Iff.rfl).2 ?_
  show 1 :: sortOptIdx 2 ((opts.flatMap SortOption.marked).map Prod.fst) = _
  rw [sortOptIdx_options]
  rfl

/-- **`KeyIndexes` and the grammar.** The positions found are those of the keys of the
grammar, unless an operand is taken for the option word it spells. -/
theorem keyIndexes_grammar_iff (r : KeyedRequest) :
    keyIndexes r.argv = some r.keyPositions ↔ r.Plain := by
  cases r with
  | xread name opts s => exact iff_of_true (keyIndexes_xread_streams name opts s) trivial
  | xreadgroup name opts w group consumer opts' s =>
    exact xreadgroup_iff name opts w group consumer opts' s
  | georadius name k longitude latitude radius unit opts =>
    exact georadius_iff name k longitude latitude radius unit opts
  | georadiusbymember name k member radius unit opts =>
    exact georadiusbymember_iff name k member radius unit opts
  | migrate name host port k db timeout opts => exact migrate_iff name host port k db timeout opts
  | migrateKeys name host port db timeout opts w k ks =>
    exact migrateKeys_iff name host port db timeout opts w k ks
  | sort name k opts => exact iff_of_true (keyIndexes_sort_options name k opts) trivial

/-- `GEORADIUSBYMEMBER k store 1 m`: the member is taken for the option, and the radius
for a key. -/
theorem member_taken_for_store :
    ∃ r : KeyedRequest,
      r.argv = [arg "GEORADIUSBYMEMBER", arg "k", arg "store", arg "1", arg "m"] ∧
      r.keyPositions = [1] ∧ keyIndexes r.argv = some [1, 3] :=
  ⟨.georadiusbymember ⟨arg "GEORADIUSBYMEMBER", by decide⟩ (arg "k") (arg "store")
    ⟨arg "1", by decide⟩ ⟨arg "m", by decide⟩ [], by decide⟩

end RespProxy.Command
