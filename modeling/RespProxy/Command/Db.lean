import Mathlib.Algebra.Ring.Int.Defs
import RespProxy.Command.Keys
import RespProxy.Lib.Group

/-! # Virtual databases and fan-out (`internal/command/db.go`, `fanout.go`)

Database `N > 0` lives under the key prefix `dbN:`. `rewriteArgv` puts the
prefix on the keys of a command, `stripReplyKeys` takes it off the replies
that echo keys. The second half splits a command with keys in several slots
and merges the replies.
-/

namespace RespProxy.Command

open Resp

/-! ## Prefixes -/

/-- `DBPrefix`: database 0 has none. -/
def dbPrefix (db : Nat) : Bytes := if db = 0 then [] else lit "db" ++ Decimal.ofNat db ++ lit ":"

/-- `HasVirtualDBPrefix`: the key starts with `db`, digits and `:`. -/
def hasVirtualDBPrefix (key : Bytes) : Bool :=
  decide (key.take 2 = lit "db") &&
    decide ((key.drop 2).takeWhile Decimal.isDigit ≠ []) &&
    decide (((key.drop 2).dropWhile Decimal.isDigit).head? = some 58)

/-- `PrefixKey`: database 0 returns the key itself. -/
def prefixKey (db : Nat) (key : Slice) : Slice :=
  if db = 0 then key else .mk (dbPrefix db ++ key.bytes)

/-- `StripKey`. -/
def stripKey (db : Nat) (key : Slice) : Slice :=
  if db = 0 ∨ ¬ (dbPrefix db).isPrefixOf key.bytes then key
  else .mk (key.bytes.drop (dbPrefix db).length)

/-- The errors of `ParseDBIndex`. -/
inductive DBErr where
  | invalid | range
deriving DecidableEq, Repr

/-- `ParseDBIndex`. -/
def parseDBIndex (b : Slice) (max : Int) : Except DBErr Nat :=
  let max := if max ≤ 0 then 16 else max
  match b.atoi with
  | none => .error .invalid
  | some n => if n < 0 then .error .invalid else if n ≥ max then .error .range else .ok n.toNat

def invalidDBError : Value := error "ERR invalid DB index"

def dbRangeError : Value := error "ERR DB index is out of range"

/-- `DBIndexError`. -/
def dbIndexError : DBErr → Value
  | .invalid => invalidDBError
  | .range => dbRangeError

/-! ## Commands -/

/-- The names for which `NeedsDBRewrite` is false. -/
def noRewrite : List String :=
  ["PING", "ECHO", "AUTH", "QUIT", "SELECT", "HELLO", "RESET",
    "MULTI", "EXEC", "DISCARD", "UNWATCH",
    "CLUSTER", "INFO", "COMMAND", "CONFIG", "TIME", "ROLE", "LOLWUT",
    "CLIENT", "READONLY", "READWRITE", "REPLICAOF", "SLAVEOF", "WAIT",
    "LATENCY", "FLUSHALL", "SWAPDB",
    "PUBLISH", "SPUBLISH", "SUBSCRIBE", "SSUBSCRIBE",
    "UNSUBSCRIBE", "SUNSUBSCRIBE", "PSUBSCRIBE", "PUNSUBSCRIBE", "PUBSUB"]

/-- `NeedsDBRewrite`. -/
def needsDBRewrite (argv : Argv) : Bool := argv ≠ [] && decide (nameOf argv ∉ noRewrite)

/-- `cloneBytes`: the copy of an empty slice is nil. -/
def cloneBytes (a : Slice) : Slice := Slice.ofAppend a.bytes

/-- `cloneArgv`. -/
def cloneArgv (argv : Argv) : Argv := argv.map cloneBytes

/-- The option loop of `rewriteCOPY`: destination database and `REPLACE`. -/
def copyOptions : Argv → Nat → Bool → Nat × Bool
  | [], db, replace => (db, replace)
  | a :: rest, db, replace =>
    if a.fold "REPLACE" then copyOptions rest db true
    else match rest with
      | v :: rest' =>
        if a.fold "DB" then
          match v.atoi with
          | some n => copyOptions rest' (if 0 ≤ n then n.toNat else db) replace
          | none => copyOptions rest' db replace
        else copyOptions (v :: rest') db replace
      | [] => (db, replace)

/-- `rewriteCOPY`. -/
def rewriteCOPY (argv : Argv) (db : Nat) : Argv :=
  match argv with
  | cmd :: src :: dst :: opts =>
    let (destDB, replace) := copyOptions opts db false
    [cloneBytes cmd, prefixKey db src, prefixKey destDB dst] ++
      (if replace then [arg "REPLACE"] else [])
  | argv => cloneArgv argv

/-- The `MATCH` loop of `rewriteSCAN`: the pattern behind the first `MATCH`
gets the prefix. -/
def scanMatch (db : Nat) : Argv → Option Argv
  | a :: p :: rest =>
    if a.fold "MATCH" then some (a :: prefixKey db p :: rest)
    else (scanMatch db (p :: rest)).map (a :: ·)
  | _ => none

/-- `rewriteSCAN`: without `MATCH` one is added for all keys of the database. -/
def rewriteSCAN (argv : Argv) (db : Nat) : Argv :=
  let out := cloneArgv argv
  if db = 0 then out
  else match scanMatch db (out.drop 2) with
    | some opts => out.take 2 ++ opts
    | none => out ++ [arg "MATCH", .mk (dbPrefix db ++ lit "*")]

/-- The first argument with the prefix: `rewriteKEYS` and `rewriteMOVE`. -/
def prefixFirst (argv : Argv) (db : Nat) : Argv :=
  match cloneArgv argv with
  | cmd :: key :: rest => cmd :: prefixKey db key :: rest
  | out => out

/-- The option loop of `rewriteSORT`. -/
def sortOptions (db : Nat) : Argv → Argv
  | k :: v :: rest =>
    if k.fold "BY" then
      k :: (if v.fold "nosort" then v else prefixKey db v) :: sortOptions db rest
    else if k.fold "GET" then
      k :: (if v.bytes = lit "#" then v else prefixKey db v) :: sortOptions db rest
    else if k.fold "STORE" then k :: prefixKey db v :: sortOptions db rest
    else k :: sortOptions db (v :: rest)
  | out => out

/-- `rewriteSORT`. -/
def rewriteSORT (argv : Argv) (db : Nat) : Argv :=
  match cloneArgv argv with
  | cmd :: key :: opts => cmd :: prefixKey db key :: sortOptions db opts
  | out => out

/-- The arguments at the given positions behind the name get the prefix. -/
def prefixAt (db : Nat) (idx : List Nat) (argv : Argv) : Argv :=
  idx.foldl (fun out i => if 0 < i then out.modify i (prefixKey db) else out) argv

/-- `RewriteArgv`. `none` is the panic of `KeyIndexes`. -/
def rewriteArgv (argv : Argv) (db : Nat) : Option Argv :=
  if db = 0 ∨ ¬ needsDBRewrite argv then some argv
  else
    let name := nameOf argv
    if name = "COPY" then some (rewriteCOPY argv db)
    else if name = "SCAN" then some (rewriteSCAN argv db)
    else if name = "KEYS" then some (prefixFirst argv db)
    else if name = "SORT" then some (rewriteSORT argv db)
    else if name = "MOVE" then some (prefixFirst argv db)
    else
      let out := cloneArgv argv
      (keyIndexes out).map fun idx => prefixAt db idx out

/-! ## Replies -/

def stripBulk (db : Nat) (v : Value) : Value :=
  if v.null ∨ (v.type ≠ .bulkString ∧ v.type ≠ .simpleString) then v
  else bulkString (Slice.ofAppend (stripKey db v.str).bytes)

def stripArrayOfKeys (db : Nat) (v : Value) : Value :=
  if v.type ≠ .array ∨ v.null then v else array (v.values.map (stripBulk db))

def stripFirstArrayKey (db : Nat) (v : Value) : Value :=
  if v.type ≠ .array ∨ v.null then v
  else match v.values with
    | [] => v
    | k :: rest => array (stripBulk db k :: rest)

/-- One stream of an `XREAD` reply. -/
def stripStream (db : Nat) (stream : Value) : Value :=
  match stream.values with
  | k :: rest => if stream.type = .array then array (stripBulk db k :: rest) else stream
  | [] => stream

def stripXRead (db : Nat) (v : Value) : Value :=
  if v.type ≠ .array ∨ v.null then v else array (v.values.map (stripStream db))

/-- `StripReplyKeys`: replies that echo key names lose the prefix. -/
def stripReplyKeys (name : String) (db : Nat) (v : Value) : Value :=
  if db = 0 ∨ v.isError ∨ v.null then v
  else if name = "KEYS" then stripArrayOfKeys db v
  else if name = "SCAN" then
    match v.values with
    | cursor :: keys :: rest =>
      if v.type = .array then array (cursor :: stripArrayOfKeys db keys :: rest) else v
    | _ => v
  else if name = "RANDOMKEY" then stripBulk db v
  else if name ∈ ["BLPOP", "BRPOP", "BZPOPMIN", "BZPOPMAX", "LMPOP", "BLMPOP", "ZMPOP", "BZMPOP"] then
    stripFirstArrayKey db v
  else if name ∈ ["XREAD", "XREADGROUP"] then stripXRead db v
  else v

/-! ## Fan-out -/

/-- Keys of one slot, by their index in the list of extracted keys. -/
structure KeyGroup where
  slot : Nat
  index : List Nat
deriving DecidableEq, Repr

/-- `GroupBySlot`: first-seen slot order. -/
def groupBySlot (keys : List Slice) (slotFn : Slice → Nat) : List KeyGroup :=
  (Group.groupBy (fun k => slotFn k.1) keys.zipIdx).map fun g =>
    { slot := g.1, index := g.2.map Prod.snd }

/-- `RebuildFanoutArgv`: the command for the keys of one group. -/
def rebuildFanoutArgv (argv : Argv) (g : KeyGroup) : Option Argv :=
  match argv with
  | [] => some []
  | cmd :: _ =>
    (keyIndexes argv).map fun idx =>
      let ais := g.index.filterMap fun ki => idx[ki]?
      cmd :: ais.flatMap fun ai =>
        if fanoutOf argv = .mset then (argv.drop ai).take 2 else [argv.getD ai .nil]

/-- `MergeSum`: adds integer replies (64-bit wrap-around), or the first error. -/
def mergeSum (replies : List Value) : Value :=
  match replies.find? fun r => r.isError || r.type ≠ .integer with
  | some r => if r.isError then r else error "ERR fan-out expected integer reply"
  | none => integer (Decimal.wrap64 (replies.map Value.int).sum)

/-- `MergeMSet`. -/
def mergeMSet (replies : List Value) : Value :=
  (replies.find? Value.isError).getD (simpleString "OK")

/-- The reply of one `MGET` group is usable: an array with one value for each key. -/
def mgetFits (g : KeyGroup) (r : Value) : Bool :=
  decide (r.type = .array ∧ r.null = false ∧ r.values.length = g.index.length)

/-- The loop of `MergeMGet`. -/
def mergeGroups : List (KeyGroup × Value) → List Value → Value
  | [], out => array out
  | (g, r) :: rest, out =>
    if r.isError then r
    else if ¬ mgetFits g r then error "ERR fan-out MGET reply length mismatch"
    else mergeGroups rest ((g.index.zip r.values).foldl (fun out kv => out.set kv.1 kv.2) out)

/-- `MergeMGet`: the values in the order of the keys. -/
def mergeMGet (nKeys : Nat) (groups : List KeyGroup) (replies : List Value) : Value :=
  if groups.length ≠ replies.length then error "ERR fan-out MGET reply length mismatch"
  else mergeGroups (groups.zip replies) (List.replicate nKeys nullBulk)

/-! ## Translation keeps the name -/

theorem bytes_prefixKey (db : Nat) (a : Slice) : (prefixKey db a).bytes = dbPrefix db ++ a.bytes := by
  unfold prefixKey
  split
  · rename_i hdb
    rw [hdb]
    rfl
  · rfl

@[simp] theorem bytes_cloneBytes (a : Slice) : (cloneBytes a).bytes = a.bytes :=
  Slice.bytes_ofAppend a.bytes

@[simp] theorem nameOf_cloneArgv (argv : Argv) : nameOf (cloneArgv argv) = nameOf argv := by
  cases argv with
  | nil => rfl
  | cons a rest => simp [cloneArgv, nameOf]

theorem nameOf_prefixAt (db : Nat) (idx : List Nat) (argv : Argv) :
    nameOf (prefixAt db idx argv) = nameOf argv := by
  unfold prefixAt
  induction idx generalizing argv with
  | nil => rfl
  | cons i idx ih =>
    rw [List.foldl_cons, ih]
    split
    · -- a position behind the name
      obtain ⟨i, rfl⟩ : ∃ j, i = j + 1 := ⟨i - 1, by omega⟩
      cases argv <;> rfl
    · rfl

theorem nameOf_rewriteArgv {argv out : Argv} {db : Nat} (h : rewriteArgv argv db = some out) :
    nameOf out = nameOf argv := by
  cases argv with
  | nil =>
    rw [rewriteArgv, if_pos (.inr (by simp [needsDBRewrite]))] at h
    cases h
    rfl
  | cons a rest =>
    unfold rewriteArgv at h
    split at h
    · cases h
      rfl
    dsimp only at h
    have hfirst : nameOf (prefixFirst (a :: rest) db) = nameOf (a :: rest) := by
      cases rest <;> simp [prefixFirst, cloneArgv, nameOf]
    split at h
    · cases h
      match rest with
      | [] | [_] | _ :: _ :: _ => simp [rewriteCOPY, cloneArgv, nameOf]
    split at h
    · cases h
      unfold rewriteSCAN
      dsimp only
      split
      · exact nameOf_cloneArgv _
      · split <;> simp [cloneArgv, nameOf]
    split at h
    · cases h
      exact hfirst
    split at h
    · cases h
      cases rest <;> simp [rewriteSORT, cloneArgv, nameOf]
    split at h
    · cases h
      exact hfirst
    · obtain ⟨idx, -, rfl⟩ := Option.map_eq_some_iff.1 h
      rw [nameOf_prefixAt, nameOf_cloneArgv]

theorem nameOf_rebuildFanoutArgv {argv out : Argv} {g : KeyGroup}
    (h : rebuildFanoutArgv argv g = some out) : nameOf out = nameOf argv := by
  cases argv with
  | nil =>
    cases h
    rfl
  | cons cmd rest =>
    obtain ⟨idx, -, rfl⟩ := Option.map_eq_some_iff.1 h
    rfl

end RespProxy.Command
