import RespProxy.Command.Table
import RespProxy.Resp.Value

/-! # Key positions (`internal/command/command.go`)

Which arguments of a command are keys, and the other questions the proxy asks
of a command name. Positions are indexes into argv, the name at 0. A table
position or a `numkeys` argument decides; a `numkeys` close to 2⁶³ makes the
end of the key range wrap around and `make` panic, so `keyIndexes` is partial.
-/

namespace RespProxy

/-! ## ASCII case (`internal/resp/parse.go`) -/

def upperByte (c : UInt8) : UInt8 := if 97 ≤ c.toNat ∧ c.toNat ≤ 122 then c - 32 else c

def lowerByte (c : UInt8) : UInt8 := if 65 ≤ c.toNat ∧ c.toNat ≤ 90 then c + 32 else c

/-- `EqualFoldASCII`. -/
def equalFoldASCII (a b : Bytes) : Bool := decide (a.map lowerByte = b.map lowerByte)

/-- `upperName`: `UpperASCII` as a string. -/
def upperName (b : Bytes) : String := str (b.map upperByte)

/-- The argument is `w`, up to ASCII case. -/
def Slice.fold (a : Slice) (w : String) : Bool := equalFoldASCII a.bytes (lit w)

/-- The upper-case name of a command; the empty command has none. -/
def nameOf : Argv → String
  | [] => ""
  | a :: _ => upperName a.bytes

/-- `strconv.Atoi` of an argument. -/
def Slice.atoi (a : Slice) : Option Int := Decimal.parseInt64 a.bytes

/-! ## Words and numbers -/

/-- A spelling of one word is none of another. -/
theorem Slice.fold_other {a : Slice} {w w' : String} (h : a.fold w = true)
    (hne : equalFoldASCII (lit w) (lit w') = false) : a.fold w' = false := by
  simp only [Slice.fold, equalFoldASCII, decide_eq_true_eq, decide_eq_false_iff_not] at h hne ⊢
  rwa [h]

/-- A number starts with a digit, a sign or a point. -/
def numberStart (b : UInt8) : Bool := Decimal.isDigit b || b == 43 || b == 45 || b == 46

def Slice.startsNumber (a : Slice) : Bool := a.bytes.head?.any numberStart

theorem numberStart_lowerByte (b : UInt8) : numberStart (lowerByte b) = numberStart b := by
  have hall : ∀ n < 256,
      numberStart (lowerByte (UInt8.ofNat n)) = numberStart (UInt8.ofNat n) := by
    decide +kernel
  have hb := hall b.toNat b.toNat_lt
  rwa [UInt8.ofNat_toNat] at hb

/-- A number spells no word. -/
theorem Slice.fold_of_startsNumber {a : Slice} {w : String} (ha : a.startsNumber = true)
    (hw : (arg w).startsNumber = false) : a.fold w = false := by
  have hlower : ∀ bs : Bytes,
      (bs.map lowerByte).head?.any numberStart = bs.head?.any numberStart := by
    intro bs
    cases bs with
    | nil => rfl
    | cons b bs => exact numberStart_lowerByte b
  rw [Slice.fold, equalFoldASCII, decide_eq_false_iff_not]
  intro heq
  have hsame : a.startsNumber = (arg w).startsNumber := by
    rw [Slice.startsNumber, ← hlower, heq, hlower]
    rfl
  rw [ha, hw] at hsame
  cases hsame

theorem Slice.startsNumber_of_atoi {a : Slice} {n : Int} (h : a.atoi = some n) :
    a.startsNumber = true := by
  rw [Slice.atoi] at h
  rw [Slice.startsNumber]
  cases hb : a.bytes with
  | nil =>
    rw [hb] at h
    cases h
  | cons b bs =>
    have hmem : b ∈ a.bytes := hb ▸ List.mem_cons_self
    by_contra hno
    simp only [List.head?_cons, Option.any_some, numberStart, Bool.or_eq_true, beq_iff_eq,
      not_or] at hno
    exact Decimal.not_mem_of_parseInt64 h (Bool.eq_false_iff.2 hno.1.1.1) hno.1.2 hno.1.1.2 hmem

namespace Command

/-! ## Positions -/

/-- `indexesBySpec`. -/
def indexesBySpec (argv : Argv) (spec : KeySpec) : List Nat :=
  if spec.first = 0 then []
  else
    let step := if spec.step = 0 then 1 else spec.step
    let last : Int :=
      if spec.last = 0 then spec.first
      else if spec.last < 0 then argv.length + spec.last
      else spec.last
    if spec.first ≥ argv.length ∨ last < spec.first then []
    else
      let last := min last.toNat (argv.length - 1)
      (List.range ((last - spec.first) / step + 1)).map fun i => spec.first + step * i

/-- The positions `from, …, to - 1`. -/
def positions (start stop : Nat) : List Nat := (List.range (stop - start)).map (start + ·)

/-- The first position from `start` on whose argument is `w`. -/
def findFold (argv : Argv) (start : Nat) (w : String) : Option Nat :=
  ((argv.drop start).findIdx? fun a => a.fold w).map (start + ·)

/-- `evalKeyIdx`: `EVAL script numkeys [key …] [arg …]`. -/
def evalKeyIdx (argv : Argv) : List Nat :=
  match argv[2]?.bind Slice.atoi with
  | none => []
  | some n =>
    if n < 0 then []
    else positions 3 (min (Decimal.wrap64 (3 + n)) argv.length).toNat

/-- `xreadKeyIdx`: `XREAD … STREAMS key [key …] id [id …]`. -/
def xreadKeyIdx (argv : Argv) : List Nat :=
  match findFold argv 1 "STREAMS" with
  | none => []
  | some i =>
    let rest := argv.length - (i + 1)
    if rest < 2 ∨ rest % 2 ≠ 0 then [] else positions (i + 1) (i + 1 + rest / 2)

/-- `migrateKeyIdx`: `MIGRATE host port key|"" dest-db timeout [KEYS k …]`. -/
def migrateKeyIdx (argv : Argv) : List Nat :=
  if argv.length < 6 then []
  else match findFold argv 6 "KEYS" with
    | some i => positions (i + 1) argv.length
    | none => if (argv.getD 3 .nil).bytes = [] then [] else [3]

/-- `numkeysIdx`. When `start + n` wraps around, the capacity handed to `make`
is out of range. -/
def numkeysIdx (argv : Argv) (numkeysAt : Nat) : Option (List Nat) :=
  match argv[numkeysAt]?.bind Slice.atoi with
  | none => some []
  | some n =>
    let start := numkeysAt + 1
    let stop := Decimal.wrap64 (start + n)
    if n < 0 ∨ start ≥ argv.length then some []
    else if stop < 0 then none
    else some (positions start (min stop.toNat argv.length))

/-- `destNumkeysIdx`: the destination, then `numkeys key [key …]`. -/
def destNumkeysIdx (argv : Argv) : Option (List Nat) :=
  if argv.length < 3 then some (if argv.length ≥ 2 then [1] else [])
  else (numkeysIdx argv 2).map (1 :: ·)

/-- `scanMatchIdx`: the pattern behind the first `MATCH`. -/
def scanMatchIdx (argv : Argv) : List Nat :=
  match findFold argv.dropLast 2 "MATCH" with
  | some i => [i + 1]
  | none => []

/-- The option loop of `sortKeyIdx`, from position `i` on. -/
def sortOptIdx : Nat → Argv → List Nat
  | i, k :: v :: rest =>
    if k.fold "BY" then (if v.fold "nosort" then [] else [i + 1]) ++ sortOptIdx (i + 2) rest
    else if k.fold "GET" then
      (if v.bytes = lit "#" then [] else [i + 1]) ++ sortOptIdx (i + 2) rest
    else if k.fold "STORE" then (i + 1) :: sortOptIdx (i + 2) rest
    else sortOptIdx (i + 1) (v :: rest)
  | _, _ => []

/-- `sortKeyIdx`: the key, the `BY` and `GET` patterns and the `STORE` key. -/
def sortKeyIdx (argv : Argv) : List Nat :=
  (if argv.length ≥ 2 then [1] else []) ++ sortOptIdx 2 (argv.drop 2)

/-- `storeOptionIdx`: the keys behind `STORE` and `STOREDIST`. -/
def storeOptionIdx (argv : Argv) : List Nat :=
  ((positions 1 (argv.length - 1)).filter fun i =>
    (argv.getD i .nil).fold "STORE" || (argv.getD i .nil).fold "STOREDIST").map (· + 1)

/-- `KeyIndexes`. `none` is a panic. -/
def keyIndexes (argv : Argv) : Option (List Nat) :=
  if argv = [] then some []
  else
    let name := nameOf argv
    if name ∈ ["EVAL", "EVALSHA", "EVAL_RO", "EVALSHA_RO"] then some (evalKeyIdx argv)
    else if name ∈ ["XREAD", "XREADGROUP"] then some (xreadKeyIdx argv)
    else if name = "MIGRATE" then some (migrateKeyIdx argv)
    else if name ∈ ["LMPOP", "ZMPOP", "SINTERCARD"] then numkeysIdx argv 1
    else if name ∈ ["BLMPOP", "BZMPOP"] then numkeysIdx argv 2
    else if name ∈ ["ZUNIONSTORE", "ZINTERSTORE", "ZDIFFSTORE"] then destNumkeysIdx argv
    else if name ∈ ["ZUNION", "ZINTER", "ZDIFF"] then numkeysIdx argv 1
    else if name = "MEMORY" then
      some (if argv.length ≥ 3 ∧ (argv.getD 1 .nil).fold "USAGE" = true then [2] else [])
    else if name = "KEYS" then some (if argv.length ≥ 2 then [1] else [])
    else if name = "SCAN" then some (scanMatchIdx argv)
    else if name = "SORT" then some (sortKeyIdx argv)
    else
      let idx := match lookup name with
        | none => []
        | some m => indexesBySpec argv m.keys
      if name ∈ ["GEORADIUS", "GEORADIUSBYMEMBER"] then some (idx ++ storeOptionIdx argv)
      else some idx

/-- `ExtractKeys`. -/
def extractKeys (argv : Argv) : Option (List Slice) :=
  (keyIndexes argv).map fun idx => idx.map fun j => argv.getD j .nil

/-! ## Classification -/

/-- `IsBlocking`: a blocking command, or `XREAD`/`XREADGROUP` with `BLOCK`. -/
def isBlocking (argv : Argv) : Bool :=
  argv ≠ [] &&
    ((lookup (nameOf argv)).any (fun m => m.kind = .block) ||
      (decide (nameOf argv ∈ ["XREAD", "XREADGROUP"]) && (findFold argv 1 "BLOCK").isSome))

/-- Pub/sub commands. -/
inductive PubSubOp where
  | none | subscribe | unsubscribe | psubscribe | punsubscribe | ssubscribe | sunsubscribe
  | publish | spublish | pubsub
deriving DecidableEq, Repr

/-- `ClassifyPubSub` of a command name. -/
def classifyPubSub (name : String) : PubSubOp :=
  if name = "SUBSCRIBE" then .subscribe
  else if name = "UNSUBSCRIBE" then .unsubscribe
  else if name = "PSUBSCRIBE" then .psubscribe
  else if name = "PUNSUBSCRIBE" then .punsubscribe
  else if name = "SSUBSCRIBE" then .ssubscribe
  else if name = "SUNSUBSCRIBE" then .sunsubscribe
  else if name = "PUBLISH" then .publish
  else if name = "SPUBLISH" then .spublish
  else if name = "PUBSUB" then .pubsub
  else .none

/-- `FanoutOf`. -/
def fanoutOf (argv : Argv) : Fanout := ((lookup (nameOf argv)).map Meta.fanout).getD .none

/-- `KindOf` of a command name. -/
def kindOf (name : String) : Kind := ((lookup name).map Meta.kind).getD .unknown

end Command

end RespProxy
