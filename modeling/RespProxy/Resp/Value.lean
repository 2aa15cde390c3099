import RespProxy.Lib.Decimal

/-! # RESP values (`internal/resp/value.go`)

The parsed RESP value, the package's constructors and `Encode`. Go byte
slices are `Slice`: the nil slice and the empty one are different values,
because `BulkString` sends the first as the null bulk. `Raw` is only ever
tested for being non-empty, so it is a plain list of bytes.
-/

namespace RespProxy

abbrev Bytes := List UInt8

/-- The bytes of an ASCII text, as in `[]byte("…")`. -/
def lit (s : String) : Bytes := s.toList.map fun c => UInt8.ofNat c.toNat

/-- `string(b)`: one character for each byte. -/
def str (b : Bytes) : String := String.ofList (b.map fun c => Char.ofNat c.toNat)

/-- A Go byte slice. -/
inductive Slice where
  | nil
  | mk (bs : Bytes)
deriving DecidableEq, Repr

/-- The contents of a slice; the nil slice has none. -/
def Slice.bytes : Slice → Bytes
  | .nil => []
  | .mk bs => bs

@[simp] theorem Slice.bytes_nil : Slice.nil.bytes = [] := rfl

@[simp] theorem Slice.bytes_mk (bs : Bytes) : (Slice.mk bs).bytes = bs := rfl

/-- `append([]byte(nil), s...)`: appending no bytes to nil gives nil. -/
def Slice.ofAppend (bs : Bytes) : Slice := if bs = [] then .nil else .mk bs

@[simp] theorem Slice.bytes_ofAppend (bs : Bytes) : (Slice.ofAppend bs).bytes = bs := by
  unfold Slice.ofAppend
  split
  · next h => rw [h]; rfl
  · rfl

/-- The arguments of a command, `[][]byte`. -/
abbrev Argv := List Slice

/-- `[]byte("…")` as an argument. -/
def arg (s : String) : Slice := .mk (lit s)

namespace Resp

def cr : UInt8 := 13
def lf : UInt8 := 10
def crlf : Bytes := [cr, lf]

/-- RESP type prefixes; `zero` is the type of Go's zero `Value`. -/
inductive RType where
  | simpleString | error | integer | bulkString | array | null | boolean | double
  | bigNumber | blobError | verbatim | map | set | push | attr | zero
deriving DecidableEq, Repr

/-- `byte(t)`. -/
def RType.byte : RType → UInt8
  | .simpleString => 43
  | .error => 45
  | .integer => 58
  | .bulkString => 36
  | .array => 42
  | .null => 95
  | .boolean => 35
  | .double => 44
  | .bigNumber => 40
  | .blobError => 33
  | .verbatim => 61
  | .map => 37
  | .set => 126
  | .push => 62
  | .attr => 124
  | .zero => 0

/-- A parsed RESP value. `raw` holds the wire bytes of a value that was read. -/
structure Value where
  type : RType
  str : Slice := .nil
  int : Int := 0
  values : List Value := []
  raw : Bytes := []
  null : Bool := false
deriving Repr

instance : Inhabited Value := ⟨{ type := .zero }⟩

mutual

/-- Values can be compared. -/
def Value.decEq : (v w : Value) → Decidable (v = w)
  | ⟨t, s, i, vs, r, n⟩, ⟨t', s', i', ws, r', n'⟩ =>
    if h : t = t' ∧ s = s' ∧ i = i' ∧ r = r' ∧ n = n' then
      match Value.decEqAll vs ws with
      | isTrue h' => isTrue (by grind)
      | isFalse h' => isFalse (by grind)
    else isFalse (by grind)

def Value.decEqAll : (vs ws : List Value) → Decidable (vs = ws)
  | [], [] => isTrue rfl
  | [], _ :: _ => isFalse (by simp)
  | _ :: _, [] => isFalse (by simp)
  | v :: vs, w :: ws =>
    match Value.decEq v w, Value.decEqAll vs ws with
    | isTrue h, isTrue h' => isTrue (by rw [h, h'])
    | isFalse h, _ => isFalse (by simp [h])
    | _, isFalse h => isFalse (by simp [h])

end

instance : DecidableEq Value := Value.decEq

/-- Go's zero value `resp.Value{}`. -/
def Value.zero : Value := { type := .zero }

/-! ## Constructors -/

/-- `BulkString`: the nil slice becomes the null bulk. -/
def bulkString : Slice → Value
  | .nil => { type := .bulkString, null := true }
  | .mk bs => { type := .bulkString, str := .mk bs }

def simpleString (s : String) : Value := { type := .simpleString, str := arg s }

/-- `Error`: the payload without the leading `-`. -/
def error (s : String) : Value := { type := .error, str := arg s }

def integer (n : Int) : Value := { type := .integer, int := n }

def array (items : List Value) : Value := { type := .array, values := items }

def nullArray : Value := { type := .array, null := true }

def nullBulk : Value := { type := .bulkString, null := true }

/-- `CommandArray`: an array of bulk strings. -/
def commandArray (argv : Argv) : Value := array (argv.map bulkString)

/-! ## Errors -/

/-- `IsError`: a simple or a blob error. -/
def Value.isError (v : Value) : Bool := decide (v.type = .error ∨ v.type = .blobError)

/-- `ErrorKind`: the first token of an error. -/
def Value.errorKind (v : Value) : Bytes :=
  if v.isError then v.str.bytes.takeWhile (· ≠ 32) else []

/-- `EqualKind`: the error kind is `name`, case-sensitively. -/
def Value.equalKind (v : Value) (name : String) : Bool := decide (v.errorKind = lit name)

/-! ## Encoding -/

mutual

/-- `Encode(nil, v)`. A value that carries its wire bytes is sent as they are. -/
def encode : Value → Bytes
  | ⟨type, str, int, values, raw, null⟩ =>
    if raw ≠ [] then raw
    else match type with
    | .simpleString => 43 :: str.bytes ++ crlf
    | .error => 45 :: str.bytes ++ crlf
    | .integer => 58 :: Decimal.ofInt int ++ crlf
    | .bulkString =>
      if null then lit "$-1" ++ crlf
      else 36 :: Decimal.ofNat str.bytes.length ++ crlf ++ str.bytes ++ crlf
    | .array | .push =>
      if null then type.byte :: lit "-1" ++ crlf
      else type.byte :: Decimal.ofNat values.length ++ crlf ++ encodeAll values
    | .null => lit "_" ++ crlf
    | .boolean => if int ≠ 0 then lit "#t" ++ crlf else lit "#f" ++ crlf
    | .map => type.byte :: Decimal.ofNat (values.length / 2) ++ crlf ++ encodeAll values
    | .set => type.byte :: Decimal.ofNat values.length ++ crlf ++ encodeAll values
    | _ => type.byte :: str.bytes ++ crlf

def encodeAll : List Value → Bytes
  | [] => []
  | v :: vs => encode v ++ encodeAll vs

end

/-- `EncodeCommand(nil, argv)`. -/
def encodeCommand (argv : Argv) : Bytes := encode (commandArray argv)

/-- The request of a RESP2 client: an array of non-null bulk strings. -/
def encodeArg (bs : Bytes) : Bytes := 36 :: Decimal.ofNat bs.length ++ crlf ++ bs ++ crlf

end Resp

end RespProxy
