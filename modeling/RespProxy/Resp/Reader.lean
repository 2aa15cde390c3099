import RespProxy.Resp.Value

/-! # The RESP reader (`internal/resp/parse.go`)

`ReadValue` over a connection whose read deadline may pass at any moment.

* `Stream`: what the connection delivers, byte by byte. `expire` stands where
  the read deadline in force passes while a read waits for the next byte; the
  end of the list is the end of the connection. `bufio` delivers the bytes in
  order and reports an expiry to the read that is waiting;
* a read that fails has consumed the bytes it had read (`EStateM` keeps the
  state at an error);
* the recursion over nested values runs on fuel; `readValue` starts it with
  enough for every stream (`readValue_ne_stuck`).
-/

namespace RespProxy

/-- What a reading connection delivers next. -/
inductive Arrival where
  | byte (b : UInt8)
  | expire
deriving DecidableEq, Repr

abbrev Stream := List Arrival

namespace Resp

/-- The errors of a read. `panic` is the run-time panic of `make` with a
negative length, `stuck` marks exhausted fuel. -/
inductive ReadErr where
  | eof | unexpectedEOF | timeout | protocol | panic | stuck
deriving DecidableEq, Repr

/-- The reader: what is still to arrive, and the raw bytes captured so far. -/
structure RState where
  stream : Stream
  raw : Bytes
deriving DecidableEq, Repr

abbrev Read := EStateM ReadErr RState

/-! ## `bufio` -/

/-- `ReadSlice('\n')`, continued by `ReadBytes` for a long line: the bytes up
to and including the next line feed. -/
def readSlice : Stream → EStateM.Result ReadErr Stream Bytes
  | [] => .error .eof []
  | .expire :: s => .error .timeout s
  | .byte b :: s =>
    if b = lf then .ok [b] s
    else match readSlice s with
      | .ok line s' => .ok (b :: line) s'
      | .error e s' => .error e s'

/-- `io.ReadFull` of `n` bytes; `started` says that some byte was already read,
which turns the end of the connection into `io.ErrUnexpectedEOF`. -/
def readFull : Nat → Bool → Stream → EStateM.Result ReadErr Stream Bytes
  | 0, _, s => .ok [] s
  | _ + 1, started, [] => .error (if started then .unexpectedEOF else .eof) []
  | _ + 1, _, .expire :: s => .error .timeout s
  | n + 1, _, .byte b :: s =>
    match readFull n true s with
    | .ok bs s' => .ok (b :: bs) s'
    | .error e s' => .error e s'

/-! ## The parser -/

/-- `parseInt`: `strconv.ParseInt(…, 10, 64)` with every failure a protocol error. -/
def parseInt (b : Bytes) : Read Int :=
  match Decimal.parseInt64 b with
  | some n => pure n
  | none => throw .protocol

/-- `clone`: the copy of no bytes is nil. -/
def clone (b : Bytes) : Slice := Slice.ofAppend b

/-- `readLine`: a line that ends in CRLF, without it. The raw bytes get the
whole line as soon as it has been read, before its ending is checked. -/
def readLine : Read Bytes := fun st =>
  match readSlice st.stream with
  | .error e s => .error e { st with stream := s }
  | .ok line s =>
    let st' : RState := { stream := s, raw := st.raw ++ line }
    if line.dropLast.getLast? = some cr then .ok line.dropLast.dropLast st'
    else .error .protocol st'

/-- `io.ReadFull` into a fresh buffer, appended to the raw bytes on success. -/
def readPayload (need : Nat) : Read Bytes := fun st =>
  match readFull need false st.stream with
  | .error e s => .error e { st with stream := s }
  | .ok buf s => .ok buf { stream := s, raw := st.raw ++ buf }

def maxBulk : Int := 512 * 1024 * 1024

/-- `readBulk`: a length, then so many bytes and CRLF. -/
def readBulk (t : RType) (lenField : Bytes) : Read Value := do
  let n ← parseInt lenField
  if n < 0 then pure { type := t, null := true }
  else if n > maxBulk then throw .protocol
  else do
    let buf ← readPayload (n.toNat + 2)
    if buf.drop n.toNat ≠ crlf then throw .protocol
    else pure { type := t, str := .mk (buf.take n.toNat) }

/-- The loop of `readAggregate`. -/
def readItems (rv : Read Value) : Nat → Read (List Value)
  | 0 => pure []
  | n + 1 => do
    let v ← rv
    let vs ← readItems rv n
    return v :: vs

def maxItems : Int := 1000000

/-- The number of values of an aggregate; a map has two for each entry. -/
def itemCount (isMap : Bool) (n : Int) : Int := if isMap then Decimal.wrap64 (n * 2) else n

/-- `readAggregate`: a count, then so many values. -/
def readAggregate (rv : Read Value) (t : RType) (lenField : Bytes) (isMap : Bool) :
    Read Value := do
  let n ← parseInt lenField
  if n < 0 then pure { type := t, null := true }
  else if itemCount isMap n > maxItems then throw .protocol
  -- `make([]Value, count)` panics when doubling has wrapped around
  else if itemCount isMap n < 0 then throw .panic
  else do
    let items ← readItems rv (itemCount isMap n).toNat
    pure { type := t, values := items }

/-- The types a frame can start with. -/
def RType.wire : List RType :=
  [.simpleString, .error, .integer, .bulkString, .array, .null, .boolean, .double,
    .bigNumber, .blobError, .verbatim, .map, .set, .push, .attr]

/-- `Type(line[0])`, for the cases of the switch in `readValue`. -/
def RType.ofByte (b : UInt8) : Option RType := RType.wire.find? fun t => t.byte = b

/-- `readValue`, on fuel. -/
def readValueF : Nat → Read Value
  | 0 => throw .stuck
  | fuel + 1 => do
    let line ← readLine
    match line with
    | [] => throw .protocol
    | c :: rest =>
      match RType.ofByte c with
      | some .simpleString => return { type := .simpleString, str := clone rest }
      | some .error => return { type := .error, str := clone rest }
      | some .integer => do
        let n ← parseInt rest
        return { type := .integer, int := n }
      | some .bulkString => readBulk .bulkString rest
      | some .blobError => readBulk .blobError rest
      | some .verbatim => readBulk .verbatim rest
      | some .array => readAggregate (readValueF fuel) .array rest false
      | some .push => readAggregate (readValueF fuel) .push rest false
      | some .set => readAggregate (readValueF fuel) .set rest false
      | some .map => readAggregate (readValueF fuel) .map rest true
      | some .null => return { type := .null, null := true }
      | some .boolean =>
        return { type := .boolean, int := if rest.head? = some 116 ∨ rest.head? = some 84 then 1 else 0 }
      | some .double => return { type := .double, str := clone rest }
      | some .bigNumber => return { type := .bigNumber, str := clone rest }
      | some .attr => do
        -- attributes prefix the next value: the map is read and dropped
        let _ ← readAggregate (readValueF fuel) .attr rest true
        readValueF fuel
      | some .zero | none => throw .protocol

/-- `ReadValue`: one value with its raw wire bytes, and what is left of the stream. -/
def readValue (s : Stream) : EStateM.Result ReadErr Stream Value :=
  match readValueF (s.length + 1) { stream := s, raw := [] } with
  | .ok v st => .ok { v with raw := st.raw } st.stream
  | .error e st => .error e st.stream

/-- One element of `ArrayToArgv`. -/
def argOf (el : Value) : Option Slice :=
  if el.type = .bulkString ∨ el.type = .simpleString then some el.str else none

/-- `ArrayToArgv`: the bulk and simple strings of a command array; any other
value is a protocol error. -/
def arrayToArgv (v : Value) : Option Argv :=
  if v.type ≠ .array ∨ v.null then none else v.values.mapM argOf

end Resp

end RespProxy
