import RespProxy.Proxy.Session

/-! # Subscribed sessions (`internal/pubsub/pubsub.go`)

A subscribed session keeps backend connections of its own: they are checked
out once, read by a goroutine for each, and never put back into a pool.
`HandleClientCmd` is what the session's own goroutine does; the reading
goroutines (`forward`) belong to the environment, which hands over their
acknowledgements as the answers to `waitAck`. What such a goroutine makes of a
value it reads is `incoming`.
-/

namespace RespProxy.Proxy

open Cluster Command Resp

variable (cfg : Config)

/-- `NewSession`: Dragonfly clusters only have sharded pub/sub. -/
def newMode : Prog Mode := do
  if (← currentFlavor) = .dragonfly then return .shardedRewrite else return .passthrough

/-- `ensureBackend`. -/
def ensureBackend (addr : Addr) : Prog (Except Err ConnId) := do
  match ← ask (.backend addr) with
  | some c => return .ok c
  | none =>
    match ← getConn cfg addr false with
    | .error e => return .error e
    | .ok c => do
      ask (.addBackend addr c)
      return .ok c

/-- `clientAck`: the backend's own bytes where nothing was renamed. -/
def clientAck (v : Value) (kind : String) (ch : Slice) (count : Nat) (rewrite : Bool) : Value :=
  if !rewrite && decide (v.raw ≠ []) then v
  else array [bulkString (arg kind), bulkString ch, integer count]

/-- Write one subscription command and wait for its acknowledgement. -/
def subRoundTrip (c : ConnId) (f : Frame) : Prog (Except Err Value) := do
  match ← ask (.write c [f]) with
  | some e => return .error e
  | none => ask (.waitAck c)

/-- The channel loop of `subscribe`; an error answers for the whole command. -/
def subscribeLoop (src : Origin) (cmd kind : String) (rewrite : Bool) :
    List Slice → List Value → Prog (List Value)
  | [], replies => return replies
  | ch :: chs, replies => do
    match ← owner cfg (slotOf cfg ch) false with
    | none => return [error "ERR no backend nodes"]
    | some addr =>
      match ← ensureBackend cfg addr with
      | .error e => return [errOf e]
      | .ok c =>
        match ← subRoundTrip c { argv := [arg cmd, ch], src } with
        | .error e => return [errOf e]
        | .ok ack => do
          let count ← ask (.subsAdd ch addr)
          subscribeLoop src cmd kind rewrite chs (replies ++ [clientAck ack kind ch count rewrite])

/-- `subscribe`. -/
def subscribe (mode : Mode) (src : Origin) (channels : List Slice) (fromGlobal : Bool) :
    Prog (List Value) :=
  let rewrite := decide (mode = .shardedRewrite) && fromGlobal
  let cmd := if rewrite || !fromGlobal then "SSUBSCRIBE" else "SUBSCRIBE"
  let kind := if fromGlobal then "subscribe" else "ssubscribe"
  if channels = [] then
    return [error "ERR wrong number of arguments for 'subscribe' command"]
  else subscribeLoop cfg src cmd kind rewrite channels []

/-- One channel of `unsubscribe`; a failed acknowledgement is made up for. -/
def unsubscribeOne (src : Origin) (cmd kind : String) (rewrite : Bool) (ch : Slice) :
    Prog Value := do
  let addr ← ask (.subsAddr ch)
  let local_ : Prog Value := do
    let count ← ask (.subsDel ch)
    return array [bulkString (arg kind), bulkString ch, integer count]
  match ← ask (.backend addr) with
  | none => local_
  | some c => do
    let _ ← ask (.write c [{ argv := [arg cmd, ch], src }])
    match ← ask (.waitAck c) with
    | .error _ => local_
    | .ok ack => do
      let count ← ask (.subsDel ch)
      return clientAck ack kind ch count rewrite

/-- The channel loop of `unsubscribe`. -/
def unsubscribeLoop (src : Origin) (cmd kind : String) (rewrite : Bool) :
    List Slice → Prog (List Value)
  | [] => return []
  | ch :: chs => do
    let v ← unsubscribeOne src cmd kind rewrite ch
    let vs ← unsubscribeLoop src cmd kind rewrite chs
    return v :: vs

/-- `unsubscribe`: without channels, from all of them. -/
def unsubscribe (mode : Mode) (src : Origin) (channels : List Slice) (fromGlobal : Bool) :
    Prog (List Value) := do
  let rewrite := decide (mode = .shardedRewrite) && fromGlobal
  let cmd := if rewrite || !fromGlobal then "SUNSUBSCRIBE" else "UNSUBSCRIBE"
  let kind := if fromGlobal then "unsubscribe" else "sunsubscribe"
  let known ← ask .subsKeys
  let channels := if channels = [] then known.map Slice.mk else channels
  unsubscribeLoop src cmd kind rewrite channels

/-- `roundTrip`: pattern subscriptions go to any master. -/
def patternRoundTrip (src : Origin) (argv : Argv) : Prog (List Value) := do
  match ← anyMaster cfg with
  | none => return [error "ERR no backend nodes"]
  | some n =>
    match ← ensureBackend cfg n.addr with
    | .error e => return [errOf e]
    | .ok c =>
      match ← subRoundTrip c { argv, src } with
      | .error e => return [errOf e]
      | .ok ack => return [ack]

def errSubMode : Value := error "ERR only (UN)SUBSCRIBE / PING / QUIT allowed in this mode"

/-- `HandleClientCmd` of a command that is not empty. -/
def handleClientCmd (mode : Mode) (src : Origin) (argv : Argv) : Prog (List Value) :=
  match classifyPubSub (nameOf argv) with
  | .psubscribe | .punsubscribe =>
    if mode = .shardedRewrite then
      return [error "ERR PSUBSCRIBE is not supported against Dragonfly cluster"]
    else patternRoundTrip cfg src argv
  | .subscribe => subscribe cfg mode src (argv.drop 1) true
  | .ssubscribe => subscribe cfg mode src (argv.drop 1) false
  | .unsubscribe => unsubscribe mode src (argv.drop 1) true
  | .sunsubscribe => unsubscribe mode src (argv.drop 1) false
  | _ => return [errSubMode]

/-! ## Subscriptions -/

/-- Channels, patterns and channels of sharded pub/sub are different name spaces. -/
inductive Family where
  | channel | pattern | shard
deriving DecidableEq, Repr

abbrev Subscription := Family × Bytes

/-- The kind of subscription a command asks for. -/
def opens : PubSubOp → Option Family
  | .subscribe => some .channel
  | .psubscribe => some .pattern
  | .ssubscribe => some .shard
  | _ => none

/-- The kind of subscription a command asks to end. -/
def closes : PubSubOp → Option Family
  | .unsubscribe => some .channel
  | .punsubscribe => some .pattern
  | .sunsubscribe => some .shard
  | _ => none

/-- The subscriptions a command names, when they are of the kind `k`. -/
def named (k : Option Family) (argv : Argv) : List Subscription :=
  match k with
  | some k => (argv.drop 1).map fun ch => (k, ch.bytes)
  | none => []

/-- The subscriptions a command asks for. -/
def begins (argv : Argv) : List Subscription :=
  named (opens (classifyPubSub (nameOf argv))) argv

/-- The subscriptions a command asks by name to end. -/
def leaves (argv : Argv) : List Subscription :=
  named (closes (classifyPubSub (nameOf argv))) argv

/-! ## What a reading goroutine makes of a value -/

/-- Case folding, as far as `bytes.EqualFold` with an ASCII word can tell: the long s
and the Kelvin sign are the runes outside ASCII that fold to an ASCII letter. -/
def foldCase : Bytes → Bytes
  | 0xc5 :: 0xbf :: rest => 115 :: foldCase rest
  | 0xe2 :: 0x84 :: 0xaa :: rest => 107 :: foldCase rest
  | c :: rest => lowerByte c :: foldCase rest
  | [] => []

/-- `bytes.EqualFold` with a word in lower case. -/
def equalFold (b : Bytes) (w : String) : Bool := decide (foldCase b = lit w)

/-- `isAck`. -/
def isAck (v : Value) : Bool :=
  match v.values with
  | [] => false
  | k :: _ => decide (v.type = .array ∨ v.type = .push) &&
      ["subscribe", "ssubscribe", "unsubscribe", "sunsubscribe", "psubscribe",
        "punsubscribe"].any (equalFold k.str.bytes)

/-- `isUnsub`. -/
def isUnsub (v : Value) : Bool :=
  match v.values with
  | [] => false
  | k :: _ => ["unsubscribe", "sunsubscribe"].any (equalFold k.str.bytes)

/-- `rewriteIncoming`: sharded pub/sub under the names of the global one. -/
def rewriteIncoming (v : Value) : Value :=
  match v.values with
  | [] => v
  | k :: rest =>
    let rename (w : String) : Value :=
      { v with values := { k with str := arg w } :: rest, raw := [] }
    if v.type ≠ .array ∧ v.type ≠ .push then v
    else if equalFold k.str.bytes "smessage" then rename "message"
    else if equalFold k.str.bytes "ssubscribe" then rename "subscribe"
    else if equalFold k.str.bytes "sunsubscribe" then rename "unsubscribe"
    else v

/-- Where `forward` hands a value it has read: to `waitAck`, unless `maybeResub` takes
it, or to the client. -/
inductive Incoming where
  | ack (v : Value)
  | push (v : Value)
deriving DecidableEq, Repr

/-- A value as `forward` hands it on. -/
def incoming (mode : Mode) (v : Value) : Incoming :=
  let w := if mode = .shardedRewrite then rewriteIncoming v else v
  if isAck v then .ack w else .push w

/-- `RewritePublish`. -/
def rewritePublish (flavor : Flavor) (argv : Argv) : Argv :=
  match argv with
  | cmd :: ch :: rest =>
    if flavor = .dragonfly ∧ classifyPubSub (upperName cmd.bytes) = .publish then
      arg "SPUBLISH" :: ch :: rest
    else argv
  | argv => argv

end RespProxy.Proxy
