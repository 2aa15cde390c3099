import Mathlib.Data.List.AList
import RespProxy.Lib.Machine
import RespProxy.Proxy.PubSub

/-! # The goroutines of a subscribed session (`internal/pubsub/pubsub.go`)

`HandleClientCmd` runs on the goroutine of the client's session, `forward` on a
goroutine for each backend connection, and `maybeResub` starts further ones that
run `subscribe`. They share the maps `subs` and `backends` and, for each connection,
the channel `acks`.

The machine below lets them interleave. The goroutines that run commands are the
programs of `handleClientCmd` and `subscribe`: one step answers the next request of
one of them, from the shared maps and the channel, or as the label says where the
answer comes from outside. The backends take the commands written to a connection in
order and acknowledge them channel by channel.

Requests carry a number, and an acknowledgement the number of its request; the code
knows neither. `log` is the history the client has of its subscriptions.
-/

namespace RespProxy.PubSub

open Cluster Command Resp Proxy

/-! ## Backends -/

/-- A command on the wire. -/
structure Request where
  argv : Argv
  ticket : Nat
deriving DecidableEq, Repr

/-- A value from a backend, with the number of the request it acknowledges. -/
structure Reply where
  value : Value
  src : Option Nat
deriving DecidableEq, Repr

/-- The first element of an acknowledgement. -/
def verbOf : PubSubOp → String
  | .subscribe => "subscribe"
  | .ssubscribe => "ssubscribe"
  | .psubscribe => "psubscribe"
  | .unsubscribe => "unsubscribe"
  | .sunsubscribe => "sunsubscribe"
  | .punsubscribe => "punsubscribe"
  | _ => ""

/-- An acknowledgement as it is read: with its wire bytes. -/
def ackValue (verb : String) (ch : Slice) (n : Nat) : Value :=
  let v := array [bulkString (arg verb), bulkString ch, integer n]
  { v with raw := encode v }

/-- What a backend counts in an acknowledgement: the shard channels of the connection, or its
channels and patterns. -/
def tally (k : Family) (S : List Subscription) : Nat :=
  (S.filter fun x => decide (x.1 = .shard) = decide (k = .shard)).length

/-- Enter or end subscriptions one by one. -/
def acknowledge (k : Family) (enter : Bool) (verb : String) :
    List Subscription → List Slice → List Subscription × List Value
  | S, [] => (S, [])
  | S, ch :: chs =>
    let S' := if enter then S.insert (k, ch.bytes) else S.filter (· ≠ (k, ch.bytes))
    let rest := acknowledge k enter verb S' chs
    (rest.1, ackValue verb ch (tally k S') :: rest.2)

/-- What a backend does with a command: the subscriptions of the connection behind it,
and the values it sends. -/
def serve (S : List Subscription) (argv : Argv) : List Subscription × List Value :=
  let op := classifyPubSub (nameOf argv)
  match opens op, closes op with
  | some k, _ =>
    if argv.drop 1 = [] then (S, [error "ERR wrong number of arguments"])
    else acknowledge k true (verbOf op) S (argv.drop 1)
  | none, some k =>
    let all := (S.filter fun x => x.1 = k).map fun x => Slice.mk x.2
    let chs := if argv.drop 1 = [] then all else argv.drop 1
    if chs = [] then (S, [ackValue (verbOf op) .nil (tally k S)])
    else acknowledge k false (verbOf op) S chs
  | none, none => (S, [error "ERR unknown command"])

/-- The acknowledgement of a subscription that a backend ends by itself. -/
def forcedAck (x : Subscription) (n : Nat) : Value :=
  ackValue (if x.1 = .shard then "sunsubscribe" else "unsubscribe") (.mk x.2) n

/-! ## State -/

/-- Where `forward` is. -/
inductive Reader where
  /-- not started -/
  | off
  | reading
  /-- ahead of `maybeResub` -/
  | checking (r : Reply)
  /-- at `be.acks <- v` -/
  | sending (r : Reply)
  /-- at `s.pushCh <- v` -/
  | pushing (v : Value)
  | stopped
deriving DecidableEq, Repr

/-- The acknowledgement ahead of `maybeResub`. -/
def Reader.checked : Reader → Option Reply
  | .checking r => some r
  | _ => none

/-- A backend connection: what is written and not served, the subscriptions the backend
has for it, what is sent and not read, `forward`, and the buffer of `acks`. -/
structure Conn where
  wire : List Request := []
  subscribed : List Subscription := []
  replies : List Reply := []
  reader : Reader := .off
  acks : List Reply := []

abbrev Tid := Nat

/-- A goroutine that runs commands, with the request it wrote last until `waitAck` is
over. -/
structure Thread where
  prog : Prog (List Value)
  pending : Option (ConnId × Request) := none

/-- The history of a client: subscriptions it asked for, that were recorded, and whose end
was confirmed to it. -/
inductive Note where
  | asked (x : Subscription)
  | began (x : Subscription)
  | left (x : Subscription)
deriving DecidableEq, Repr

/-- The session. Thread 0 is the client's, the others were started by `maybeResub`. -/
structure State where
  subs : AList fun _ : Bytes => Addr := ∅
  count : Nat := 0
  backends : AList fun _ : Addr => ConnId := ∅
  conns : ConnId → Conn := fun _ => {}
  opened : List ConnId := []
  threads : Tid → Option Thread := fun _ => none
  spawned : Nat := 1
  tickets : Nat := 0
  /-- the client's command -/
  command : Argv := []
  /-- the subscriptions whose end is confirmed by replies that are still to be sent -/
  leaving : List Subscription := []
  log : List Note := []

variable (cfg : Config) (mode : Mode) (src : Origin)

/-- The kind of subscription a backend has for a client's: sharded pub/sub may stand in
for the global one. -/
def familyOf (mode : Mode) (k : Family) : Family :=
  if k = .channel ∧ mode = .shardedRewrite then .shard else k

/-- The subscriptions to channels that a command asks for, as the backends have them. -/
def wanted (argv : Argv) : List Subscription :=
  ((begins argv).filter fun x => x.1 ≠ .pattern).map fun x => (familyOf mode x.1, x.2)

/-- The kind of subscription to channels that a command ends, as the backends have it. -/
def dropped (argv : Argv) : Option Family :=
  ((closes (classifyPubSub (nameOf argv))).filter fun k => k ≠ .pattern).map (familyOf mode)

def State.prog (s : State) (t : Tid) : Option (Prog (List Value)) := (s.threads t).map Thread.prog

def State.pending (s : State) (t : Tid) : Option (ConnId × Request) :=
  (s.threads t).bind Thread.pending

/-- Thread `t` goes on with `p`. -/
def State.resume (s : State) (t : Tid) (p : Prog (List Value))
    (pending : Option (ConnId × Request)) : State :=
  { s with threads := fun u => if u = t then some { prog := p, pending } else s.threads u }

def State.setConn (s : State) (c : ConnId) (conn : Conn) : State :=
  { s with conns := fun d => if d = c then conn else s.conns d }

section

variable {s : State} {t u : Tid} {p : Prog (List Value)} {w : Option (ConnId × Request)}
variable {c d : ConnId} {conn : Conn}

theorem State.prog_resume : (s.resume t p w).prog u = if u = t then some p else s.prog u := by
  unfold State.prog State.resume
  split <;> simp [*]

theorem State.pending_resume : (s.resume t p w).pending u = if u = t then w else s.pending u := by
  unfold State.pending State.resume
  split <;> simp [*]

theorem State.conns_setConn : (s.setConn c conn).conns d = if d = c then conn else s.conns d := rfl

theorem State.pending_eq_none (h : s.threads t = none) : s.pending t = none := by
  rw [State.pending, h]
  rfl

theorem State.prog_eq_none (h : s.threads t = none) : s.prog t = none := by
  rw [State.prog, h]
  rfl

end

/-! ## Steps -/

inductive Label where
  /-- `HandleClientCmd` is called -/
  | command (argv : Argv)
  /-- `HandleClientCmd` returns, and its replies are sent; or a goroutine ends -/
  | ret (t : Tid)
  /-- the router reads the topology -/
  | load (t : Tid) (topo : Option Topology)
  /-- `CheckoutAddr` -/
  | get (t : Tid) (r : Except Err ConnId)
  /-- `WriteRaw`; with an error, the command may have been delivered all the same -/
  | write (t : Tid) (err : Option Err) (sent : Bool)
  /-- `waitAck` receives from the channel -/
  | ack (t : Tid)
  /-- `waitAck` returns an error -/
  | timeout (t : Tid) (e : Err)
  /-- the channels of `subs`, in the order of a `range` -/
  | keys (t : Tid) (order : List Bytes)
  | subsAddr (t : Tid)
  | backend (t : Tid)
  | addBackend (t : Tid)
  | subsAdd (t : Tid)
  | subsDel (t : Tid)
  /-- `forward`: reads a value -/
  | read (c : ConnId)
  /-- `forward`: `maybeResub` -/
  | check (c : ConnId)
  /-- `forward`: sends to `acks` -/
  | send (c : ConnId)
  /-- `forward`: sends to `pushCh` -/
  | push (c : ConnId)
  /-- `forward`: returns at the end of the stream or of the context -/
  | stop (c : ConnId)
  /-- the backend serves a command -/
  | serve (c : ConnId)
  /-- the backend ends a subscription by itself -/
  | force (c : ConnId) (x : Subscription)
  /-- the backend sends a value that acknowledges nothing -/
  | publish (c : ConnId) (v : Value)

/-- `forward`: what to do with a value that was read. -/
def dispatch (r : Reply) : Reader :=
  match incoming mode r.value with
  | .ack w => if isUnsub w then .checking { r with value := w } else .sending { r with value := w }
  | .push w => .pushing w

/-- The channel an acknowledgement names, for `maybeResub`. -/
def channelOf (v : Value) : Option Bytes := (v.values[1]?).map fun ch => ch.str.bytes

/-- `maybeResub`: the channel is still recorded. -/
def State.tracked (s : State) (v : Value) : Option Bytes :=
  (channelOf v).filter fun ch => (s.subs.lookup ch).isSome

/-- The steps of the goroutines that run commands. -/
def State.runStep (s : State) : Label → Option State
  | .load t topo =>
    match s.prog t with
    | some (.call .load k) => some (s.resume t (k topo) none)
    | _ => none
  | .get t r =>
    match s.prog t with
    | some (.call (.get _ _) k) =>
      match r with
      | .error e => some (s.resume t (k (.error e)) none)
      | .ok c =>
        if c ∈ s.opened then none
        else some { s.resume t (k (.ok c)) none with opened := c :: s.opened }
    | _ => none
  | .write t err sent =>
    match s.prog t with
    | some (.call (.write c [f]) k) =>
      let q : Request := { argv := f.argv, ticket := s.tickets }
      let conn := s.conns c
      if err = none ∨ sent then
        some { (s.resume t (k err) (some (c, q))).setConn c { conn with wire := conn.wire ++ [q] }
          with tickets := s.tickets + 1 }
      else some (s.resume t (k err) none)
    | _ => none
  | .ack t =>
    match s.prog t with
    | some (.call (.waitAck c) k) =>
      let conn := s.conns c
      match conn.acks with
      | r :: acks => some ((s.resume t (k (.ok r.value)) none).setConn c { conn with acks })
      | [] => none
    | _ => none
  | .timeout t e =>
    match s.prog t with
    | some (.call (.waitAck _) k) => some (s.resume t (k (.error e)) none)
    | _ => none
  | .keys t order =>
    match s.prog t with
    | some (.call .subsKeys k) =>
      if order.isPerm s.subs.keys then some (s.resume t (k order) none) else none
    | _ => none
  | .subsAddr t =>
    match s.prog t with
    | some (.call (.subsAddr ch) k) =>
      some (s.resume t (k ((s.subs.lookup ch.bytes).getD "")) none)
    | _ => none
  | .backend t =>
    match s.prog t with
    | some (.call (.backend addr) k) => some (s.resume t (k (s.backends.lookup addr)) none)
    | _ => none
  | .addBackend t =>
    match s.prog t with
    | some (.call (.addBackend addr c) k) =>
      some { (s.resume t (k ()) none).setConn c { s.conns c with reader := .reading }
        with backends := s.backends.insert addr c }
    | _ => none
  | .subsAdd t =>
    match s.prog t with
    | some (.call (.subsAdd ch addr) k) =>
      let count := if (s.subs.lookup ch.bytes).isSome then s.count else s.count + 1
      some { s.resume t (k count) none with
        subs := s.subs.insert ch.bytes addr
        count
        log := s.log ++ if t = 0 then
          ((wanted mode s.command).filter fun x => x.2 = ch.bytes).map Note.began else [] }
    | _ => none
  | .subsDel t =>
    match s.prog t with
    | some (.call (.subsDel ch) k) =>
      let count := s.count - 1
      some { s.resume t (k count) none with
        subs := s.subs.erase ch.bytes
        count
        leaving := s.leaving ++ if t = 0 then
          ((dropped mode s.command).map fun k => (k, ch.bytes)).toList else [] }
    | _ => none
  | _ => none

/-- The steps of `forward` and of the backends. -/
def State.connStep (s : State) : Label → Option State
  | .read c =>
    let conn := s.conns c
    match conn.reader, conn.replies with
    | .reading, r :: replies => some (s.setConn c { conn with replies, reader := dispatch mode r })
    | _, _ => none
  | .check c =>
    let conn := s.conns c
    match conn.reader with
    | .checking r =>
      match s.tracked r.value with
      | some ch =>
        some { (s.setConn c { conn with reader := .reading }).resume s.spawned
          (subscribe cfg mode src [.mk ch] true) none with spawned := s.spawned + 1 }
      | none => some (s.setConn c { conn with reader := .sending r })
    | _ => none
  | .send c =>
    let conn := s.conns c
    match conn.reader with
    | .sending r =>
      if conn.acks.length < 16 then
        some (s.setConn c { conn with acks := conn.acks ++ [r], reader := .reading })
      else none
    | _ => none
  | .push c =>
    let conn := s.conns c
    match conn.reader with
    | .pushing _ => some (s.setConn c { conn with reader := .reading })
    | _ => none
  | .stop c => some (s.setConn c { s.conns c with reader := .stopped })
  | .serve c =>
    let conn := s.conns c
    match conn.wire with
    | q :: wire =>
      let (subscribed, vs) := serve conn.subscribed q.argv
      let sent := vs.map fun v => { value := v, src := if isAck v then some q.ticket else none }
      some (s.setConn c { conn with wire, subscribed, replies := conn.replies ++ sent })
    | [] => none
  | .force c x =>
    let conn := s.conns c
    if x ∈ conn.subscribed ∧ x.1 ≠ .pattern then
      let subscribed := conn.subscribed.filter (· ≠ x)
      some (s.setConn c { conn with
        subscribed
        replies := conn.replies ++ [{ value := forcedAck x (tally x.1 subscribed), src := none }] })
    else none
  | .publish c v =>
    let conn := s.conns c
    if isAck v then none
    else some (s.setConn c { conn with replies := conn.replies ++ [{ value := v, src := none }] })
  | _ => none

def State.next (s : State) : Label → Option State
  | .command argv =>
    match s.threads 0 with
    | some _ => none
    | none =>
      if argv = [] then none
      else some { s.resume 0 (handleClientCmd cfg mode src argv) none with
        command := argv, log := s.log ++ (wanted mode argv).map Note.asked }
  | .ret t =>
    match s.prog t with
    | some (.ret _) =>
      some { s with
        threads := fun u => if u = t then none else s.threads u
        leaving := if t = 0 then [] else s.leaving
        log := s.log ++ if t = 0 then s.leaving.map Note.left else [] }
    | _ => none
  | l => s.runStep mode l <|> s.connStep cfg mode src l

/-- What a step can be. -/
inductive Step (s : State) : Label → State → Prop where
  | command {argv : Argv} (hidle : s.threads 0 = none) (hne : argv ≠ []) :
      Step s (.command argv) { s.resume 0 (handleClientCmd cfg mode src argv) none with
        command := argv, log := s.log ++ (wanted mode argv).map Note.asked }
  | ret {t : Tid} {vs : List Value} (hp : s.prog t = some (.ret vs)) :
      Step s (.ret t) { s with
        threads := fun u => if u = t then none else s.threads u
        leaving := if t = 0 then [] else s.leaving
        log := s.log ++ if t = 0 then s.leaving.map Note.left else [] }
  | load {t : Tid} {topo : Option Topology} {k : Option Topology → Prog (List Value)}
      (hp : s.prog t = some (.call .load k)) : Step s (.load t topo) (s.resume t (k topo) none)
  | refused {t : Tid} {e : Err} {a : Addr} {b : Bool} {k : Except Err ConnId → Prog (List Value)}
      (hp : s.prog t = some (.call (.get a b) k)) :
      Step s (.get t (.error e)) (s.resume t (k (.error e)) none)
  | got {t : Tid} {c : ConnId} {a : Addr} {b : Bool} {k : Except Err ConnId → Prog (List Value)}
      (hp : s.prog t = some (.call (.get a b) k)) (hc : c ∉ s.opened) :
      Step s (.get t (.ok c)) { s.resume t (k (.ok c)) none with opened := c :: s.opened }
  | written {t : Tid} {err : Option Err} {sent : Bool} {c : ConnId} {f : Frame}
      {k : Option Err → Prog (List Value)} (hp : s.prog t = some (.call (.write c [f]) k))
      (hsent : err = none ∨ sent = true) :
      Step s (.write t err sent)
        { (s.resume t (k err) (some (c, ⟨f.argv, s.tickets⟩))).setConn c
            { s.conns c with wire := (s.conns c).wire ++ [⟨f.argv, s.tickets⟩] }
          with tickets := s.tickets + 1 }
  | unsent {t : Tid} {err : Option Err} {sent : Bool} {c : ConnId} {f : Frame}
      {k : Option Err → Prog (List Value)} (hp : s.prog t = some (.call (.write c [f]) k))
      (hsent : ¬ (err = none ∨ sent = true)) :
      Step s (.write t err sent) (s.resume t (k err) none)
  | ack {t : Tid} {c : ConnId} {r : Reply} {acks : List Reply}
      {k : Except Err Value → Prog (List Value)} (hp : s.prog t = some (.call (.waitAck c) k))
      (hacks : (s.conns c).acks = r :: acks) :
      Step s (.ack t) ((s.resume t (k (.ok r.value)) none).setConn c { s.conns c with acks })
  | timeout {t : Tid} {e : Err} {c : ConnId} {k : Except Err Value → Prog (List Value)}
      (hp : s.prog t = some (.call (.waitAck c) k)) :
      Step s (.timeout t e) (s.resume t (k (.error e)) none)
  | keys {t : Tid} {order : List Bytes} {k : List Bytes → Prog (List Value)}
      (hp : s.prog t = some (.call .subsKeys k)) (horder : order.isPerm s.subs.keys = true) :
      Step s (.keys t order) (s.resume t (k order) none)
  | subsAddr {t : Tid} {ch : Slice} {k : Addr → Prog (List Value)}
      (hp : s.prog t = some (.call (.subsAddr ch) k)) :
      Step s (.subsAddr t) (s.resume t (k ((s.subs.lookup ch.bytes).getD "")) none)
  | backend {t : Tid} {addr : Addr} {k : Option ConnId → Prog (List Value)}
      (hp : s.prog t = some (.call (.backend addr) k)) :
      Step s (.backend t) (s.resume t (k (s.backends.lookup addr)) none)
  | addBackend {t : Tid} {addr : Addr} {c : ConnId} {k : Unit → Prog (List Value)}
      (hp : s.prog t = some (.call (.addBackend addr c) k)) :
      Step s (.addBackend t)
        { (s.resume t (k ()) none).setConn c { s.conns c with reader := .reading }
          with backends := s.backends.insert addr c }
  | subsAdd {t : Tid} {ch : Slice} {addr : Addr} {k : Nat → Prog (List Value)} {count : Nat}
      (hp : s.prog t = some (.call (.subsAdd ch addr) k)) :
      Step s (.subsAdd t) { s.resume t (k count) none with
        subs := s.subs.insert ch.bytes addr
        count
        log := s.log ++ if t = 0 then
          ((wanted mode s.command).filter fun x => x.2 = ch.bytes).map Note.began else [] }
  | subsDel {t : Tid} {ch : Slice} {k : Nat → Prog (List Value)} {count : Nat}
      (hp : s.prog t = some (.call (.subsDel ch) k)) :
      Step s (.subsDel t) { s.resume t (k count) none with
        subs := s.subs.erase ch.bytes
        count
        leaving := s.leaving ++ if t = 0 then
          ((dropped mode s.command).map fun k => (k, ch.bytes)).toList else [] }
  | read {c : ConnId} {r : Reply} {replies : List Reply} (hr : (s.conns c).reader = .reading)
      (hreplies : (s.conns c).replies = r :: replies) :
      Step s (.read c) (s.setConn c { s.conns c with replies, reader := dispatch mode r })
  | resub {c : ConnId} {r : Reply} {ch : Bytes} (hr : (s.conns c).reader = .checking r)
      (hch : s.tracked r.value = some ch) :
      Step s (.check c) { (s.setConn c { s.conns c with reader := .reading }).resume s.spawned
        (subscribe cfg mode src [.mk ch] true) none with spawned := s.spawned + 1 }
  | pass {c : ConnId} {r : Reply} (hr : (s.conns c).reader = .checking r)
      (hch : s.tracked r.value = none) :
      Step s (.check c) (s.setConn c { s.conns c with reader := .sending r })
  | send {c : ConnId} {r : Reply} (hr : (s.conns c).reader = .sending r)
      (hroom : (s.conns c).acks.length < 16) :
      Step s (.send c)
        (s.setConn c { s.conns c with acks := (s.conns c).acks ++ [r], reader := .reading })
  | push {c : ConnId} {v : Value} (hr : (s.conns c).reader = .pushing v) :
      Step s (.push c) (s.setConn c { s.conns c with reader := .reading })
  | stop {c : ConnId} : Step s (.stop c) (s.setConn c { s.conns c with reader := .stopped })
  | serve {c : ConnId} {q : Request} {wire : List Request} (hw : (s.conns c).wire = q :: wire) :
      Step s (.serve c) (s.setConn c { s.conns c with
        wire
        subscribed := (serve (s.conns c).subscribed q.argv).1
        replies := (s.conns c).replies ++ (serve (s.conns c).subscribed q.argv).2.map fun v =>
          { value := v, src := if isAck v then some q.ticket else none } })
  | force {c : ConnId} {x : Subscription} {n : Nat} (hx : x ∈ (s.conns c).subscribed)
      (hk : x.1 ≠ .pattern) :
      Step s (.force c x) (s.setConn c { s.conns c with
        subscribed := (s.conns c).subscribed.filter (· ≠ x)
        replies := (s.conns c).replies ++ [{ value := forcedAck x n, src := none }] })
  | publish {c : ConnId} {v : Value} (hv : isAck v = false) :
      Step s (.publish c v) (s.setConn c { s.conns c with
        replies := (s.conns c).replies ++ [{ value := v, src := none }] })

variable {cfg mode src} {s s' : State} {l : Label}

theorem runStep_step (h : s.runStep mode l = some s') : Step cfg mode src s l s' := by
  cases l <;> simp only [State.runStep] at h
  case load | subsAddr | backend | addBackend | timeout | subsAdd | subsDel =>
    split at h
    · cases h
      constructor
      assumption
    · cases h
  case get t r =>
    split at h
    · cases r with
      | error e =>
        cases h
        exact .refused ‹_›
      | ok c =>
        dsimp only at h
        split at h
        · cases h
        · cases h
          exact .got ‹_› ‹_›
    · cases h
  case write =>
    split at h
    · split at h
      · cases h
        exact .written ‹_› ‹_›
      · cases h
        exact .unsent ‹_› ‹_›
    · cases h
  case ack =>
    split at h
    · split at h
      · cases h
        exact .ack ‹_› ‹_›
      · cases h
    · cases h
  case keys =>
    split at h
    · split at h
      · cases h
        exact .keys ‹_› ‹_›
      · cases h
    · cases h
  all_goals cases h

theorem connStep_step (h : s.connStep cfg mode src l = some s') : Step cfg mode src s l s' := by
  cases l <;> simp only [State.connStep] at h
  case read =>
    split at h
    · cases h
      exact .read ‹_› ‹_›
    · cases h
  case check =>
    split at h
    · split at h
      · cases h
        exact .resub ‹_› ‹_›
      · cases h
        exact .pass ‹_› ‹_›
    · cases h
  case send =>
    split at h
    · split at h
      · cases h
        exact .send ‹_› ‹_›
      · cases h
    · cases h
  case push =>
    split at h
    · cases h
      exact .push ‹_›
    · cases h
  case stop =>
    cases h
    exact .stop
  case serve =>
    split at h
    · cases h
      exact .serve ‹_›
    · cases h
  case force =>
    split at h
    · cases h
      exact .force (And.left ‹_›) (And.right ‹_›)
    · cases h
  case publish =>
    split at h
    · cases h
    · cases h
      exact .publish (Bool.eq_false_iff.2 ‹_›)
  all_goals cases h

/-- Every step is one of these. -/
theorem step_of_next (h : s.next cfg mode src l = some s') : Step cfg mode src s l s' := by
  have hother : (s.runStep mode l <|> s.connStep cfg mode src l) = some s' →
      Step cfg mode src s l s' := by
    intro h
    rcases (Option.orElse_eq_some _ _ _).1 h with h | ⟨-, h⟩
    · exact runStep_step h
    · exact connStep_step h
  cases l with
  | command argv =>
    simp only [State.next] at h
    split at h
    · cases h
    · split at h
      · cases h
      · cases h
        exact .command ‹_› ‹_›
  | ret t =>
    simp only [State.next] at h
    split at h
    · cases h
      exact .ret ‹_›
    · cases h
  | _ => exact hother h

/-- What answers keep of the goroutines' programs, and what the programs that are started
have, all programs have behind a step. -/
theorem Step.progs {Q : Tid → Prog (List Value) → Prop} (hstep : Step cfg mode src s l s')
    (h : ∀ t p, s.prog t = some p → Q t p)
    (hanswer : ∀ t o k r, Q t (.call o k) → Q t (k r))
    (hcommand : ∀ argv, l = .command argv → Q 0 (handleClientCmd cfg mode src argv))
    (hresub : ∀ c r ch, l = .check c → (s.conns c).reader = .checking r →
      s.tracked r.value = some ch → Q s.spawned (subscribe cfg mode src [.mk ch] true)) :
    ∀ t p, s'.prog t = some p → Q t p := by
  have hresume : ∀ {t : Tid} {p : Prog (List Value)} {w : Option (ConnId × Request)} {s' : State},
      Q t p → s'.threads = (s.resume t p w).threads → ∀ u q, s'.prog u = some q → Q u q := by
    intro t p w s' hp hthreads u q hq
    have hprog : s'.prog u = (s.resume t p w).prog u := by
      rw [State.prog, hthreads]
      rfl
    rw [hprog, State.prog_resume] at hq
    split at hq
    · cases hq
      subst u
      exact hp
    · exact h u q hq
  cases hstep with
  | command => exact hresume (hcommand _ rfl) rfl
  | resub hr hch => exact hresume (hresub _ _ _ rfl hr hch) rfl
  | @ret t vs hp =>
    intro u q hq
    refine h u q ?_
    unfold State.prog at hq ⊢
    dsimp only at hq
    split at hq
    · cases hq
    · exact hq
  | load hp | refused hp | got hp | written hp | unsent hp | ack hp | timeout hp | keys hp
  | subsAddr hp | backend hp | addBackend hp | subsAdd hp | subsDel hp =>
    exact hresume (hanswer _ _ _ _ (h _ _ hp)) rfl
  | read | pass | send | push | stop | serve | force | publish => exact h

end RespProxy.PubSub
