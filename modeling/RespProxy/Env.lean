import RespProxy.Lib.Interact
import RespProxy.Cluster.Topology

/-! # What the proxy asks of its environment

The proxy's goroutines talk to the client, to pooled backend connections and
to state they share with each other (the topology, the pools, the pub/sub
maps). Every such step is a request `Op` with an answer in `Res`; programs over
them are `Prog`. Answers are arbitrary: a backend may reply anything, any I/O
may fail at any point, and other goroutines may change the shared state
between two requests.

Frames and client replies carry, as ghost data, the client command they belong
to. Durations, metrics and logging are left out; a deadline that passes is an
error answer.
-/

namespace RespProxy

open Cluster Resp

/-- The configuration fields the modelled code reads (`internal/config`). -/
structure Config where
  clusterSeeds : List Addr := []
  /-- `backend_flavor` is `auto`. -/
  flavorAuto : Bool := true
  readFromReplicas : Bool := false
  clientAuthPassword : Bytes := []
  hashTagOpen : UInt8 := 123
  hashTagClose : UInt8 := 125
  movedHopLimit : Nat := 5
  addressMap : List (Addr × Addr) := []
  maxDatabases : Nat := 16
  maxPipeline : Nat := 128
deriving DecidableEq, Repr

/-- What `Validate` demands of these fields before the proxy starts. -/
structure Config.Valid (cfg : Config) : Prop where
  seeds : cfg.clusterSeeds ≠ []
  hops : 1 ≤ cfg.movedHopLimit
  databases : 1 ≤ cfg.maxDatabases
  pipeline : 1 ≤ cfg.maxPipeline

/-- Number of a client command: the session, and the place in its input. -/
structure CmdId where
  session : Nat
  seq : Nat
deriving DecidableEq, Repr

abbrev ConnId := Nat

/-- On whose behalf a frame is sent: a client command with the arguments the
client sent and the database its keys were translated for, either at once or
when `EXEC` sends what was queued; or a topology refresh. -/
inductive Origin where
  | client (id : CmdId) (argv : Argv) (db : Nat) (queued : Bool)
  | refresh
deriving DecidableEq, Repr

/-- A request to a backend. `raw` are the client's own bytes when they are
forwarded; otherwise `argv` is encoded. -/
structure Frame where
  argv : Argv
  raw : Bytes := []
  src : Origin
deriving DecidableEq, Repr

/-- The bytes on the wire. -/
def Frame.bytes (f : Frame) : Bytes := if f.raw ≠ [] then f.raw else encodeCommand f.argv

/-- A request of the proxy. -/
inductive Op where
  /-- `r.slots.Load()` -/
  | load
  /-- `m.gen.Add(1)` -/
  | genAdd
  /-- `m.ptr.Store(t)` -/
  | store (t : Topology)
  /-- reads `r.flavor` -/
  | flavor
  /-- writes `r.flavor` -/
  | setFlavor (f : Flavor)
  /-- `r.syncPools(t)` -/
  | syncPools (t : Topology)
  /-- `ctx.Err()` -/
  | ctxErr
  /-- `r.poolFor(addr, replica).Get(ctx)`, with `addr` already mapped -/
  | get (addr : Addr) (replica : Bool)
  | put (c : ConnId)
  | drop (c : ConnId)
  /-- writes the frames to a backend in one piece -/
  | write (c : ConnId) (frames : List Frame)
  /-- reads one value, as the reply to `f` -/
  | read (c : ConnId) (f : Frame)
  /-- `s.conn.SetWriteDeadline` -/
  | deadline
  /-- `s.w.Write` of an encoded reply, to one command or to none in particular -/
  | cwrite (id : Option CmdId) (v : Value)
  /-- `s.w.Flush` -/
  | cflush
  /-- which of several goroutines reports first -/
  | race
  /-- how many rounds of an unbounded loop the run goes on for -/
  | turns
  /-- the channels in `s.subs` -/
  | subsKeys
  /-- `s.subs[ch]` -/
  | subsAddr (ch : Slice)
  /-- records `ch` and returns the new count -/
  | subsAdd (ch : Slice) (addr : Addr)
  /-- forgets `ch` and returns the new count -/
  | subsDel (ch : Slice)
  /-- `s.backends[addr]` -/
  | backend (addr : Addr)
  /-- `s.backends[addr] = …`, and the reading goroutine of the connection starts -/
  | addBackend (addr : Addr) (c : ConnId)
  /-- `waitAck` -/
  | waitAck (c : ConnId)
  /-- `s.sub.Close()` up to the connections it drops -/
  | closeSub

/-- The answers. -/
abbrev Res : Op → Type
  | .load => Option Topology
  | .genAdd => Nat
  | .store _ => Unit
  | .flavor => Flavor
  | .setFlavor _ => Unit
  | .syncPools _ => Unit
  | .ctxErr => Option Err
  | .get _ _ => Except Err ConnId
  | .put _ => Unit
  | .drop _ => Unit
  | .write _ _ => Option Err
  | .read _ _ => Except Err Value
  | .deadline => Option Err
  | .cwrite _ _ => Option Err
  | .cflush => Option Err
  | .race => Nat
  | .turns => Nat
  | .subsKeys => List Bytes
  | .subsAddr _ => Addr
  | .subsAdd _ _ => Nat
  | .subsDel _ => Nat
  | .backend _ => Option ConnId
  | .addBackend _ _ => Unit
  | .waitAck _ => Except Err Value
  | .closeSub => List ConnId

abbrev Prog := Interact.Prog Res
abbrev Event := Interact.Event Res
abbrev Trace := List Event

/-- Make one request. -/
def ask (o : Op) : Prog (Res o) := Interact.Prog.req o

/-! ## Traces -/

/-- The replies to the client, with the outcome of each write. -/
def replies (tr : Trace) : List (Option CmdId × Value × Option Err) :=
  tr.filterMap fun
    | ⟨.cwrite id v, r⟩ => some (id, v, r)
    | _ => none

/-- The frames written to backends, with their connections. -/
def written (tr : Trace) : List (ConnId × Frame) :=
  tr.flatMap fun
    | ⟨.write c fs, _⟩ => fs.map fun f => (c, f)
    | _ => []

theorem mem_replies {tr : Trace} {id : Option CmdId} {v : Value} {r : Option Err} :
    (id, v, r) ∈ replies tr ↔ (⟨.cwrite id v, r⟩ : Event) ∈ tr := by
  rw [replies, List.mem_filterMap]
  constructor
  · rintro ⟨⟨o, r'⟩, he, h⟩
    cases o <;> cases h
    exact he
  · intro he
    exact ⟨_, he, rfl⟩

theorem mem_written {tr : Trace} {c : ConnId} {f : Frame} :
    (c, f) ∈ written tr ↔ ∃ fs r, (⟨.write c fs, r⟩ : Event) ∈ tr ∧ f ∈ fs := by
  rw [written, List.mem_flatMap]
  constructor
  · rintro ⟨⟨o, r⟩, he, h⟩
    cases o with
    | write c' fs =>
      obtain ⟨g, hg, hfg⟩ := List.mem_map.1 h
      cases hfg
      exact ⟨fs, r, he, hg⟩
    | _ => cases h
  · rintro ⟨fs, r, he, hf⟩
    exact ⟨_, he, List.mem_map.2 ⟨f, hf, rfl⟩⟩

/-! ## An environment in which nothing fails -/

/-- The answers of backends that reply `answer f` to a frame, of a client that takes
every reply, and of a proxy without a topology. -/
def calm (answer : Frame → Value) : (o : Op) → Res o
  | .load => none
  | .genAdd => 0
  | .store _ | .setFlavor _ | .syncPools _ | .put _ | .drop _ | .addBackend _ _ => ()
  | .flavor => .unknown
  | .ctxErr | .deadline | .cwrite _ _ | .cflush | .write _ _ => none
  | .get _ _ => .ok 0
  | .read _ f => .ok (answer f)
  | .race | .turns | .subsAdd _ _ | .subsDel _ => 0
  | .subsKeys => []
  | .subsAddr _ => ""
  | .backend _ => none
  | .waitAck _ => .ok Value.zero
  | .closeSub => []

/-- The same, but the reads in `fails` time out. -/
def timingOut (fails : Frame → Bool) (answer : Frame → Value) : (o : Op) → Res o
  | .read _ f => if fails f then .error "i/o timeout" else .ok (answer f)
  | o => calm answer o

/-- A configuration with one seed and no password. -/
def seeded : Config := { clusterSeeds := ["10.0.0.1:6379"] }

theorem seeded_valid : seeded.Valid := ⟨by decide, by decide, by decide, by decide⟩

/-- The trace and the result of a program in which request number `n` is answered
by `env n`. -/
def scripted {α : Type} (env : Nat → (o : Op) → Res o) (p : Prog α) : α × Trace :=
  (p.exec (fun n o => (env n o, n + 1)) 0).1

theorem scripted_runs {α : Type} (env : Nat → (o : Op) → Res o) (p : Prog α) :
    p.Runs (scripted env p).2 (scripted env p).1 :=
  Interact.Prog.exec_runs _ p 0

theorem scripted_events {α : Type} (env : Nat → (o : Op) → Res o) {P : Event → Prop}
    (hP : ∀ n o, P ⟨o, env n o⟩) (p : Prog α) : ∀ e ∈ (scripted env p).2, P e :=
  Interact.Prog.exec_events hP p 0

end RespProxy
