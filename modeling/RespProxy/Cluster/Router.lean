import RespProxy.Env

/-! # The router (`internal/cluster/router.go`, `internal/pool/pool.go`)

Where a command goes, and the round trip to a backend with `MOVED` and `ASK`
redirects followed. A checked-out connection goes back to its pool with `put`
after a round trip that succeeded and is closed with `drop` after one that
failed.
-/

namespace RespProxy.Cluster

open Resp

variable (cfg : Config)

/-- `SlotOf`. -/
def slotOf (key : Slice) : Nat := keySlot key.bytes cfg.hashTagOpen cfg.hashTagClose

/-- `CrossSlot`: the keys span more than one slot. -/
def crossSlot : List Slice → Bool
  | [] => false
  | k :: ks => ks.any fun k' => slotOf cfg k' ≠ slotOf cfg k

/-- `rewrite`: the address map of the configuration. -/
def rewriteAddr (addr : Addr) : Addr :=
  match cfg.addressMap.lookup addr with
  | some mapped => if mapped ≠ "" then mapped else addr
  | none => addr

/-- The `NodeForSlot` method of `Router`. -/
def nodeForSlot (slot : Nat) (read : Bool) : Prog (Option Node) := do
  let t ← ask .load
  return t.bind fun t => t.nodeForSlot slot (read && cfg.readFromReplicas)

/-- `AnyMaster`: a known master, else the first seed. -/
def anyMaster : Prog (Option Node) := do
  let t ← ask .load
  return t.bind Topology.firstMaster <|>
    cfg.clusterSeeds.head?.map fun seed => { addr := seed, health := .online, master := true }

/-- The address that serves `slot`: its node, else any master. -/
def owner (slot : Nat) (read : Bool) : Prog (Option Addr) := do
  match ← nodeForSlot cfg slot read with
  | some n => return some n.addr
  | none => return (← anyMaster cfg).map Node.addr

/-- `Generation`. -/
def generation : Prog Nat := do
  let t ← ask .load
  return (t.map Topology.generation).getD 0

/-- The `Flavor` method of `Router`. -/
def currentFlavor : Prog Flavor := do
  match ← ask .load with
  | some t => if t.flavor ≠ .unknown then return t.flavor else ask .flavor
  | none => ask .flavor

/-- `candidateAddrs`: known masters, then seeds, without empty or repeated ones. -/
def candidateAddrs : Prog (List Addr) := do
  let t ← ask .load
  let masters := ((t.map Topology.nodes).getD []).filter Node.master
  return ((masters.map Node.addr ++ cfg.clusterSeeds).filter (· ≠ "")).eraseDups

/-- `Map.Store`: a new generation, then the pointer. -/
def storeTopology (t : Topology) : Prog Unit := do
  let gen ← ask .genAdd
  ask (.store { t with generation := gen })

/-- `UpdateSlot`. -/
def updateSlotAt (slot : Nat) (addr : Addr) : Prog Unit := do
  let cur ← ask .load
  storeTopology (updateSlot cur slot addr)

/-! ## Connections -/

/-- `poolFor(addr, replica).Get`. -/
def getConn (addr : Addr) (replica : Bool) : Prog (Except Err ConnId) :=
  ask (.get (rewriteAddr cfg addr) replica)

/-- `DoRaw`: write one frame, read one reply. -/
def doFrame (c : ConnId) (f : Frame) : Prog (Except Err Value) := do
  match ← ask (.write c [f]) with
  | some e => return .error e
  | none => ask (.read c f)

/-- `Checkout`: a connection to the owner of `slot`. -/
def checkout (slot : Nat) : Prog (Except Err ConnId) := do
  match ← owner cfg slot false with
  | none => return .error "no backend nodes"
  | some addr => getConn cfg addr false

/-! ## Commands -/

/-- The `ASKING` that goes ahead of a command after an `ASK` redirect. -/
def askingFrame (f : Frame) : Frame := { argv := [arg "ASKING"], src := f.src }

/-- One round trip on a connection of `execFrame`, with `ASKING` ahead if wanted. -/
def askAndDo (c : ConnId) (asking : Bool) (f : Frame) : Prog (Except Err Value) := do
  if asking then
    match ← doFrame c (askingFrame f) with
    | .error e => return .error e
    | .ok _ => doFrame c f
  else doFrame c f

/-- One hop: check out, do the round trip, return or drop the connection. -/
def hop (addr : Addr) (replica asking : Bool) (f : Frame) : Prog (Except Err Value) := do
  match ← getConn cfg addr replica with
  | .error e => return .error e
  | .ok c =>
    match ← askAndDo c asking f with
    | .error e => do
      ask (.drop c)
      return .error e
    | .ok v => do
      ask (.put c)
      return .ok v

/-- The redirect a reply asks for. -/
def redirectOf (v : Value) : Option Redirect :=
  if v.isError then parseRedirect v.str.bytes else none

/-- The address of the next hop: the hint of a redirect, else the owner of the slot. -/
def hopAddr (slot : Nat) (hint : Addr) (read : Bool) : Prog (Option Addr) :=
  if hint ≠ "" then return some hint else owner cfg slot read

/-- The hop loop of `execFrame`; `last` is the reply of the hop before. -/
def execHops (f : Frame) : Nat → (slot : Nat) → (hint : Addr) → (read asking : Bool) →
    (last : Value) → Prog (Except Err Value)
  | 0, _, _, _, _, last => return .ok last
  | hops + 1, slot, hint, read, asking, _ => do
    match ← ask .ctxErr with
    | some e => return .error e
    | none =>
      match ← hopAddr cfg slot hint (read && !asking) with
      | none => return .error "no backend nodes"
      | some addr =>
        match ← hop cfg addr (read && cfg.readFromReplicas) asking f with
        | .error e => return .error e
        | .ok v =>
          match redirectOf v with
          | none => return .ok v
          | some red =>
            if red.moved then do
              updateSlotAt red.slot red.addr
              execHops f hops red.slot red.addr read false v
            else execHops f hops red.slot red.addr false true v

/-- `Exec` and `ExecRaw`: send a frame to the owner of `slot`, following redirects. -/
def exec (slot : Nat) (f : Frame) (read : Bool) : Prog (Except Err Value) :=
  execHops cfg f cfg.movedHopLimit slot "" read false Value.zero

/-! ## Topology refresh -/

def infoFrame : Frame := { argv := [arg "INFO", arg "server"], src := .refresh }
def shardsFrame : Frame := { argv := [arg "CLUSTER", arg "SHARDS"], src := .refresh }
def slotsFrame : Frame := { argv := [arg "CLUSTER", arg "SLOTS"], src := .refresh }

/-- How a refresh from one address ended. -/
inductive Refreshed where
  | ok | failed (e : Err) | panic
deriving DecidableEq, Repr

/-- The flavor detection of `refreshFrom`; a failed round trip is ignored. -/
def detect (c : ConnId) : Prog Unit := do
  let known ← ask .flavor
  if known = .unknown ∨ cfg.flavorAuto = true then
    match ← doFrame c infoFrame with
    | .ok info => if info.isError then return () else ask (.setFlavor (detectFlavor info.str.bytes))
    | .error _ => return ()
  else return ()

/-- Install a parsed topology. -/
def install (parsed : Option (Except Err Topology)) : Prog Refreshed :=
  match parsed with
  | none => return .panic
  | some (.error e) => return .failed e
  | some (.ok t) => do
    let flavor ← ask .flavor
    let t := { t with flavor }
    storeTopology t
    ask (.syncPools t)
    return .ok

/-- The body of `refreshFrom` between `Get` and the deferred `Put`. -/
def refreshOn (c : ConnId) : Prog Refreshed := do
  detect cfg c
  let slots : Prog Refreshed := do
    match ← doFrame c slotsFrame with
    | .error e => return .failed e
    | .ok v => if v.isError then return .failed (str v.str.bytes) else install (parseSlots v)
  match ← doFrame c shardsFrame with
  | .ok v => if v.isError then slots else install (parseShards v)
  | .error _ => slots

/-- `refreshFrom`: the connection goes back to the pool whatever happened on it. -/
def refreshFrom (addr : Addr) : Prog Refreshed := do
  match ← getConn cfg addr false with
  | .error e => return .failed e
  | .ok c => do
    let r ← refreshOn cfg c
    ask (.put c)
    return r

/-- The loop of `Refresh`: the first address that answers decides. -/
def refreshLoop : List Addr → Err → Prog Refreshed
  | [], last => return .failed last
  | addr :: addrs, _ => do
    match ← refreshFrom cfg addr with
    | .ok => return .ok
    | .panic => return .panic
    | .failed e => refreshLoop addrs e

/-- `Refresh`. -/
def refresh : Prog Refreshed := do
  refreshLoop cfg (← candidateAddrs cfg) "no cluster seeds"

/-! ## Requests inside the proxy -/

/-- The request is about the map, the flavor or the goroutines. -/
def InnerEvent (e : Event) : Prop :=
  match e.op with
  | .load | .genAdd | .store _ | .flavor | .race => True
  | _ => False

/-- A program that makes no other requests. -/
abbrev Inner (A : Event → Prop) {α : Type} (p : Prog α) : Prop :=
  p.Ensures A InnerEvent fun _ => True

section

variable {A : Event → Prop} {cfg}

theorem anyMaster_inner : Inner A (anyMaster cfg) := fun _ _ => ⟨trivial, trivial⟩

theorem owner_inner (slot : Nat) (read : Bool) : Inner A (owner cfg slot read) := by
  have hnode : Inner A (nodeForSlot cfg slot read) := fun _ _ => ⟨trivial, trivial⟩
  refine hnode.bind fun n _ => ?_
  cases n with
  | some n => trivial
  | none => exact anyMaster_inner.bind fun _ _ => trivial

theorem hopAddr_inner (slot : Nat) (hint : Addr) (read : Bool) :
    Inner A (hopAddr cfg slot hint read) := by
  unfold hopAddr
  split
  · trivial
  · exact owner_inner slot read

theorem generation_inner : Inner A generation := fun _ _ => ⟨trivial, trivial⟩

theorem currentFlavor_inner : Inner A currentFlavor := by
  refine fun t _ => ⟨trivial, ?_⟩
  have hask : Inner A (ask .flavor) := fun _ _ => ⟨trivial, trivial⟩
  cases t with
  | none => exact hask
  | some t => exact iteInduction (fun _ => trivial) fun _ => hask

theorem candidateAddrs_inner : Inner A (candidateAddrs cfg) := fun _ _ => ⟨trivial, trivial⟩

theorem storeTopology_inner (t : Topology) : Inner A (storeTopology t) :=
  fun _ _ => ⟨trivial, fun _ _ => ⟨trivial, trivial⟩⟩

theorem updateSlotAt_inner (slot : Nat) (addr : Addr) : Inner A (updateSlotAt slot addr) :=
  fun _ _ => ⟨trivial, storeTopology_inner _⟩

end

end RespProxy.Cluster
