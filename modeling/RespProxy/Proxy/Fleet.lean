import RespProxy.Cluster.Map
import RespProxy.Lib.Threads
import RespProxy.Proxy.Replies

/-! # Fast batches and the backends behind them

A fast batch is classified command by command, each with the topology of that instant,
and then written group by group, the groups of different nodes at once. A node takes
the commands of a connection in order. It executes a command that writes keys if it
owns their slots, and names the owner otherwise; the owner of a slot may change at any
time.

`Fleet` is the machine of these backends, with the requests of the session among its
labels. Commands that write the same key are executed in the order of the batch
(`InOrder`), if the topologies of the classification agree on the node of its slot, and
its owner stays the same from then on (`Steady`).
-/

namespace RespProxy.Proxy

open Cluster Command Resp

/-! ## The machine -/

/-- What backends make of commands and connections. -/
structure Backends where
  /-- the keys a command writes -/
  writes : Argv → List Bytes
  asking : writes [arg "ASKING"] = []
  /-- the address a connection leads to -/
  node : ConnId → Addr

/-- A connection: the commands written and not served, and the replies sent and not read. -/
structure Link where
  wire : List Frame := []
  replies : List Value := []
deriving DecidableEq, Repr

structure Fleet where
  /-- the owner of a slot -/
  owner : Nat → Addr
  links : ConnId → Link := fun _ => {}
  /-- the connections that are checked out for the batch -/
  held : List ConnId := []
  /-- some connection was asked for -/
  started : Bool := false
  /-- the commands that were executed -/
  log : List Frame := []

inductive Happening where
  /-- a request of the session, with its answer -/
  | event (e : Event)
  /-- a write fails when the first `n` commands are delivered -/
  | torn (c : ConnId) (fs : List Frame) (e : Err) (n : Nat)
  /-- the node behind the connection takes the next command and replies -/
  | serve (c : ConnId) (v : Value)
  /-- a slot changes its owner -/
  | move (slot : Nat) (addr : Addr)

/-- The request of the session that a label stands for. -/
def Happening.event? : Happening → Option Event
  | .event e => some e
  | .torn c fs e _ => some ⟨.write c fs, some e⟩
  | _ => none

variable (cfg : Config) (B : Backends)

/-- The slot of a key. -/
def keyOf (k : Bytes) : Nat := slotOf cfg (.mk k)

/-- The node behind the connection owns the keys that the command writes. -/
def Fleet.owns (s : Fleet) (c : ConnId) (f : Frame) : Bool :=
  (B.writes f.argv).all fun k => decide (s.owner (keyOf cfg k) = B.node c)

def Fleet.setLink (s : Fleet) (c : ConnId) (link : Link) : Fleet :=
  { s with links := fun d => if d = c then link else s.links d }

/-- Commands arrive. -/
def Fleet.deliver (s : Fleet) (c : ConnId) (fs : List Frame) : Fleet :=
  s.setLink c { s.links c with wire := (s.links c).wire ++ fs }

/-- The node behind the connection may reply `v`: the owner executes the command,
another node names the owner. -/
def Fleet.behaves (s : Fleet) (c : ConnId) (f : Frame) (v : Value) : Bool :=
  match redirectOf v with
  | none => s.owns cfg B c f
  | some red => !s.owns cfg B c f && red.moved && (B.writes f.argv).any fun k =>
      decide (red.slot = keyOf cfg k ∧ red.addr = s.owner (keyOf cfg k))

/-- The answer to a request of the session. -/
def Fleet.answer (s : Fleet) : (o : Op) → Res o → Option Fleet
  | .get addr _, .ok c =>
    if B.node c = addr ∧ c ∉ s.held then some { s with held := c :: s.held, started := true }
    else none
  | .get _ _, .error _ => some { s with started := true }
  | .put c, _ | .drop c, _ => some { s with held := s.held.filter (· ≠ c) }
  | .write c fs, none => some (s.deliver c fs)
  | .read c _, .ok v =>
    match (s.links c).replies with
    | w :: replies => if v = w then some (s.setLink c { s.links c with replies }) else none
    | [] => none
  | _, _ => some s

def Fleet.next (s : Fleet) : Happening → Option Fleet
  | .event e => s.answer B e.op e.res
  | .torn c fs _ n => some (s.deliver c (fs.take n))
  | .serve c v =>
    match (s.links c).wire with
    | f :: wire =>
      -- a command that writes no keys may be executed or redirected anywhere
      if B.writes f.argv ≠ [] ∧ ¬ s.behaves cfg B c f v then none
      else
        let s' := s.setLink c { wire, replies := (s.links c).replies ++ [v] }
        if (redirectOf v).isNone then some { s' with log := s.log ++ [f] } else some s'
    | [] => none
  | .move slot addr => some { s with owner := fun n => if n = slot then addr else s.owner n }

/-- A node redirects exactly what it does not own. -/
theorem Fleet.behaves_owns {s : Fleet} {c : ConnId} {f : Frame} {v : Value}
    (h : s.behaves cfg B c f v = true) : (redirectOf v).isNone = s.owns cfg B c f := by
  unfold behaves at h
  split at h
  · next hred => rw [hred, h]; rfl
  · next red hred =>
    simp only [Bool.and_eq_true, Bool.not_eq_true'] at h
    rw [hred, h.1.1]
    rfl

/-! ## Order -/

/-- The client's command a frame belongs to. -/
def Origin.id : Origin → Option CmdId
  | .client id _ _ _ => some id
  | .refresh => none

/-- Commands of the batch that write the key are executed in the order they were sent. -/
def InOrder (k : Bytes) (b : List ClientCmd) (log : List Frame) : Prop :=
  ∀ c₁ c₂, [c₁, c₂].Sublist b → ∀ f₁ f₂, Origin.id f₁.src = some c₁.id →
    Origin.id f₂.src = some c₂.id → k ∈ B.writes f₁.argv → k ∈ B.writes f₂.argv →
    ¬ [f₂, f₁].Sublist log

/-- Where a topology sends a slot: to its node, or to a master for want of one. -/
inductive Route where
  | node (addr : Addr)
  | master (addr : Option Addr)
deriving DecidableEq, Repr

def Route.addr : Route → Option Addr
  | .node addr => some addr
  | .master addr => addr

/-- The master that commands go to when nothing better is known. -/
def fallback (t : Option Topology) : Option Addr :=
  (t.bind Topology.firstMaster <|>
    cfg.clusterSeeds.head?.map fun seed =>
      ({ addr := seed, health := .online, master := true } : Node)).map Node.addr

def routeOf (t : Option Topology) (slot : Nat) : Route :=
  match ownerOf t slot with
  | some addr => .node addr
  | none => .master (fallback cfg t)

/-- What a step must meet for the commands that write `k` to stay in order. -/
def Steady (k : Bytes) (ρ : Route) (s : Fleet) : Happening → Prop
  -- the topologies of the classification agree on the slot
  | .event ⟨.load, t⟩ => s.started = false → routeOf cfg t (keyOf cfg k) = ρ
  -- a connection comes without anything outstanding
  | .event ⟨.get _ _, .ok c⟩ => s.links c = {}
  -- the slot stays where it is once the batch is on its way
  | .move slot addr => s.started = true → slot = keyOf cfg k → addr = s.owner slot
  | _ => True

/-- `ExtractKeys` finds the keys that a command writes along with `k`. -/
def Finds (k : Bytes) (argv : Argv) : Prop :=
  k ∈ B.writes argv → ∀ keys, extractKeys argv = some keys →
    ∀ k' ∈ B.writes argv, k' ∈ keys.map Slice.bytes

/-! ## The nodes of a batch -/

variable {cfg B} {slot : Nat} {ρ : Route}

/-- The topologies that are loaded have one route for the slot. -/
def Agreed (cfg : Config) (slot : Nat) (ρ : Route) (e : Event) : Prop :=
  match e with
  | ⟨.load, t⟩ => routeOf cfg t slot = ρ
  | _ => True

/-- A slot without a node goes to the master. -/
theorem routeOf_master {t : Option Topology} {addr : Option Addr}
    (h : routeOf cfg t slot = .master addr) : fallback cfg t = addr := by
  unfold routeOf at h
  split at h
  · cases h
  · cases h
    rfl

theorem owner_agreed : Idle (Agreed cfg slot ρ) (fun r => r = ρ.addr) (owner cfg slot false) := by
  intro t ht
  refine ⟨trivial, ?_⟩
  have hroute : routeOf cfg t slot = ρ := ht
  have howner : ownerOf t slot = (t.bind fun t => t.nodeForSlot slot false).map Node.addr := by
    cases t <;> rfl
  rw [routeOf, howner] at hroute
  simp only [Bool.false_and, Interact.Prog.pure_eq, Interact.Prog.ret_bind]
  generalize (t.bind fun t => t.nodeForSlot slot false) = n at hroute ⊢
  cases n with
  | some n =>
    subst hroute
    exact rfl
  | none =>
    -- the master comes from a second look
    intro t' ht'
    have hroute' : routeOf cfg t' slot = .master (fallback cfg t) := Eq.trans ht' hroute.symm
    subst hroute
    exact ⟨trivial, routeOf_master hroute'⟩

/-- A command for the slot goes to the node of the route. -/
def Routed (slot : Nat) (ρ : Route) : Classified → Prop
  | .send slot' addr _ _ => slot' = slot → some addr = ρ.addr
  | _ => True

/-- The classification sends all commands for the slot to one node. -/
theorem classifyAll_routed (s : Session) (b : List ClientCmd) :
    Idle (Agreed cfg slot ρ) (fun r => ∀ ks, r.2 = some ks → ∀ k ∈ ks, Routed slot ρ k)
      (classifyAll cfg s b) := by
  have howner : ∀ slot', Idle (Agreed cfg slot ρ) (fun r => slot' = slot → r = ρ.addr)
      (owner cfg slot' false) := by
    intro slot'
    by_cases hslot : slot' = slot
    · subst hslot
      exact owner_agreed.mono (fun _ _ h => h) fun _ hr _ => hr
    · exact (owner_idle cfg slot' false).mono (fun _ _ h => h) fun _ _ h => absurd h hslot
  refine (classifyAll_passes (classifyPipe_found howner) s b).mono (fun _ _ he => he) ?_
  intro r hr ks hks k hk
  obtain ⟨s', c, hfound⟩ := (hr ks hks).2.of_mem hk
  cases hfound with
  | send _ _ _ _ _ ho => exact ho
  | _ => trivial

end RespProxy.Proxy
