import RespProxy.Cluster.Slot
import RespProxy.Command.Keys

/-! # The cluster topology (`internal/cluster/topology.go`)

An immutable snapshot of slot ownership, and the two parsers that build one
from `CLUSTER SHARDS` and `CLUSTER SLOTS`. A parser indexes the slot array with
numbers from the reply, and a negative one panics (`none`).
-/

namespace RespProxy.Cluster

open Resp

/-- Addresses, `host:port`. -/
abbrev Addr := String

/-- The text of a Go error. -/
abbrev Err := String

inductive Health where
  | unknown | online | loading | fail | hidden
deriving DecidableEq, Repr

/-- The detected backend. -/
inductive Flavor where
  | unknown | dragonfly | redis | emulated
deriving DecidableEq, Repr

/-- `strings.ToLower`, as far as comparisons with ASCII words can tell: the dotted
capital I and the Kelvin sign are the runes outside ASCII with an ASCII lower case. -/
def toLower : Bytes → Bytes
  | 0xc4 :: 0xb0 :: rest => 105 :: toLower rest
  | 0xe2 :: 0x84 :: 0xaa :: rest => 107 :: toLower rest
  | c :: rest => lowerByte c :: toLower rest
  | [] => []

def parseHealth (s : Bytes) : Health :=
  let s := toLower s
  if s = lit "online" then .online
  else if s = lit "loading" then .loading
  else if s = lit "fail" then .fail
  else if s = lit "hidden" then .hidden
  else .online

/-- A cluster endpoint. -/
structure Node where
  id : String := ""
  addr : Addr := ""
  role : String := ""
  health : Health := .unknown
  master : Bool := false
deriving DecidableEq, Repr

/-- A snapshot of slot ownership. `slots` holds indexes into `nodes`, -1 where
the owner is unknown; `masters` holds indexes into `nodes`. -/
structure Topology where
  generation : Nat := 0
  flavor : Flavor := .unknown
  slots : Nat → Int := fun _ => -1
  nodes : List Node := []
  masters : List Nat := []

/-- `newEmptyTopology`. -/
def newEmptyTopology : Topology := {}

/-- The `NodeForSlot` method of `Topology`; any online node that is not a master
counts as a replica. -/
def Topology.nodeForSlot (t : Topology) (slot : Nat) (wantReplica : Bool) : Option Node :=
  if slot ≥ slotCount ∨ t.slots slot < 0 then none
  else
    t.nodes[(t.slots slot).toNat]?.map fun master =>
      if wantReplica then
        (t.nodes.find? fun n => !n.master && decide (n.health = .online)).getD master
      else master

/-- `FirstMaster`: by the master list, then by the node records, then any node. -/
def Topology.firstMaster (t : Topology) : Option Node :=
  (t.masters.findSome? fun i => t.nodes[i]?) <|>
    (t.nodes.find? fun n => n.master || decide (n.role = "master")) <|> t.nodes.head?

/-- `nodeIndex`. -/
def Topology.nodeIndex (t : Topology) (addr : Addr) (id : String) : Option Nat :=
  t.nodes.findIdx? fun n =>
    (decide (addr ≠ "") && decide (n.addr = addr)) || (decide (id ≠ "") && decide (n.id = id))

/-- `upsertNode`, with the index of the node. -/
def Topology.upsertNode (t : Topology) (n : Node) : Topology × Nat :=
  match t.nodeIndex n.addr n.id with
  | some i =>
    let upd (old : Node) : Node :=
      { old with
        id := if n.id ≠ "" then n.id else old.id
        role := n.role, master := n.master, health := n.health }
    ({ t with nodes := t.nodes.modify i upd }, i)
  | none =>
    let idx := t.nodes.length
    ({ t with
        nodes := t.nodes ++ [n]
        masters := if n.master then t.masters ++ [idx] else t.masters }, idx)

/-- The new snapshot of `UpdateSlot`: the slot moves to `addr`. -/
def updateSlot (cur : Option Topology) (slot : Nat) (addr : Addr) : Topology :=
  let t := cur.getD newEmptyTopology
  let next : Topology × Nat := match t.nodeIndex addr "" with
    | some i => (t, i)
    | none =>
      let idx := t.nodes.length
      ({ t with
          nodes := t.nodes ++ [{ addr, role := "master", health := .online, master := true }]
          masters := t.masters ++ [idx] }, idx)
  { next.1 with slots := fun s => if s = slot then (next.2 : Int) else t.slots s }

/-- `installSeeds`: the seeds as masters, every slot on the first one. -/
def seedTopology (flavor : Flavor) (seeds : List Addr) : Topology :=
  let t := seeds.foldl (fun t seed =>
    (t.upsertNode { addr := seed, role := "master", health := .online, master := true }).1)
    { newEmptyTopology with flavor }
  if t.nodes = [] then t else { t with slots := fun _ => 0 }

/-! ## Parsers -/

/-- The slot loop of the parsers: `start, …, stop` go to node `idx`. -/
def Topology.setRange (t : Topology) (start stop : Int) (idx : Nat) : Option Topology :=
  if start < 0 ∧ start ≤ stop then none
  else some { t with
    slots := fun s => if start ≤ (s : Int) ∧ (s : Int) ≤ stop then (idx : Int) else t.slots s }

/-- The port of a node: an integer, or a string that parses as one. -/
def portOf (v : Value) (textual : Bool) : Int :=
  if textual then (Decimal.parseInt64 v.str.bytes).getD v.int else v.int

/-- `fmt.Sprintf("%s:%d", …)`. -/
def joinPort (host : String) (port : Int) : Addr := host ++ ":" ++ str (Decimal.ofInt port)

/-- `parseSlotsNode`. -/
def parseSlotsNode (v : Value) : Option Node :=
  match v.values with
  | ip :: port :: rest =>
    let p := portOf port (port.type = .bulkString || port.type = .simpleString)
    if v.type ≠ .array ∨ ip.str.bytes = [] ∨ p ≤ 0 then none
    else some
      { id := (rest.head?.map fun i => str i.str.bytes).getD ""
        addr := joinPort (str ip.str.bytes) p
        health := .online }
  | _ => none

/-- The nodes of one `CLUSTER SLOTS` entry; the first one is the master. -/
def slotsNodes (start stop : Int) : Bool → List Value → Topology → Option Topology
  | _, [], t => some t
  | first, v :: vs, t =>
    match parseSlotsNode v with
    | none => slotsNodes start stop false vs t
    | some n =>
      let n := { n with master := first, role := if first then "master" else "replica" }
      let (t, idx) := t.upsertNode n
      if first then (t.setRange start stop idx).bind (slotsNodes start stop false vs)
      else slotsNodes start stop false vs t

/-- One entry of `CLUSTER SLOTS`: first slot, last slot, nodes. -/
def addSlotsEntry (t : Topology) (entry : Value) : Option Topology :=
  match entry.values with
  | start :: stop :: node :: nodes =>
    if entry.type = .array then slotsNodes start.int stop.int true (node :: nodes) t else some t
  | _ => some t

/-- `ParseSlots`. -/
def parseSlots (v : Value) : Option (Except Err Topology) :=
  if v.type ≠ .array ∨ v.null then some (.error "cluster slots: not an array")
  else (v.values.foldlM addSlotsEntry newEmptyTopology).map .ok

/-- A flat map reply as pairs; an odd last element is ignored. -/
def pairs : List Value → List (Value × Value)
  | k :: v :: rest => (k, v) :: pairs rest
  | _ => []

/-- One field of a node in `CLUSTER SHARDS`. -/
def shardField (n : Node) (kv : Value × Value) : Node :=
  let k := toLower kv.1.str.bytes
  let s := str kv.2.str.bytes
  if k = lit "id" then { n with id := s }
  else if k = lit "endpoint" ∨ k = lit "ip" then
    if (n.addr = "" ∨ k = lit "endpoint") ∧ s ≠ "" then { n with addr := s } else n
  else if k = lit "port" then
    if n.addr ≠ "" ∧ ':' ∉ n.addr.toList then
      { n with addr := joinPort n.addr (portOf kv.2 (kv.2.type = .bulkString)) }
    else n
  else if k = lit "role" then
    let role := str (toLower kv.2.str.bytes)
    { n with role, master := decide (role = "master") }
  else if k = lit "health" then { n with health := parseHealth kv.2.str.bytes }
  else n

/-- `parseShardNode`. -/
def parseShardNode (v : Value) : Option Node :=
  if v.type ≠ .array then none
  else
    let n := (pairs v.values).foldl shardField { health := .online }
    if n.addr = "" ∨ ':' ∉ n.addr.toList then none else some n

/-- The slot ranges of a shard. -/
def shardRanges (shard : Value) : List (Int × Int) :=
  (pairs shard.values).flatMap fun kv =>
    if toLower kv.1.str.bytes = lit "slots" then
      (pairs kv.2.values).map fun r => (r.1.int, r.2.int)
    else []

/-- The nodes of a shard. -/
def shardNodes (shard : Value) : List Node :=
  (pairs shard.values).flatMap fun kv =>
    if toLower kv.1.str.bytes = lit "nodes" then kv.2.values.filterMap parseShardNode else []

/-- One shard: its visible nodes are recorded, its ranges go to its last master. -/
def addShard (t : Topology) (shard : Value) : Option Topology :=
  if shard.type ≠ .array then some t
  else
    let visible := (shardNodes shard).filter fun n => decide (n.health ≠ .hidden)
    let (t, master) := visible.foldl (fun (acc : Topology × Option Nat) n =>
      let (t, idx) := acc.1.upsertNode n
      (t, if n.master then some idx else acc.2)) (t, none)
    match master with
    | none => some t
    | some idx => (shardRanges shard).foldlM (fun t r => t.setRange r.1 r.2 idx) t

/-- `ParseShards`. -/
def parseShards (v : Value) : Option (Except Err Topology) :=
  if v.type ≠ .array ∨ v.null then some (.error "cluster shards: not an array")
  else (v.values.foldlM addShard newEmptyTopology).map .ok

/-- `strings.Contains`. -/
def contains (s : Bytes) (w : String) : Bool := s.tails.any fun t => (lit w).isPrefixOf t

/-- `DetectFlavor` of an `INFO` body. -/
def detectFlavor (info : Bytes) : Flavor :=
  let low := toLower info
  if contains low "dragonfly_version" then
    if contains low "cluster_mode:emulated" ∨ contains low "cluster_enabled:0" then .emulated
    else .dragonfly
  else .redis

/-! ## The records of a reply -/

/-- The records `ParseSlots` makes of the nodes of an entry. -/
def slotsRecords : Bool → List Value → List Node
  | _, [] => []
  | first, v :: vs =>
    match parseSlotsNode v with
    | none => slotsRecords false vs
    | some n =>
      { n with master := first, role := if first then "master" else "replica" } ::
        slotsRecords false vs

def entryRecords (entry : Value) : List Node :=
  match entry.values with
  | _ :: _ :: node :: nodes =>
    if entry.type = .array then slotsRecords true (node :: nodes) else []
  | _ => []

/-- The records `ParseShards` makes of the nodes of a shard. -/
def shardRecords (shard : Value) : List Node :=
  if shard.type ≠ .array then []
  else (shardNodes shard).filter fun n => decide (n.health ≠ .hidden)

/-- A property `I` of topologies that the parsers keep: it holds of the empty one, stays
when a node of `es` is recorded, and stays when a range goes to a node in `M`, where the
masters are. -/
structure ParseInv (es : List Node) (I : Topology → Prop) (M : Topology → Nat → Prop) : Prop where
  empty : I newEmptyTopology
  upsert : ∀ t e, e ∈ es → I t → I (t.upsertNode e).1
  kept : ∀ t e i, e ∈ es → I t → M t i → M (t.upsertNode e).1 i
  found : ∀ t e, e ∈ es → I t → e.master = true → M (t.upsertNode e).1 (t.upsertNode e).2
  setRange : ∀ t t' start stop i, I t → M t i → t.setRange start stop i = some t' → I t' ∧ M t' i

section

variable {es : List Node} {I : Topology → Prop} {M : Topology → Nat → Prop} {t t' : Topology}

theorem ParseInv.slotsNodes (h : ParseInv es I M) {start stop : Int} {vs : List Value}
    {first : Bool} (hsub : ∀ e ∈ slotsRecords first vs, e ∈ es) (ht : I t)
    (ht' : slotsNodes start stop first vs t = some t') : I t' := by
  induction vs generalizing first t with
  | nil =>
    cases ht'
    exact ht
  | cons v vs ih =>
    rw [Cluster.slotsNodes] at ht'
    rw [slotsRecords] at hsub
    split at ht'
    · rename_i hv
      rw [hv] at hsub
      exact ih hsub ht ht'
    · rename_i n hv
      rw [hv] at hsub
      obtain ⟨he, hrest⟩ := List.forall_mem_cons.1 hsub
      cases first with
      | true =>
        obtain ⟨t₁, h₁, h₂⟩ := Option.bind_eq_some_iff.1 ht'
        exact ih hrest (h.setRange _ t₁ _ _ _ (h.upsert t _ he ht) (h.found t _ he ht rfl) h₁).1 h₂
      | false => exact ih hrest (h.upsert t _ he ht) ht'

/-- The nodes of a shard, recorded one after the other. -/
theorem ParseInv.shardNodes (h : ParseInv es I M) (ns : List Node) (hsub : ∀ e ∈ ns, e ∈ es)
    (acc : Topology × Option Nat) (hacc : I acc.1) (hm : ∀ i ∈ acc.2, M acc.1 i) :
    let out := ns.foldl (fun (acc : Topology × Option Nat) n =>
      let (t, idx) := acc.1.upsertNode n
      (t, if n.master then some idx else acc.2)) acc
    I out.1 ∧ ∀ i ∈ out.2, M out.1 i := by
  induction ns generalizing acc with
  | nil => exact ⟨hacc, hm⟩
  | cons e ns ih =>
    obtain ⟨he, hrest⟩ := List.forall_mem_cons.1 hsub
    refine ih hrest _ (h.upsert acc.1 e he hacc) fun i hi => ?_
    dsimp only at hi ⊢
    split at hi
    · cases hi
      exact h.found acc.1 e he hacc ‹_›
    · exact h.kept acc.1 e i he hacc (hm i hi)

theorem ParseInv.setRanges (h : ParseInv es I M) {rs : List (Int × Int)} {idx : Nat} (ht : I t)
    (hm : M t idx) (ht' : rs.foldlM (fun t r => t.setRange r.1 r.2 idx) t = some t') : I t' := by
  induction rs generalizing t with
  | nil =>
    cases ht'
    exact ht
  | cons r rs ih =>
    rw [List.foldlM_cons] at ht'
    obtain ⟨t₁, h₁, h₂⟩ := Option.bind_eq_some_iff.1 ht'
    obtain ⟨ht₁, hm₁⟩ := h.setRange t t₁ _ _ idx ht hm h₁
    exact ih ht₁ hm₁ h₂

theorem ParseInv.addSlotsEntry (h : ParseInv es I M) {entry : Value}
    (hsub : ∀ e ∈ entryRecords entry, e ∈ es) (ht : I t)
    (ht' : addSlotsEntry t entry = some t') : I t' := by
  unfold Cluster.addSlotsEntry at ht'
  unfold entryRecords at hsub
  split at ht'
  · rename_i hvals
    rw [hvals] at hsub
    dsimp only at hsub
    split at ht'
    · rename_i htype
      rw [if_pos htype] at hsub
      exact h.slotsNodes hsub ht ht'
    · cases ht'
      exact ht
  · cases ht'
    exact ht

theorem ParseInv.addShard (h : ParseInv es I M) {shard : Value}
    (hsub : ∀ e ∈ shardRecords shard, e ∈ es) (ht : I t) (ht' : addShard t shard = some t') :
    I t' := by
  unfold Cluster.addShard at ht'
  unfold shardRecords at hsub
  split at ht'
  · cases ht'
    exact ht
  · rename_i htype
    rw [if_neg htype] at hsub
    dsimp only at ht'
    obtain ⟨hout, hmaster⟩ := h.shardNodes _ hsub (t, none) ht (fun _ hi => by cases hi)
    generalize List.foldl _ _ _ = out at ht' hout hmaster
    split at ht'
    · cases ht'
      exact hout
    · rename_i idx hidx
      exact h.setRanges hout (hmaster idx hidx) ht'

/-- A parser that goes through the items of a reply. -/
theorem ParseInv.foldlM {f : Topology → Value → Option Topology} {records : Value → List Node}
    {xs : List Value} (hf : ∀ t x t', (∀ e ∈ records x, e ∈ es) → I t → f t x = some t' → I t')
    (hsub : ∀ x ∈ xs, ∀ e ∈ records x, e ∈ es) (ht : I t) (ht' : xs.foldlM f t = some t') :
    I t' := by
  induction xs generalizing t with
  | nil =>
    cases ht'
    exact ht
  | cons x xs ih =>
    rw [List.foldlM_cons] at ht'
    obtain ⟨t₁, h₁, h₂⟩ := Option.bind_eq_some_iff.1 ht'
    obtain ⟨hx, hxs⟩ := List.forall_mem_cons.1 hsub
    exact ih hxs (hf t x t₁ hx ht h₁) h₂

/-- **What every record keeps, `ParseSlots` keeps.** -/
theorem ParseInv.parseSlots {v : Value} (h : ParseInv (v.values.flatMap entryRecords) I M)
    (ht : parseSlots v = some (.ok t)) : I t := by
  unfold Cluster.parseSlots at ht
  split at ht
  · cases ht
  · obtain ⟨t', ht', heq⟩ := Option.map_eq_some_iff.1 ht
    cases heq
    exact ParseInv.foldlM (fun _ _ _ => h.addSlotsEntry)
      (fun x hx e he => List.mem_flatMap.2 ⟨x, hx, he⟩) h.empty ht'

/-- **What every record keeps, `ParseShards` keeps.** -/
theorem ParseInv.parseShards {v : Value} (h : ParseInv (v.values.flatMap shardRecords) I M)
    (ht : parseShards v = some (.ok t)) : I t := by
  unfold Cluster.parseShards at ht
  split at ht
  · cases ht
  · obtain ⟨t', ht', heq⟩ := Option.map_eq_some_iff.1 ht
    cases heq
    exact ParseInv.foldlM (fun _ _ _ => h.addShard)
      (fun x hx e he => List.mem_flatMap.2 ⟨x, hx, he⟩) h.empty ht'

end

end RespProxy.Cluster
