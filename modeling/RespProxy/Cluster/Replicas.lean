import RespProxy.Cluster.Masters

/-! # Replicas for reads

A reply lists its nodes by shard, and a topology keeps them in one list, in the
order in which they are first named (`namedNodes`), with nothing that says which
replica is whose. `NodeForSlot` takes the first online replica of that list for
every slot (`nodeForSlot_replica`). So a read of a slot stays in the shard of its
owner exactly if that one replica is listed beside the owner
(`readsAtHome_iff`).
-/

namespace RespProxy.Cluster

open Resp

variable {t t' : Topology}
variable {records : Value → List Node} {start stop : Int} {ns : List Node} {idx : Nat}

/-! ## The nodes a reply names -/

/-- A record of a node that is already named renews it; any other is a new node. -/
def addRecord (ns : List Node) (e : Node) : List Node :=
  match ns.findIdx? fun n => decide (n.IsAt e.addr e.id) with
  | some i => ns.modify i (·.renew e)
  | none => ns ++ [e]

/-- The nodes in the order in which they are first named, each as last recorded. -/
def namedNodes (es : List Node) : List Node := es.foldl addRecord []

theorem upsertNode_nodes (t : Topology) (e : Node) :
    (t.upsertNode e).1.nodes = addRecord t.nodes e := by
  have hidx : t.nodeIndex e.addr e.id =
      t.nodes.findIdx? fun n => decide (n.IsAt e.addr e.id) := by
    refine congrArg (t.nodes.findIdx? ·) (funext fun n => ?_)
    rw [Bool.eq_iff_iff, decide_eq_true_iff]
    simp [Node.IsAt]
  rw [Topology.upsertNode, addRecord, hidx]
  cases t.nodes.findIdx? _ <;> rfl

theorem setRange_nodes (h : t.setRange start stop idx = some t') : t'.nodes = t.nodes := by
  unfold Topology.setRange at h
  split at h
  · cases h
  · cases h
    rfl

theorem slotsNodes_nodes {vs : List Value} {first : Bool}
    (h : slotsNodes start stop first vs t = some t') :
    t'.nodes = (slotsRecords first vs).foldl addRecord t.nodes := by
  induction vs generalizing first t with
  | nil =>
    cases h
    rfl
  | cons v vs ih =>
    rw [slotsNodes] at h
    rw [slotsRecords]
    cases hv : parseSlotsNode v with
    | none =>
      rw [hv] at h
      exact ih h
    | some n =>
      rw [hv] at h
      -- the first node of an entry is the master and takes the range
      cases first with
      | true =>
        obtain ⟨t₁, h₁, h₂⟩ := Option.bind_eq_some_iff.1 h
        have hnodes := (setRange_nodes h₁).trans
          (upsertNode_nodes t { n with master := true, role := "master" })
        rw [ih h₂, hnodes]
        rfl
      | false =>
        have hnodes := upsertNode_nodes t { n with master := false, role := "replica" }
        exact (ih h).trans (congrArg (List.foldl addRecord · _) hnodes)

theorem addSlotsEntry_nodes {entry : Value} (h : addSlotsEntry t entry = some t') :
    t'.nodes = (entryRecords entry).foldl addRecord t.nodes := by
  unfold addSlotsEntry at h
  unfold entryRecords
  split at h
  · split at h
    · rename_i htype
      rw [slotsNodes_nodes h, if_pos htype]
    · rename_i htype
      cases h
      rw [if_neg htype]
      rfl
  · cases h
    rfl

/-- The nodes of a shard, recorded one after the other. -/
theorem recordNodes_nodes (ns : List Node) (acc : Topology × Option Nat) :
    (ns.foldl (fun (acc : Topology × Option Nat) n =>
      let (t, idx) := acc.1.upsertNode n
      (t, if n.master then some idx else acc.2)) acc).1.nodes =
      ns.foldl addRecord acc.1.nodes := by
  induction ns generalizing acc with
  | nil => rfl
  | cons n ns ih =>
    rw [List.foldl_cons, ih, List.foldl_cons, ← upsertNode_nodes]

/-- What a loop that may fail does to a part of its state. -/
theorem foldlM_part {σ α ω : Type} {f : σ → α → Option σ} (part : σ → ω) (g : ω → α → ω)
    (hf : ∀ s x s', f s x = some s' → part s' = g (part s) x) {xs : List α} {s s' : σ}
    (h : xs.foldlM f s = some s') : part s' = xs.foldl g (part s) := by
  induction xs generalizing s with
  | nil =>
    cases h
    rfl
  | cons x xs ih =>
    rw [List.foldlM_cons] at h
    obtain ⟨s₁, h₁, h₂⟩ := Option.bind_eq_some_iff.1 h
    rw [ih h₂, hf s x s₁ h₁, List.foldl_cons]

theorem setRanges_nodes {rs : List (Int × Int)}
    (h : rs.foldlM (fun t r => t.setRange r.1 r.2 idx) t = some t') : t'.nodes = t.nodes :=
  (foldlM_part Topology.nodes (fun ns _ => ns) (fun _ _ _ => setRange_nodes) h).trans
    (List.foldl_fixed rs)

theorem addShard_nodes {shard : Value} (h : addShard t shard = some t') :
    t'.nodes = (shardRecords shard).foldl addRecord t.nodes := by
  unfold addShard at h
  unfold shardRecords
  split at h
  · rename_i htype
    cases h
    rw [if_pos htype]
    rfl
  · rename_i htype
    rw [if_neg htype]
    have hnodes := recordNodes_nodes
      ((shardNodes shard).filter fun n => decide (n.health ≠ .hidden)) (t, none)
    dsimp only at h
    generalize List.foldl _ (t, none) _ = out at h hnodes
    split at h
    · cases h
      exact hnodes
    · rw [setRanges_nodes h]
      exact hnodes

/-- A parser that goes through the items of a reply names their nodes in turn. -/
theorem foldlM_nodes {f : Topology → Value → Option Topology}
    (hf : ∀ t x t', f t x = some t' → t'.nodes = (records x).foldl addRecord t.nodes)
    {xs : List Value} (h : xs.foldlM f t = some t') :
    t'.nodes = (xs.flatMap records).foldl addRecord t.nodes := by
  rw [List.foldl_flatMap]
  exact foldlM_part Topology.nodes (fun ns x => (records x).foldl addRecord ns) hf h

/-- `t` was built from the reply `v`, in whose items the nodes stand as `records` says. -/
inductive BuiltFrom (v : Value) (t : Topology) : (Value → List Node) → Prop where
  | slots (h : parseSlots v = some (.ok t)) : BuiltFrom v t entryRecords
  | shards (h : parseShards v = some (.ok t)) : BuiltFrom v t shardRecords

theorem BuiltFrom.nodes {v : Value}
    (h : BuiltFrom v t records) : t.nodes = namedNodes (v.values.flatMap records) := by
  cases h with
  | slots h =>
    unfold parseSlots at h
    split at h
    · cases h
    · obtain ⟨t', ht', heq⟩ := Option.map_eq_some_iff.1 h
      cases heq
      exact foldlM_nodes (fun _ _ _ h => addSlotsEntry_nodes h) ht'
  | shards h =>
    unfold parseShards at h
    split at h
    · cases h
    · obtain ⟨t', ht', heq⟩ := Option.map_eq_some_iff.1 h
      cases heq
      exact foldlM_nodes (fun _ _ _ h => addShard_nodes h) ht'

/-- Nodes keep the address under which they were first recorded. -/
theorem addr_of_mem_addRecord {e n : Node} (h : n ∈ addRecord ns e) :
    (∃ m ∈ ns, m.addr = n.addr) ∨ e.addr = n.addr := by
  unfold addRecord at h
  split at h
  · obtain ⟨i, hi⟩ := List.getElem?_of_mem h
    rw [List.getElem?_modify] at hi
    obtain ⟨m, hm, rfl⟩ := Option.map_eq_some_iff.1 hi
    refine .inl ⟨m, List.mem_of_getElem? hm, ?_⟩
    split <;> rfl
  · rcases List.mem_append.1 h with h | h
    · exact .inl ⟨n, h, rfl⟩
    · rw [List.mem_singleton.1 h]
      exact .inr rfl

theorem addr_of_mem_namedNodes {es : List Node} {n : Node} (h : n ∈ namedNodes es) :
    ∃ e ∈ es, e.addr = n.addr := by
  have hfold : ∀ (es ns : List Node), n ∈ es.foldl addRecord ns →
      (∃ m ∈ ns, m.addr = n.addr) ∨ ∃ e ∈ es, e.addr = n.addr := by
    intro es
    induction es with
    | nil => exact fun ns hn => .inl ⟨n, hn, rfl⟩
    | cons e es ih =>
      intro ns hn
      rcases ih _ hn with ⟨m, hm, haddr⟩ | ⟨e', he', haddr⟩
      · rw [← haddr]
        rcases addr_of_mem_addRecord hm with hold | hnew
        · exact .inl hold
        · exact .inr ⟨e, List.mem_cons_self, hnew⟩
      · exact .inr ⟨e', List.mem_cons_of_mem _ he', haddr⟩
  exact (hfold es [] h).resolve_left fun ⟨_, hm, _⟩ => List.not_mem_nil hm

/-! ## The replica of a slot -/

def Node.OnlineReplica (n : Node) : Prop := n.master = false ∧ n.health = .online

instance (n : Node) : Decidable n.OnlineReplica := inferInstanceAs (Decidable (_ ∧ _))

/-- `m` owns the slot `s`. -/
def Topology.OwnerAt (t : Topology) (s : Nat) (m : Node) : Prop :=
  s < slotCount ∧ 0 ≤ t.slots s ∧ t.nodes[(t.slots s).toNat]? = some m

/-- `r` is the first online replica of the list. -/
def FirstReplica (ns : List Node) (r : Node) : Prop :=
  ∃ before after, ns = before ++ r :: after ∧ r.OnlineReplica ∧ ∀ n ∈ before, ¬ n.OnlineReplica

/-- The records name the node, by its address or its id. -/
def Lists (es : List Node) (n : Node) : Prop :=
  ∃ e ∈ es, e.addr = n.addr ∨ n.id ≠ "" ∧ e.id = n.id

instance (es : List Node) (n : Node) : Decidable (Lists es n) :=
  inferInstanceAs (Decidable (∃ e ∈ es, _))

/-- An item of the reply, an entry or a shard, lists both nodes. -/
def ListedTogether (v : Value) (records : Value → List Node) (n m : Node) : Prop :=
  ∃ x ∈ v.values, Lists (records x) n ∧ Lists (records x) m

instance (v : Value) (records : Value → List Node) (n m : Node) :
    Decidable (ListedTogether v records n m) :=
  inferInstanceAs (Decidable (∃ x ∈ v.values, _))

/-- Reads of the slot `s`, which `m` owns, go to `m` or to an online replica beside it. -/
def ReadsAtHome (v : Value) (records : Value → List Node) (t : Topology) (s : Nat) (m : Node) :
    Prop :=
  ∃ n, t.nodeForSlot s true = some n ∧ (n = m ∨ n.OnlineReplica ∧ ListedTogether v records n m)

theorem find?_eq_some_iff_firstReplica {r : Node} :
    ns.find? (fun n => decide n.OnlineReplica) = some r ↔ FirstReplica ns r := by
  rw [List.find?_eq_some_iff_append, FirstReplica]
  constructor
  · rintro ⟨hr, before, after, hns, hbefore⟩
    exact ⟨before, after, hns, by simpa using hr, by simpa using hbefore⟩
  · rintro ⟨before, after, hns, hr, hbefore⟩
    exact ⟨by simpa using hr, before, after, hns, by simpa using hbefore⟩

/-- The slot does not matter for the replica: it is the first one there is. -/
theorem nodeForSlot_replica {s : Nat} {m : Node} (hm : t.OwnerAt s m) :
    t.nodeForSlot s true = some ((t.nodes.find? fun n => decide n.OnlineReplica).getD m) := by
  obtain ⟨hs, hslot, hnode⟩ := hm
  have hguard : ¬ (s ≥ slotCount ∨ t.slots s < 0) := by omega
  have hpred : (fun n : Node => !n.master && decide (n.health = .online)) =
      fun n => decide n.OnlineReplica := by
    funext n
    rw [Bool.eq_iff_iff, decide_eq_true_iff]
    simp [Node.OnlineReplica]
  rw [Topology.nodeForSlot, if_neg hguard, hnode, Option.map_some, if_pos rfl, hpred]

/-- **Reads of a slot stay in the shard of its owner exactly if the first online replica
the reply names, if it names one, is listed in an entry or shard with the owner.** -/
theorem readsAtHome_iff {v : Value} {t : Topology} {records : Value → List Node} {s : Nat}
    {m : Node} (h : BuiltFrom v t records) (hm : t.OwnerAt s m) :
    ReadsAtHome v records t s m ↔
      ∀ r, FirstReplica (namedNodes (v.values.flatMap records)) r →
        ListedTogether v records r m := by
  have hread := nodeForSlot_replica hm
  rw [← h.nodes]
  constructor
  · rintro ⟨n, hn, hhome⟩ r hr
    rw [hread, find?_eq_some_iff_firstReplica.2 hr] at hn
    obtain rfl : r = n := Option.some.inj hn
    rcases hhome with rfl | ⟨-, htogether⟩
    · -- the owner itself is a replica by now: it is listed with itself
      have hmem := List.mem_of_getElem? hm.2.2
      rw [h.nodes] at hmem
      obtain ⟨e, he, haddr⟩ := addr_of_mem_namedNodes hmem
      obtain ⟨x, hx, hex⟩ := List.mem_flatMap.1 he
      exact ⟨x, hx, ⟨e, hex, .inl haddr⟩, ⟨e, hex, .inl haddr⟩⟩
    · exact htogether
  · intro hfirst
    cases hfind : t.nodes.find? fun n => decide n.OnlineReplica with
    | none => exact ⟨m, by rw [hread, hfind]; rfl, .inl rfl⟩
    | some r =>
      have hr := find?_eq_some_iff_firstReplica.1 hfind
      obtain ⟨_, _, -, honline, -⟩ := hr
      exact ⟨r, by rw [hread, hfind]; rfl,
        .inr ⟨honline, hfirst r (find?_eq_some_iff_firstReplica.1 hfind)⟩⟩

/-- A node of a `CLUSTER SLOTS` reply, as it is recorded. -/
def slotsNode (addr : Addr) (master : Bool) : Node :=
  { addr, master, role := if master then "master" else "replica", health := .online }

theorem readsAtHome_iff_pair :
    ∃ t, parseSlots pairReply = some (.ok t) ∧
      ReadsAtHome pairReply entryRecords t 7 (slotsNode "10.0.0.1:6379" true) := by
  have hparse : (parsed (parseSlots pairReply)).map (fun t => (t.slots 7, t.nodes)) =
      some (0, [slotsNode "10.0.0.1:6379" true, slotsNode "10.0.0.2:6379" false]) := by
    decide +kernel
  obtain ⟨t, ht, heq⟩ := Option.map_eq_some_iff.1 hparse
  obtain ⟨hslot, hnodes⟩ := Prod.mk.inj heq
  have hbuilt := parsed_eq_some ht
  have howner : t.OwnerAt 7 (slotsNode "10.0.0.1:6379" true) := by
    refine ⟨by decide, by rw [hslot], ?_⟩
    rw [hslot, hnodes]
    rfl
  refine ⟨t, hbuilt, (readsAtHome_iff (.slots hbuilt) howner).2 fun r hr => ?_⟩
  have hfirst : (namedNodes (pairReply.values.flatMap entryRecords)).find?
      (fun n => decide n.OnlineReplica) = some (slotsNode "10.0.0.2:6379" false) := by
    decide +kernel
  rw [find?_eq_some_iff_firstReplica.2 hr] at hfirst
  rw [Option.some.inj hfirst]
  decide +kernel

/-- Two entries, each with a master and a replica. -/
def twoShardsReply : Value :=
  array [array [integer 0, integer 8191, slotsNodeValue "10.0.0.1" 6379,
      slotsNodeValue "10.0.0.2" 6379],
    array [integer 8192, integer 16383, slotsNodeValue "10.0.0.3" 6379,
      slotsNodeValue "10.0.0.4" 6379]]

/-- Reads of the second shard go to the replica of the first. -/
theorem reads_leave_second_shard :
    ∃ t, parseSlots twoShardsReply = some (.ok t) ∧
      t.OwnerAt 8192 (slotsNode "10.0.0.3:6379" true) ∧
      t.nodeForSlot 8192 true = some (slotsNode "10.0.0.2:6379" false) ∧
      ¬ ReadsAtHome twoShardsReply entryRecords t 8192 (slotsNode "10.0.0.3:6379" true) := by
  have hparse : (parsed (parseSlots twoShardsReply)).map
      (fun t => (t.slots 8192, t.nodes[2]?, t.nodeForSlot 8192 true)) =
      some (2, some (slotsNode "10.0.0.3:6379" true),
        some (slotsNode "10.0.0.2:6379" false)) := by
    decide +kernel
  obtain ⟨t, ht, heq⟩ := Option.map_eq_some_iff.1 hparse
  obtain ⟨hslot, hrest⟩ := Prod.mk.inj heq
  obtain ⟨hnode, hread⟩ := Prod.mk.inj hrest
  refine ⟨t, parsed_eq_some ht, ⟨by decide, by rw [hslot]; decide, by rw [hslot]; exact hnode⟩,
    hread, ?_⟩
  rintro ⟨n, hn, hhome⟩
  rw [hread] at hn
  obtain rfl := Option.some.inj hn
  rcases hhome with hsame | ⟨-, htogether⟩
  · exact absurd hsame (by decide)
  · exact absurd htogether (by decide +kernel)

end RespProxy.Cluster
