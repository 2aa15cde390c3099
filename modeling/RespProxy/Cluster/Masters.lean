import RespProxy.Cluster.Map

/-! # Slots, node flags and the master list

A topology keeps the masters three times over: in the slot array, in the flags
of the nodes and in the master list. The routines that install a topology find
a node by its address or its id and overwrite its flag, but never touch the
master list of a node that is already there.

* `Mastered`: the three agree;
* `Install`: a topology reply, the seeds, or a moved slot;
* `mastered_of_steady`: the three agree in every run in which no node that was
  recorded in one role is found again in the other.
-/

namespace RespProxy.Cluster

open Resp

variable {t : Topology}
variable {es : List Node} {i : Nat} {addr : Addr} {id : String}

/-- The slot array, the node flags and the master list agree. -/
structure Topology.Mastered (t : Topology) : Prop where
  slots : ∀ s, t.slots s = -1 ∨
    ∃ (i : Nat) (n : Node), t.slots s = i ∧ t.nodes[i]? = some n ∧ n.master = true
  masters : ∀ i, i ∈ t.masters ↔ ∃ n, t.nodes[i]? = some n ∧ n.master = true
  nodup : t.masters.Nodup

/-! ## Finding a node again -/

/-- `nodeIndex` takes `n` for the node with this address and id. -/
def Node.IsAt (n : Node) (addr : Addr) (id : String) : Prop :=
  addr ≠ "" ∧ n.addr = addr ∨ id ≠ "" ∧ n.id = id

instance (n : Node) (addr : Addr) (id : String) : Decidable (n.IsAt addr id) :=
  inferInstanceAs (Decidable (_ ∨ _))

theorem nodeIndex_some
    (h : t.nodeIndex addr id = some i) : ∃ n, t.nodes[i]? = some n ∧ n.IsAt addr id := by
  obtain ⟨hlt, hn, -⟩ := List.findIdx?_eq_some_iff_getElem.1 h
  refine ⟨t.nodes[i], List.getElem?_eq_getElem hlt, ?_⟩
  simpa [Node.IsAt] using hn

theorem nodeIndex_none (h : t.nodeIndex addr id = none) : ∀ n ∈ t.nodes, ¬ n.IsAt addr id := by
  intro n hn
  have := List.findIdx?_eq_none_iff.1 h n hn
  simpa [Node.IsAt] using this

/-- A recorded node with what a new record `e` of it says. -/
def Node.renew (n e : Node) : Node :=
  { n with
    id := if e.id ≠ "" then e.id else n.id
    role := e.role, master := e.master, health := e.health }

/-- `upsertNode` renews the node it finds, or appends a new one. -/
theorem upsertNode_cases (t : Topology) (e : Node) :
    (∃ i n, t.nodes[i]? = some n ∧ n.IsAt e.addr e.id ∧
      t.upsertNode e = ({ t with nodes := t.nodes.modify i (·.renew e) }, i)) ∨
    ((∀ n ∈ t.nodes, ¬ n.IsAt e.addr e.id) ∧
      t.upsertNode e = ({ t with
        nodes := t.nodes ++ [e]
        masters := if e.master then t.masters ++ [t.nodes.length] else t.masters },
        t.nodes.length)) := by
  unfold Topology.upsertNode
  cases h : t.nodeIndex e.addr e.id with
  | some i =>
    obtain ⟨n, hn, hat⟩ := nodeIndex_some h
    exact .inl ⟨i, n, hn, hat, rfl⟩
  | none => exact .inr ⟨nodeIndex_none h, rfl⟩

/-- What all recorded nodes have, if the renewed one keeps it and a new one has it. -/
theorem upsertNode_forall {P : Node → Prop} {e : Node} (h : ∀ n ∈ t.nodes, P n)
    (hrenew : ∀ n ∈ t.nodes, n.IsAt e.addr e.id → P (n.renew e)) (he : P e) :
    ∀ n ∈ (t.upsertNode e).1.nodes, P n := by
  rcases upsertNode_cases t e with ⟨i, n, hn, hat, heq⟩ | ⟨-, heq⟩ <;> rw [heq] <;> intro x hx
  · obtain ⟨j, hj⟩ := List.mem_iff_getElem?.1 hx
    rw [List.getElem?_modify] at hj
    obtain ⟨y, hy, rfl⟩ := Option.map_eq_some_iff.1 hj
    split
    · next hij =>
      cases (hij ▸ hn).symm.trans hy
      exact hrenew n (List.mem_of_getElem? hn) hat
    · exact h y (List.mem_of_getElem? hy)
  · rcases List.mem_append.1 hx with hx | hx
    · exact h x hx
    · rw [List.mem_singleton.1 hx]
      exact he

theorem getElem?_append_new {α : Type} {l : List α} {a b : α} :
    (l ++ [a])[i]? = some b ↔ l[i]? = some b ∨ i = l.length ∧ b = a := by
  rcases Nat.lt_trichotomy i l.length with h | rfl | h
  · rw [List.getElem?_append_left h]
    simp [Nat.ne_of_lt h]
  · simp [eq_comm]
  · rw [List.getElem?_eq_none (by simp; omega), List.getElem?_eq_none (by omega)]
    simp [Nat.ne_of_gt h]

/-- A new node keeps the three in agreement, if the master list gets it too. -/
theorem Topology.Mastered.append (h : t.Mastered) (e : Node) :
    Topology.Mastered { t with
      nodes := t.nodes ++ [e]
      masters := if e.master then t.masters ++ [t.nodes.length] else t.masters } := by
  have hnew : ∀ i, i ∈ t.masters → i < t.nodes.length := by
    intro i hi
    obtain ⟨n, hn, -⟩ := (h.masters i).1 hi
    exact (List.getElem?_eq_some_iff.1 hn).1
  refine ⟨?_, ?_, ?_⟩
  · intro s
    rcases h.slots s with hs | ⟨i, n, hs, hn, hm⟩
    · exact .inl hs
    · exact .inr ⟨i, n, hs, getElem?_append_new.2 (.inl hn), hm⟩
  · intro i
    dsimp only
    constructor
    · intro hi
      by_cases he : e.master = true
      · rw [if_pos he, List.mem_append, List.mem_singleton] at hi
        rcases hi with hi | rfl
        · obtain ⟨n, hn, hm⟩ := (h.masters i).1 hi
          exact ⟨n, getElem?_append_new.2 (.inl hn), hm⟩
        · exact ⟨e, getElem?_append_new.2 (.inr ⟨rfl, rfl⟩), he⟩
      · rw [if_neg he] at hi
        obtain ⟨n, hn, hm⟩ := (h.masters i).1 hi
        exact ⟨n, getElem?_append_new.2 (.inl hn), hm⟩
    · rintro ⟨n, hn, hm⟩
      rcases getElem?_append_new.1 hn with hn | ⟨rfl, rfl⟩
      · have hi := (h.masters i).2 ⟨n, hn, hm⟩
        split
        · exact List.mem_append_left _ hi
        · exact hi
      · rw [if_pos hm]
        simp
  · dsimp only
    split
    · refine List.nodup_append.2 ⟨h.nodup, by simp, ?_⟩
      intro i hi j hj
      rw [List.mem_singleton.1 hj]
      exact Nat.ne_of_lt (hnew i hi)
    · exact h.nodup

/-- A slot that moves to a master keeps them in agreement. -/
theorem Topology.Mastered.point (h : t.Mastered) {n : Node}
    (hn : t.nodes[i]? = some n) (hm : n.master = true) (p : Nat → Prop) [DecidablePred p] :
    Topology.Mastered { t with slots := fun s => if p s then (i : Int) else t.slots s } := by
  refine ⟨?_, h.masters, h.nodup⟩
  intro s
  dsimp only
  split
  · exact .inr ⟨i, n, rfl, hn, hm⟩
  · exact h.slots s

/-- A node that is renewed in its role keeps them in agreement. -/
theorem Topology.Mastered.modify (h : t.Mastered) {n e : Node}
    (hn : t.nodes[i]? = some n) (hm : n.master = e.master) :
    Topology.Mastered { t with nodes := t.nodes.modify i (·.renew e) } := by
  have hflag : ∀ j : Nat,
      (∃ x : Node, (t.nodes.modify i (·.renew e))[j]? = some x ∧ x.master = true) ↔
        ∃ x : Node, t.nodes[j]? = some x ∧ x.master = true := by
    intro j
    rw [List.getElem?_modify]
    by_cases hij : i = j
    · subst hij
      simp [hn, Node.renew, hm]
    · simp [hij]
  refine ⟨?_, ?_, h.nodup⟩
  · intro s
    rcases h.slots s with hs | ⟨j, x, hs, hx, hxm⟩
    · exact .inl hs
    · obtain ⟨y, hy, hym⟩ := (hflag j).2 ⟨x, hx, hxm⟩
      exact .inr ⟨j, y, hs, hy, hym⟩
  · intro j
    exact (h.masters j).trans (hflag j).symm

/-! ## A reply in which every node has one role -/

/-- No node is recorded once as a master and once as a replica. -/
def OneRole (es : List Node) : Prop :=
  ∀ a ∈ es, ∀ b ∈ es, a.IsAt b.addr b.id → a.master = b.master

instance (es : List Node) : Decidable (OneRole es) :=
  inferInstanceAs (Decidable (∀ a ∈ es, ∀ b ∈ es, _))

/-- What a parser has built from records among `es`. -/
structure Topology.Built (t : Topology) (es : List Node) : Prop where
  mastered : t.Mastered
  addrs : ∀ n ∈ t.nodes, ∃ e ∈ es, e.addr = n.addr ∧ e.master = n.master
  ids : ∀ n ∈ t.nodes, n.id ≠ "" → ∃ e ∈ es, e.id = n.id ∧ e.master = n.master

theorem newEmptyTopology_mastered (flavor : Flavor) :
    Topology.Mastered { newEmptyTopology with flavor } :=
  ⟨fun _ => .inl rfl, fun _ => by simp [newEmptyTopology], List.nodup_nil⟩

theorem newEmptyTopology_built (es : List Node) (flavor : Flavor) :
    Topology.Built { newEmptyTopology with flavor } es :=
  ⟨newEmptyTopology_mastered flavor, by simp [newEmptyTopology], by simp [newEmptyTopology]⟩

/-- A node that a record of `es` is found at has the role of the record. -/
theorem Topology.Built.role_eq (h : t.Built es) (hes : OneRole es)
    {n e : Node} (hn : n ∈ t.nodes) (he : e ∈ es) (hat : n.IsAt e.addr e.id) :
    n.master = e.master := by
  rcases hat with ⟨hne, haddr⟩ | ⟨hne, hid⟩
  · obtain ⟨a, ha, haa, ham⟩ := h.addrs n hn
    rw [← ham]
    exact hes a ha e he (.inl ⟨hne, haa.trans haddr⟩)
  · obtain ⟨b, hb, hbi, hbm⟩ := h.ids n hn (hid ▸ hne)
    rw [← hbm]
    exact hes b hb e he (.inr ⟨hne, hbi.trans hid⟩)

/-- Recording a node of the reply: no flag changes, and the node has its role. -/
theorem Topology.Built.upsert (h : t.Built es) (hes : OneRole es) {e : Node} (he : e ∈ es) :
    (t.upsertNode e).1.Built es ∧
      (∃ n, (t.upsertNode e).1.nodes[(t.upsertNode e).2]? = some n ∧ n.master = e.master) ∧
      ∀ (i : Nat) (n : Node), t.nodes[i]? = some n →
        ∃ n', (t.upsertNode e).1.nodes[i]? = some n' ∧ n'.master = n.master := by
  have haddrs : ∀ n ∈ (t.upsertNode e).1.nodes, ∃ a ∈ es, a.addr = n.addr ∧ a.master = n.master := by
    refine upsertNode_forall h.addrs (fun n hn hat => ?_) ⟨e, he, rfl, rfl⟩
    obtain ⟨a, ha, haa, ham⟩ := h.addrs n hn
    exact ⟨a, ha, haa, ham.trans (h.role_eq (e := e) hes hn he hat)⟩
  have hids : ∀ n ∈ (t.upsertNode e).1.nodes, n.id ≠ "" →
      ∃ b ∈ es, b.id = n.id ∧ b.master = n.master := by
    refine upsertNode_forall h.ids (fun n hn hat hne => ?_) fun _ => ⟨e, he, rfl, rfl⟩
    -- an empty id does not overwrite the one that is recorded
    by_cases hid : e.id ≠ ""
    · exact ⟨e, he, by simp [Node.renew, hid], rfl⟩
    · have hold : (n.renew e).id = n.id := by simp only [Node.renew, if_neg hid]
      obtain ⟨b, hb, hbi, hbm⟩ := h.ids n hn (hold ▸ hne)
      exact ⟨b, hb, hbi.trans hold.symm, hbm.trans (h.role_eq (e := e) hes hn he hat)⟩
  rcases upsertNode_cases t e with ⟨i, n, hn, hat, heq⟩ | ⟨-, heq⟩ <;> rw [heq] at haddrs hids ⊢
  · -- the node is known: its record is renewed in place, with the role it had
    have hm := h.role_eq hes (List.mem_of_getElem? hn) he hat
    refine ⟨⟨h.mastered.modify hn hm, haddrs, hids⟩, ⟨n.renew e, by simp [hn], rfl⟩, ?_⟩
    intro j x hx
    dsimp only
    rw [List.getElem?_modify]
    by_cases hij : i = j
    · subst hij
      rw [hn] at hx
      cases hx
      exact ⟨n.renew e, by simp [hn], hm.symm⟩
    · exact ⟨x, by simp [hij, hx], rfl⟩
  · -- a new node, at the end
    exact ⟨⟨h.mastered.append e, haddrs, hids⟩, ⟨e, by simp, rfl⟩,
      fun j x hx => ⟨x, getElem?_append_new.2 (.inl hx), rfl⟩⟩

/-- A range that goes to a master. -/
theorem Topology.Built.setRange {t' : Topology} (h : t.Built es)
    {start stop : Int} {n : Node} (hn : t.nodes[i]? = some n) (hm : n.master = true)
    (ht : t.setRange start stop i = some t') : t'.Built es ∧ t'.nodes = t.nodes := by
  unfold Topology.setRange at ht
  split at ht
  · cases ht
  · cases ht
    exact ⟨⟨h.mastered.point hn hm _, h.addrs, h.ids⟩, rfl⟩

/-! ## Topologies that are parsed -/

/-- The masters among the nodes. -/
def Topology.MasterAt (t : Topology) (i : Nat) : Prop :=
  ∃ n, t.nodes[i]? = some n ∧ n.master = true

theorem parseInv_built (hes : OneRole es) :
    ParseInv es (fun t => t.Built es) Topology.MasterAt where
  empty := newEmptyTopology_built es .unknown
  upsert t e he h := (h.upsert hes he).1
  kept t e i he h := by
    rintro ⟨n, hn, hm⟩
    obtain ⟨n', hn', hm'⟩ := (h.upsert hes he).2.2 i n hn
    exact ⟨n', hn', hm'.trans hm⟩
  found t e he h hm := by
    obtain ⟨n, hn, hnm⟩ := (h.upsert hes he).2.1
    exact ⟨n, hn, hnm.trans hm⟩
  setRange t t' start stop i h hi ht := by
    obtain ⟨n, hn, hm⟩ := hi
    obtain ⟨hb, hnodes⟩ := h.setRange hn hm ht
    exact ⟨hb, n, hnodes ▸ hn, hm⟩

theorem parseSlots_mastered {v : Value}
    (hes : OneRole (v.values.flatMap entryRecords)) (ht : parseSlots v = some (.ok t)) :
    t.Mastered :=
  ((parseInv_built hes).parseSlots ht).mastered

theorem parseShards_mastered {v : Value}
    (hes : OneRole (v.values.flatMap shardRecords)) (ht : parseShards v = some (.ok t)) :
    t.Mastered :=
  ((parseInv_built hes).parseShards ht).mastered

/-! ## Installs -/

/-- `UpdateSlot(slot, addr, id)`; its callers know no id. -/
def updateSlotNode (cur : Option Topology) (slot : Nat) (addr : Addr) (id : String) : Topology :=
  let t := cur.getD newEmptyTopology
  match t.nodeIndex addr id with
  | some i => { t with slots := fun s => if s = slot then (i : Int) else t.slots s }
  | none =>
    { t with
      nodes := t.nodes ++ [{ id, addr, role := "master", health := .online, master := true }]
      masters := t.masters ++ [t.nodes.length]
      slots := fun s => if s = slot then (t.nodes.length : Int) else t.slots s }

/-- What a new topology is installed from. -/
inductive Install where
  | slots (reply : Value)
  | shards (reply : Value)
  | seeds (flavor : Flavor) (seeds : List Addr)
  | update (slot : Nat) (addr : Addr) (id : String)

/-- The result of a parser, if there is one. -/
def parsed : Option (Except Err Topology) → Option Topology
  | some (.ok t) => some t
  | _ => none

/-- The topology after an install; a reply that is not parsed installs nothing. -/
def afterInstall (cur : Option Topology) : Install → Option (Option Topology)
  | .slots reply => (parsed (parseSlots reply)).map some
  | .shards reply => (parsed (parseShards reply)).map some
  | .seeds flavor seeds => some (some (seedTopology flavor seeds))
  | .update slot addr id => some (some (updateSlotNode cur slot addr id))

/-- No node changes its role: a reply records every node in one role, and a
slot moves to a node that is a master or unknown. -/
def Steady (cur : Option Topology) : Install → Prop
  | .slots reply => OneRole (reply.values.flatMap entryRecords)
  | .shards reply => OneRole (reply.values.flatMap shardRecords)
  | .seeds _ _ => True
  | .update _ addr id =>
    let t := cur.getD newEmptyTopology
    ∀ i ∈ t.nodeIndex addr id, ∀ n ∈ t.nodes[i]?, n.master = true

instance (cur : Option Topology) : (l : Install) → Decidable (Steady cur l)
  | .slots _ | .shards _ => inferInstanceAs (Decidable (OneRole _))
  | .seeds _ _ => inferInstanceAs (Decidable True)
  | .update _ _ _ => inferInstanceAs (Decidable (∀ _ ∈ _, ∀ _ ∈ _, _))

theorem parsed_eq_some {r : Option (Except Err Topology)} (h : parsed r = some t) :
    r = some (.ok t) := by
  unfold parsed at h
  split at h
  · cases h
    rfl
  · cases h

theorem seedTopology_mastered (flavor : Flavor) (seeds : List Addr) :
    (seedTopology flavor seeds).Mastered := by
  let records : List Node :=
    seeds.map fun seed => { addr := seed, role := "master", health := .online, master := true }
  have hall : ∀ e ∈ records, e.master = true := by
    intro e he
    obtain ⟨seed, -, rfl⟩ := List.mem_map.1 he
    rfl
  have hes : OneRole records := fun a ha b hb _ => (hall a ha).trans (hall b hb).symm
  have hfold : ∀ (l : List Addr) (t : Topology), (∀ a ∈ l, a ∈ seeds) → t.Built records →
      (l.foldl (fun t seed =>
        (t.upsertNode { addr := seed, role := "master", health := .online, master := true }).1)
        t).Built records := by
    intro l
    induction l with
    | nil => exact fun _ _ h => h
    | cons a l ih =>
      intro t hl h
      have ha : { addr := a, role := "master", health := .online, master := true } ∈ records :=
        List.mem_map.2 ⟨a, hl a List.mem_cons_self, rfl⟩
      exact ih _ (fun b hb => hl b (List.mem_cons_of_mem _ hb)) (h.upsert hes ha).1
  have hbuilt := hfold seeds _ (fun _ h => h) (newEmptyTopology_built records flavor)
  unfold seedTopology
  dsimp only
  generalize List.foldl _ _ seeds = t at hbuilt ⊢
  cases hnodes : t.nodes with
  | nil =>
    rw [if_pos rfl]
    exact hbuilt.mastered
  | cons n ns =>
    rw [if_neg (by simp)]
    -- the node all slots go to is one of the seeds
    obtain ⟨e, he, -, hem⟩ := hbuilt.addrs n (by rw [hnodes]; exact List.mem_cons_self)
    have hpoint := hbuilt.mastered.point (i := 0) (by rw [hnodes]; rfl) (hem ▸ hall e he)
      (fun _ => True)
    simpa [hnodes] using hpoint

theorem updateSlotNode_mastered {cur : Option Topology} (h : ∀ t ∈ cur, t.Mastered) {slot : Nat}
    (hC : Steady cur (.update slot addr id)) :
    (updateSlotNode cur slot addr id).Mastered := by
  have hcur : (cur.getD newEmptyTopology).Mastered := by
    cases cur with
    | none => exact newEmptyTopology_mastered .unknown
    | some t => exact h t rfl
  unfold Steady at hC
  unfold updateSlotNode
  generalize cur.getD newEmptyTopology = t at hC hcur ⊢
  dsimp only
  split
  · rename_i i hi
    obtain ⟨n, hn, -⟩ := nodeIndex_some hi
    exact hcur.point hn (hC i hi n hn) (· = slot)
  · exact (hcur.append { id, addr, role := "master", health := .online, master := true }).point
      List.getElem?_concat_length rfl (· = slot)

/-- **The slot array, the flags and the master list agree** in every run of
installs in which no node changes its role. -/
theorem mastered_of_steady {tr : List Install} {cur : Option Topology}
    (hC : Machine.Meets afterInstall Steady none tr) (h : Machine.exec afterInstall none tr = some cur) :
    ∀ t ∈ cur, t.Mastered := by
  refine Machine.invariant_of_meets (I := fun _ cur => ∀ t ∈ cur, t.Mastered) (by simp) ?_ hC h
  intro tr cur l cur' _ hinv hl hnext
  cases l with
  | slots reply =>
    obtain ⟨t, ht, rfl⟩ := Option.map_eq_some_iff.1 hnext
    rintro _ ⟨⟩
    exact parseSlots_mastered hl (parsed_eq_some ht)
  | shards reply =>
    obtain ⟨t, ht, rfl⟩ := Option.map_eq_some_iff.1 hnext
    rintro _ ⟨⟩
    exact parseShards_mastered hl (parsed_eq_some ht)
  | seeds flavor seeds =>
    cases hnext
    rintro _ ⟨⟩
    exact seedTopology_mastered flavor seeds
  | update slot addr id =>
    cases hnext
    rintro _ ⟨⟩
    exact updateSlotNode_mastered hinv hl

/-- A node of a `CLUSTER SLOTS` reply. -/
def slotsNodeValue (host : String) (port : Int) : Value :=
  array [bulkString (arg host), integer port]

/-- The slots 0 to 16383 on a master with a replica. -/
def pairReply : Value :=
  array [array [integer 0, integer 16383, slotsNodeValue "10.0.0.1" 6379,
    slotsNodeValue "10.0.0.2" 6379]]

/-- A slot of the master and a slot of a new node. -/
def steadyRun : List Install :=
  [.slots pairReply, .update 7 "10.0.0.1:6379" "", .update 8 "10.0.0.3:6379" ""]

theorem mastered_of_steady_pair :
    ∃ t, Machine.exec afterInstall none steadyRun = some (some t) ∧ t.Mastered := by
  have hC : Machine.Meets afterInstall Steady none steadyRun :=
    Machine.meets_of_checked (by decide +kernel)
  have hsome : (Machine.exec afterInstall none steadyRun).join.isSome = true := by decide +kernel
  obtain ⟨t, ht⟩ := Option.isSome_iff_exists.1 hsome
  have hexec := Option.join_eq_some_iff.1 ht
  exact ⟨t, hexec, mastered_of_steady hC hexec t rfl⟩

/-- A redirect to the replica. -/
def movedRun : List Install := [.slots pairReply, .update 7 "10.0.0.2:6379" ""]

/-- The slot points to the replica, which is still flagged as one. -/
theorem moved_to_replica_not_mastered :
    ∃ t, Machine.exec afterInstall none movedRun = some (some t) ∧ t.slots 7 = 1 ∧
      t.nodes[1]?.map Node.master = some false ∧ ¬ t.Mastered := by
  have hrun : (Machine.exec afterInstall none movedRun).join.map
      (fun t => (t.slots 7, t.nodes[1]?.map Node.master)) = some (1, some false) := by
    decide +kernel
  obtain ⟨t, ht, heq⟩ := Option.map_eq_some_iff.1 hrun
  obtain ⟨hslot, hmaster⟩ := Prod.mk.inj heq
  refine ⟨t, Option.join_eq_some_iff.1 ht, hslot, hmaster, ?_⟩
  intro h
  rcases h.slots 7 with hs | ⟨i, n, hs, hn, hm⟩
  · rw [hslot] at hs
    cases hs
  · obtain rfl : i = 1 := by omega
    rw [hn, Option.map_some, hm] at hmaster
    cases hmaster

end RespProxy.Cluster
