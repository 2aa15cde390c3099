import RespProxy.Cluster.Bounds

/-! # Updates of single slots

`UpdateSlot` calls that are made one after another on one map. A call patches a clone of
the current topology: it looks up the node by its address, appends one if there is none,
and points the slot to it. Nodes are never moved, so the other slots keep theirs.

* `SlotMap`: a map between calls, with slots that point to nodes and numbers that have
  been handed out;
* `SlotUpdate`: the slot and the address of a `MOVED`;
* `exec_sequential`: the atomic steps of the calls, one call after another.
-/

namespace RespProxy.Cluster

/-! ## Lists that grow by new keys -/

section

variable {α κ : Type*} {key : α → κ} {xs ys zs : List α}

/-- The list grows at its end, by elements with different keys that it did not have. -/
def Grows (key : α → κ) (xs ys : List α) : Prop :=
  ∃ more, ys = xs ++ more ∧ (more.map key).Nodup ∧ ∀ y ∈ more, ∀ x ∈ xs, key y ≠ key x

theorem Grows.refl (key : α → κ) (xs : List α) : Grows key xs xs :=
  ⟨[], (List.append_nil xs).symm, List.nodup_nil, fun _ hy => absurd hy List.not_mem_nil⟩

theorem Grows.concat {y : α} (h : ∀ x ∈ xs, key x ≠ key y) : Grows key xs (xs ++ [y]) := by
  refine ⟨[y], rfl, List.pairwise_singleton _ _, ?_⟩
  intro y' hy' x hx
  rw [List.mem_singleton.1 hy']
  exact (h x hx).symm

theorem Grows.trans (h₁ : Grows key xs ys) (h₂ : Grows key ys zs) : Grows key xs zs := by
  obtain ⟨more₁, rfl, hnodup₁, hnew₁⟩ := h₁
  obtain ⟨more₂, rfl, hnodup₂, hnew₂⟩ := h₂
  refine ⟨more₁ ++ more₂, List.append_assoc _ _ _, ?_, ?_⟩
  · rw [List.map_append]
    refine List.nodup_append.2 ⟨hnodup₁, hnodup₂, ?_⟩
    intro k₁ hk₁ k₂ hk₂
    obtain ⟨x, hx, rfl⟩ := List.mem_map.1 hk₁
    obtain ⟨y, hy, rfl⟩ := List.mem_map.1 hk₂
    exact (hnew₂ y hy x (List.mem_append_right _ hx)).symm
  · intro y hy x hx
    rcases List.mem_append.1 hy with hy | hy
    · exact hnew₁ y hy x hx
    · exact hnew₂ y hy x (List.mem_append_left _ hx)

end

/-! ## One update -/

/-- A node is appended only if none has the address. -/
theorem updateSlot_grows (cur : Option Topology) (slot : Nat) {addr : Addr} (haddr : addr ≠ "") :
    Grows Node.addr (cur.getD newEmptyTopology).nodes (updateSlot cur slot addr).nodes := by
  unfold updateSlot
  generalize cur.getD newEmptyTopology = t
  dsimp only
  cases hi : t.nodeIndex addr "" with
  | some i => exact .refl _ _
  | none =>
    refine Grows.concat fun n hn => ?_
    have hnot := List.findIdx?_eq_none_iff.1 hi n hn
    simpa [haddr] using hnot

theorem updateSlot_pointed {cur : Option Topology} (h : (cur.getD newEmptyTopology).Pointed)
    (slot : Nat) (addr : Addr) : (updateSlot cur slot addr).Pointed := fun s hs =>
  updateSlot_slots (P := fun x n => x = -1 ∨ (0 ≤ x ∧ x < n)) (by omega) (by omega) (h s hs)
    slot addr

/-! ## The map between calls -/

/-- A map with no call under way. -/
structure SlotMap where
  ptr : Option Topology
  gen : Nat
  pointed : ∀ t ∈ ptr, t.Pointed
  numbered : ∀ t ∈ ptr, t.generation ≤ gen

/-- A slot that moves to an address. -/
structure SlotUpdate where
  slot : Nat
  addr : Addr
  inRange : slot < slotCount
  named : addr ≠ ""

namespace SlotMap

variable {m : SlotMap} {u : SlotUpdate} {us : List SlotUpdate}

/-- The map before the first refresh. -/
def empty : SlotMap where
  ptr := none
  gen := 0
  pointed _ ht := by cases ht
  numbered _ ht := by cases ht

/-- `Store`. -/
def store (m : SlotMap) (t : Topology) (h : t.Pointed) : SlotMap where
  ptr := some { t with generation := m.gen + 1 }
  gen := m.gen + 1
  pointed := by
    rintro t' ⟨⟩
    exact h
  numbered := by
    rintro t' ⟨⟩
    exact Nat.le_refl _

/-- The current topology; an empty one stands for none. -/
def topo (m : SlotMap) : Topology := m.ptr.getD newEmptyTopology

theorem topo_pointed (m : SlotMap) : m.topo.Pointed := by
  unfold topo
  cases hptr : m.ptr with
  | none => exact fun _ _ => .inl rfl
  | some t => exact m.pointed t hptr

/-- `UpdateSlot`. -/
def update (m : SlotMap) (u : SlotUpdate) : SlotMap :=
  m.store (updateSlot m.ptr u.slot u.addr) (updateSlot_pointed m.topo_pointed u.slot u.addr)

def updates (m : SlotMap) (us : List SlotUpdate) : SlotMap := us.foldl update m

/-- `NodeForSlot` of the current topology. -/
def nodeFor (m : SlotMap) (slot : Nat) : Option Node := m.ptr.bind (·.nodeForSlot slot false)

/-- The nodes of the current topology. -/
def nodes (m : SlotMap) : List Node := m.topo.nodes

/-- The number of the current topology, 0 if there is none. -/
def generation (m : SlotMap) : Nat := m.topo.generation

theorem nodeFor_eq (m : SlotMap) (slot : Nat) : m.nodeFor slot = m.topo.nodeForSlot slot false := by
  unfold nodeFor topo
  cases m.ptr with
  | none => simp [Topology.nodeForSlot, newEmptyTopology]
  | some t => rfl

theorem generation_le (m : SlotMap) : m.generation ≤ m.gen := by
  unfold generation topo
  cases hptr : m.ptr with
  | none => exact Nat.zero_le _
  | some t => exact m.numbered t hptr

/-! ### Steps -/

theorem nodeFor_update_self (m : SlotMap) (u : SlotUpdate) :
    ((m.update u).nodeFor u.slot).map Node.addr = some u.addr :=
  ownerOf_updateSlot_self u.inRange m.ptr u.addr

theorem nodeFor_update_other {s : Nat} (hne : u.slot ≠ s) : (m.update u).nodeFor s = m.nodeFor s := by
  rw [nodeFor_eq m]
  show (updateSlot m.ptr u.slot u.addr).nodeForSlot s false = _
  by_cases hs : s < slotCount
  · refine nodeForSlot_updateSlot_other (Ne.symm hne) ?_ u.addr
    have hpointed := m.topo_pointed s hs
    unfold topo at hpointed
    omega
  · simp [Topology.nodeForSlot, Nat.not_lt.1 hs]

theorem nodes_update_grows (m : SlotMap) (u : SlotUpdate) :
    Grows Node.addr m.nodes (m.update u).nodes :=
  updateSlot_grows m.ptr u.slot u.named

theorem generation_update (m : SlotMap) (u : SlotUpdate) : m.generation < (m.update u).generation :=
  Nat.lt_succ_of_le m.generation_le

/-! ### Runs -/

theorem updates_append (m : SlotMap) (us vs : List SlotUpdate) :
    m.updates (us ++ vs) = (m.updates us).updates vs :=
  List.foldl_append

theorem nodeFor_updates_other {s : Nat} (hus : ∀ u ∈ us, u.slot ≠ s) :
    (m.updates us).nodeFor s = m.nodeFor s := by
  induction us generalizing m with
  | nil => rfl
  | cons u us ih =>
    obtain ⟨hu, hus⟩ := List.forall_mem_cons.1 hus
    exact (ih hus).trans (nodeFor_update_other hu)

theorem nodes_updates_grows (m : SlotMap) (us : List SlotUpdate) :
    Grows Node.addr m.nodes (m.updates us).nodes := by
  induction us generalizing m with
  | nil => exact .refl _ _
  | cons u us ih => exact (m.nodes_update_grows u).trans (ih (m.update u))

/-! ### The atomic steps -/

/-- The steps of the calls, one call after another; the first is call `i`. -/
def sequential : (i : Nat) → List SlotUpdate → List Label
  | _, [] => []
  | i, u :: us =>
    .start i (.update u.slot u.addr) :: .number i :: .store i :: sequential (i + 1) us

/-- The shared map is as the map between calls says. -/
def Shows (s : MapState) (m : SlotMap) : Prop := s.ptr = m.ptr ∧ s.gen = m.gen

/-- The shared map with these contents, and no call yet. -/
def state (m : SlotMap) : MapState := { ptr := m.ptr, gen := m.gen }

section

variable {s : MapState} {i : Nat} {c : Call} {t : Topology}

theorem next_start (hi : s.calls i = .new) : ∃ s', s.next (.start i c) = some s' ∧
    s'.gen = s.gen ∧ s'.calls i = .busy c (c.topo s.ptr) false ∧
    ∀ j, j ≠ i → s'.calls j = s.calls j := by
  simp only [MapState.next, hi]
  refine ⟨_, rfl, rfl, ?_, fun j hj => ?_⟩
  · simp [MapState.setCall]
  · simp [MapState.setCall, hj]

theorem next_number (hi : s.calls i = .busy c t false) : ∃ s', s.next (.number i) = some s' ∧
    s'.gen = s.gen + 1 ∧ s'.calls i = .busy c { t with generation := s.gen + 1 } true ∧
    ∀ j, j ≠ i → s'.calls j = s.calls j := by
  simp only [MapState.next, hi]
  refine ⟨_, rfl, rfl, ?_, fun j hj => ?_⟩
  · simp [MapState.setCall]
  · simp [MapState.setCall, hj]

theorem next_store (hi : s.calls i = .busy c t true) : ∃ s', s.next (.store i) = some s' ∧
    s'.ptr = some t ∧ s'.gen = s.gen ∧ ∀ j, j ≠ i → s'.calls j = s.calls j := by
  simp only [MapState.next, hi]
  refine ⟨_, rfl, rfl, rfl, fun j hj => ?_⟩
  simp [MapState.setCall, hj]

/-- A call that nothing comes between. -/
theorem exec_call (h : Shows s m) (hi : s.calls i = .new) :
    ∃ s', Machine.exec MapState.next s [.start i (.update u.slot u.addr), .number i, .store i] =
      some s' ∧ Shows s' (m.update u) ∧ ∀ j, j ≠ i → s'.calls j = s.calls j := by
  obtain ⟨s₁, hs₁, hgen₁, hi₁, ho₁⟩ := next_start (c := .update u.slot u.addr) hi
  obtain ⟨s₂, hs₂, hgen₂, hi₂, ho₂⟩ := next_number hi₁
  obtain ⟨s₃, hs₃, hptr₃, hgen₃, ho₃⟩ := next_store hi₂
  refine ⟨s₃, ?_, ⟨?_, ?_⟩, fun j hj => ?_⟩
  · exact Machine.exec_cons.2 ⟨s₁, hs₁, Machine.exec_cons.2 ⟨s₂, hs₂, Machine.exec_cons.2
      ⟨s₃, hs₃, rfl⟩⟩⟩
  · rw [hptr₃, hgen₁, h.1, h.2]
    rfl
  · rw [hgen₃, hgen₂, hgen₁, h.2]
    rfl
  · rw [ho₃ j hj, ho₂ j hj, ho₁ j hj]

theorem exec_sequential (h : Shows s m) (hnew : ∀ j, i ≤ j → s.calls j = .new)
    (us : List SlotUpdate) : ∃ s', Machine.exec MapState.next s (sequential i us) = some s' ∧
      Shows s' (m.updates us) := by
  induction us generalizing s i m with
  | nil => exact ⟨s, rfl, h⟩
  | cons u us ih =>
    obtain ⟨s₁, hcall, hshows, hother⟩ := exec_call (u := u) h (hnew i (Nat.le_refl i))
    have hnew₁ : ∀ j, i + 1 ≤ j → s₁.calls j = .new := by
      intro j hj
      rw [hother j (by omega)]
      exact hnew j (by omega)
    obtain ⟨s₂, hrest, hdone⟩ := ih hshows hnew₁
    exact ⟨s₂, Machine.exec_append.2 ⟨s₁, hcall, hrest⟩, hdone⟩

end

/-- **Updates one after another.** The steps of the calls lead to the map below: a slot has the
address of its last update, the slots that were not updated have the nodes they had, the slots
point to nodes, new nodes are at the end and have addresses that no other node has, and every call
has a greater number than the one before. -/
theorem updates_keep_others (m : SlotMap) (us : List SlotUpdate) :
    (∃ s, Machine.exec MapState.next m.state (sequential 0 us) = some s ∧ Shows s (m.updates us)) ∧
    (∀ pre u post, us = pre ++ u :: post → (∀ u' ∈ post, u'.slot ≠ u.slot) →
      ((m.updates us).nodeFor u.slot).map Node.addr = some u.addr) ∧
    (∀ s, (∀ u ∈ us, u.slot ≠ s) → (m.updates us).nodeFor s = m.nodeFor s) ∧
    (∀ t ∈ (m.updates us).ptr, t.Pointed) ∧
    Grows Node.addr m.nodes (m.updates us).nodes ∧
    ∀ pre u post, us = pre ++ u :: post →
      (m.updates pre).generation < (m.updates (pre ++ [u])).generation := by
  refine ⟨exec_sequential ⟨rfl, rfl⟩ (fun _ _ => rfl) us, ?_, fun s hs => nodeFor_updates_other hs,
    (m.updates us).pointed, m.nodes_updates_grows us, ?_⟩
  · rintro pre u post rfl hpost
    -- the updates behind it are of other slots
    have hlast : (m.updates (pre ++ u :: post)).nodeFor u.slot =
        ((m.updates pre).update u).nodeFor u.slot := by
      rw [updates_append]
      exact nodeFor_updates_other hpost
    rw [hlast]
    exact nodeFor_update_self _ u
  · intro pre u post _
    rw [updates_append]
    exact generation_update _ u

/-- Two slots move to one node that the map does not have yet. -/
example : (SlotMap.empty.updates [⟨1, "a:1", by decide, by decide⟩,
    ⟨2, "a:1", by decide, by decide⟩]).nodes.map Node.addr = ["a:1"] := by decide

end SlotMap

end RespProxy.Cluster
