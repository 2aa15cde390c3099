import RespProxy.Cluster.Router
import RespProxy.Lib.Machine

/-! # The shared topology map

`Map` is an atomic pointer to the current topology that all sessions and the
refresh loop share. `UpdateSlot` loads it, patches a clone and stores the clone;
a refresh stores a topology of its own. Each of these calls is a sequence of
atomic steps, and the steps of concurrent calls interleave in any way.

* `Indexed`: the slots of a topology point to its nodes, which holds of all
  topologies the router builds;
* `Label`, `next`: the calls, step by step;
* `NoLostUpdate`: what the callers rely on;
* `MapState.generation`: the number of the topology, by which a session sees that it changed.
-/

namespace RespProxy.Cluster

open Resp

variable {slot : Nat} {cur : Option Topology}

/-! ## Owners -/

/-- The owner of a slot, as `NodeForSlot` finds it. -/
def ownerOf (t : Option Topology) (slot : Nat) : Option Addr :=
  t.bind fun t => (t.nodeForSlot slot false).map Node.addr

/-- Every slot index is the index of a node, or negative. -/
def Topology.Indexed (t : Topology) : Prop := ∀ s, t.slots s < t.nodes.length

theorem newEmptyTopology_indexed : newEmptyTopology.Indexed := fun _ => by
  show (-1 : Int) < 0
  decide

theorem indexed_getD (h : ∀ t ∈ cur, t.Indexed) : (cur.getD newEmptyTopology).Indexed := by
  cases cur with
  | none => exact newEmptyTopology_indexed
  | some t => exact h t rfl

/-- `UpdateSlot` keeps the nodes, and its slot points to one with the address. -/
theorem updateSlot_cases (cur : Option Topology) (slot : Nat) (addr : Addr) :
    ∃ (more : List Node) (idx : Nat) (n : Node),
      (updateSlot cur slot addr).nodes = (cur.getD newEmptyTopology).nodes ++ more ∧
      (updateSlot cur slot addr).nodes[idx]? = some n ∧ n.addr = addr ∧
      (updateSlot cur slot addr).slots =
        fun s => if s = slot then (idx : Int) else (cur.getD newEmptyTopology).slots s := by
  unfold updateSlot
  generalize cur.getD newEmptyTopology = t
  dsimp only
  cases hi : t.nodeIndex addr "" with
  | some i =>
    obtain ⟨hlt, hn, -⟩ := List.findIdx?_eq_some_iff_getElem.1 hi
    refine ⟨[], i, t.nodes[i], by simp, List.getElem?_eq_getElem hlt, ?_, rfl⟩
    simp only [ne_eq, not_true_eq_false, decide_false, Bool.false_and, Bool.or_false,
      Bool.and_eq_true, decide_eq_true_eq] at hn
    exact hn.2
  | none => exact ⟨[_], t.nodes.length, _, rfl, List.getElem?_concat_length, rfl, rfl⟩

/-- What holds of the index of any node, and stays when nodes are appended, `UpdateSlot` keeps. -/
theorem updateSlot_slots {P : Int → Nat → Prop} (hmono : ∀ {x m n}, m ≤ n → P x m → P x n)
    (hindex : ∀ {i n : Nat}, i < n → P i n) {s : Nat}
    (h : P ((cur.getD newEmptyTopology).slots s) (cur.getD newEmptyTopology).nodes.length)
    (slot : Nat) (addr : Addr) :
    P ((updateSlot cur slot addr).slots s) (updateSlot cur slot addr).nodes.length := by
  obtain ⟨more, idx, n, hnodes, hidx, -, hslots⟩ := updateSlot_cases cur slot addr
  have hlt : idx < (updateSlot cur slot addr).nodes.length := (List.getElem?_eq_some_iff.1 hidx).1
  rw [hslots]
  dsimp only
  split
  · exact hindex hlt
  · refine hmono ?_ h
    rw [hnodes, List.length_append]
    exact Nat.le_add_right _ _

theorem updateSlot_indexed (h : ∀ t ∈ cur, t.Indexed) (slot : Nat)
    (addr : Addr) : (updateSlot cur slot addr).Indexed := fun s =>
  updateSlot_slots (P := fun x n => x < n) (fun hle hx => Int.lt_of_lt_of_le hx (Int.ofNat_le.2 hle))
    Int.ofNat_lt.2 (indexed_getD h s) slot addr

/-- The slot has moved to the address. -/
theorem ownerOf_updateSlot_self (hslot : slot < slotCount) (cur : Option Topology)
    (addr : Addr) : ownerOf (some (updateSlot cur slot addr)) slot = some addr := by
  obtain ⟨more, idx, n, -, hidx, hn, hslots⟩ := updateSlot_cases cur slot addr
  simp [ownerOf, Topology.nodeForSlot, hslots, hidx, hn, Nat.not_le.2 hslot]

/-- Other slots keep their nodes, if they point to nodes. -/
theorem nodeForSlot_updateSlot_other {s : Nat} (hne : s ≠ slot)
    (h : (cur.getD newEmptyTopology).slots s < (cur.getD newEmptyTopology).nodes.length)
    (addr : Addr) : (updateSlot cur slot addr).nodeForSlot s false =
      (cur.getD newEmptyTopology).nodeForSlot s false := by
  obtain ⟨more, idx, n, hnodes, -, -, hslots⟩ := updateSlot_cases cur slot addr
  simp only [Topology.nodeForSlot, hslots, if_neg hne]
  split
  · rfl
  · rename_i hs
    rw [hnodes, List.getElem?_append_left (by omega)]
    rfl

/-- The other slots have not. -/
theorem ownerOf_updateSlot_other (h : ∀ t ∈ cur, t.Indexed)
    {s : Nat} (hne : s ≠ slot) (addr : Addr) :
    ownerOf (some (updateSlot cur slot addr)) s = ownerOf cur s := by
  have hbase : ownerOf cur s = ownerOf (some (cur.getD newEmptyTopology)) s := by
    cases cur with
    | none => simp [ownerOf, Topology.nodeForSlot, newEmptyTopology]
    | some t => rfl
  rw [hbase]
  exact congrArg (Option.map Node.addr)
    (nodeForSlot_updateSlot_other hne (indexed_getD h s) addr)

/-! ## Topologies the router builds -/

theorem upsertNode_spec (t : Topology) (n : Node) :
    (t.upsertNode n).1.slots = t.slots ∧ t.nodes.length ≤ (t.upsertNode n).1.nodes.length ∧
      (t.upsertNode n).2 < (t.upsertNode n).1.nodes.length := by
  unfold Topology.upsertNode
  split
  · rename_i i hi
    obtain ⟨hlt, -⟩ := List.findIdx?_eq_some_iff_getElem.1 hi
    simpa using hlt
  · simp

/-- What holds of -1 and of the index of any node holds of the slots of a parsed topology. -/
theorem parseInv_slots {P : Int → Nat → Prop} (hnone : P (-1) 0)
    (hmono : ∀ {x m n}, m ≤ n → P x m → P x n) (hindex : ∀ {i n : Nat}, i < n → P i n)
    (es : List Node) :
    ParseInv es (fun t => ∀ s, P (t.slots s) t.nodes.length) fun t i => i < t.nodes.length where
  empty _ := hnone
  upsert t e _ h s := by
    obtain ⟨hslots, hlen, -⟩ := upsertNode_spec t e
    rw [hslots]
    exact hmono hlen (h s)
  kept t e _ _ _ hi := Nat.lt_of_lt_of_le hi (upsertNode_spec t e).2.1
  found t e _ _ _ := (upsertNode_spec t e).2.2
  setRange t t' start stop i h hi ht := by
    unfold Topology.setRange at ht
    split at ht
    · cases ht
    · cases ht
      refine ⟨fun s => ?_, hi⟩
      dsimp only
      split
      · exact hindex hi
      · exact h s

/-! ## The calls, step by step -/

/-- A call that changes the map: `UpdateSlot` or the `Store` of a refresh. -/
inductive Call where
  | update (slot : Nat) (addr : Addr)
  | refresh (t : Topology)

/-- Where a call is: ahead of its first step, on the way with the topology it will store
(numbered or not), or returned. -/
inductive Progress where
  | new
  | busy (call : Call) (topo : Topology) (numbered : Bool)
  | returned

/-- The map and the calls on it. -/
structure MapState where
  ptr : Option Topology
  gen : Nat := 0
  calls : Nat → Progress := fun _ => .new

/-- The atomic steps. -/
inductive Label where
  /-- A call starts; `UpdateSlot` loads the pointer and patches a clone. -/
  | start (i : Nat) (c : Call)
  /-- `m.gen.Add(1)` -/
  | number (i : Nat)
  /-- `m.ptr.Store(topo)`, and the call returns. -/
  | store (i : Nat)

/-- The topology a call is going to store, from the pointer it loads. -/
def Call.topo (c : Call) (ptr : Option Topology) : Topology :=
  match c with
  | .update slot addr => updateSlot ptr slot addr
  | .refresh t => t

def MapState.setCall (m : MapState) (i : Nat) (p : Progress) : MapState :=
  { m with calls := fun j => if j = i then p else m.calls j }

def MapState.next (m : MapState) : Label → Option MapState
  | .start i c =>
    match m.calls i with
    | .new => some (m.setCall i (.busy c (c.topo m.ptr) false))
    | _ => none
  | .number i =>
    match m.calls i with
    | .busy c t false =>
      some { m.setCall i (.busy c { t with generation := m.gen + 1 } true) with gen := m.gen + 1 }
    | _ => none
  | .store i =>
    match m.calls i with
    | .busy _ t true => some { m.setCall i .returned with ptr := some t }
    | _ => none

/-- The program takes these steps: the pointer is loaded, the number is taken, and the patched
clone is stored under it. -/
theorem updateSlotAt_runs {addr : Addr} {tr : Trace} :
    (updateSlotAt slot addr).Runs tr () ↔ ∃ cur gen, tr = [⟨.load, cur⟩, ⟨.genAdd, gen⟩,
      ⟨.store { (Call.update slot addr).topo cur with generation := gen }, ()⟩] := by
  constructor
  · rintro ⟨cur, _, rfl, gen, _, rfl, _, _, rfl, rfl, -⟩
    exact ⟨cur, gen, rfl⟩
  · rintro ⟨cur, gen, rfl⟩
    exact ⟨cur, _, rfl, gen, _, rfl, (), _, rfl, rfl, rfl⟩

/-- The three kinds of steps. -/
theorem MapState.next_cases {m m' : MapState} {l : Label} (h : m.next l = some m') :
    (∃ i c, l = .start i c ∧ m.calls i = .new ∧
      m' = m.setCall i (.busy c (c.topo m.ptr) false)) ∨
    (∃ i c t, l = .number i ∧ m.calls i = .busy c t false ∧
      m' = { m.setCall i (.busy c { t with generation := m.gen + 1 } true) with
        gen := m.gen + 1 }) ∨
    (∃ i c t, l = .store i ∧ m.calls i = .busy c t true ∧
      m' = { m.setCall i .returned with ptr := some t }) := by
  cases l with
  | start i c =>
    simp only [MapState.next] at h
    split at h
    · exact .inl ⟨i, c, rfl, ‹_›, by simpa using h.symm⟩
    · cases h
  | number i =>
    simp only [MapState.next] at h
    split at h
    · exact .inr (.inl ⟨i, _, _, rfl, ‹_›, by simpa using h.symm⟩)
    · cases h
  | store i =>
    simp only [MapState.next] at h
    split at h
    · exact .inr (.inr ⟨i, _, _, rfl, ‹_›, by simpa using h.symm⟩)
    · cases h

/-- The map before any call. -/
def MapState.init (ptr : Option Topology) : MapState := { ptr }

/-- The runs of concurrent calls. -/
abbrev MapState.Runs (ptr : Option Topology) (tr : List Label) (m : MapState) : Prop :=
  Machine.exec MapState.next (.init ptr) tr = some m

/-! ## What callers rely on -/

/-- No update is lost. `kept`: the slot of an `UpdateSlot` that has returned has its address,
if all other updates of the slot and all refreshes had returned before it started.
`refreshed`: behind the `Store` of a refresh, and up to the next one, a slot has the owner
of its topology, if all updates of the slot had returned before it started. -/
structure NoLostUpdate (tr : List Label) (ptr : Option Topology) : Prop where
  kept : ∀ pre post i slot addr, slot < slotCount →
    tr = pre ++ .start i (.update slot addr) :: post → .store i ∈ post →
    (∀ j addr', .start j (.update slot addr') ∈ tr → j ≠ i → .store j ∈ pre) →
    (∀ j t, .start j (.refresh t) ∈ tr → .store j ∈ pre) → ownerOf ptr slot = some addr
  refreshed : ∀ pre mid post i t slot,
    tr = pre ++ .start i (.refresh t) :: mid ++ .store i :: post →
    (∀ j t', .start j (.refresh t') ∈ tr → .store j ∉ post) →
    (∀ j addr, .start j (.update slot addr) ∈ tr → .store j ∈ pre) →
    ownerOf ptr slot = ownerOf (some t) slot

/-- Between the `Load` and the `Store` of an `UpdateSlot` nothing else is stored. -/
def Exclusive (tr : List Label) : Prop :=
  ∀ pre mid post i slot addr,
    tr = pre ++ .start i (.update slot addr) :: mid ++ .store i :: post → ∀ j, .store j ∉ mid

/-! ## The invariant -/

section

variable {ptr ptr' : Option Topology} {tr : List Label} {m m' : MapState} {l : Label} {i j : Nat}
variable {c : Call} {s : Nat}

/-- The call that takes the step. -/
def Label.call : Label → Nat
  | .start i _ | .number i | .store i => i

/-- Nothing has been stored since the call started. -/
def Undisturbed (tr : List Label) (i : Nat) (c : Call) : Prop :=
  ∀ pre post, tr = pre ++ .start i c :: post → ∀ j, .store j ∉ post

/-- What a call is going to store: an update has moved its slot and, if it is undisturbed,
no other one; a refresh stores what it was given. -/
def Carries (tr : List Label) (ptr : Option Topology) (i : Nat) (t : Topology) : Call → Prop
  | .update slot addr => (slot < slotCount → ownerOf (some t) slot = some addr) ∧
      (Undisturbed tr i (.update slot addr) →
        ∀ s, s ≠ slot → ownerOf (some t) s = ownerOf ptr s)
  | .refresh t₀ => ∀ s, ownerOf (some t) s = ownerOf (some t₀) s

/-- What holds of a call, by where it is. -/
def CallInv (tr : List Label) (ptr : Option Topology) (i : Nat) : Progress → Prop
  | .new => (∀ c, .start i c ∉ tr) ∧ .store i ∉ tr
  | .busy c t _ => t.Indexed ∧ .start i c ∈ tr ∧ (∀ c', .start i c' ∈ tr → c' = c) ∧
      .store i ∉ tr ∧ Carries tr ptr i t c
  | .returned => .store i ∈ tr

structure MapInv (tr : List Label) (m : MapState) : Prop where
  ptr : ∀ t ∈ m.ptr, t.Indexed
  calls : ∀ i, CallInv tr m.ptr i (m.calls i)

theorem Undisturbed.init (hstart : .start i c ∈ tr)
    (h : Undisturbed (tr ++ [l]) i c) : Undisturbed tr i c ∧ ∀ j, l ≠ .store j := by
  constructor
  · intro pre post htr j hj
    exact h pre (post ++ [l]) (by simp [htr]) j (List.mem_append_left _ hj)
  · rintro j rfl
    obtain ⟨pre, post, htr⟩ := List.append_of_mem hstart
    exact h pre (post ++ [.store j]) (by simp [htr]) j (by simp)

/-- The steps of other calls. -/
theorem CallInv.other {p : Progress} (h : CallInv tr ptr j p) (hl : l.call ≠ j)
    (hptr : (∀ i, l ≠ .store i) → ptr' = ptr) : CallInv (tr ++ [l]) ptr' j p := by
  have hstart : ∀ c, .start j c ∈ tr ++ [l] → .start j c ∈ tr := by
    intro c hc
    refine (List.mem_append.1 hc).elim id fun hc => ?_
    rw [← List.mem_singleton.1 hc] at hl
    exact absurd rfl hl
  have hstore : .store j ∈ tr ++ [l] → .store j ∈ tr := by
    intro hj
    refine (List.mem_append.1 hj).elim id fun hj => ?_
    rw [← List.mem_singleton.1 hj] at hl
    exact absurd rfl hl
  cases p with
  | new => exact ⟨fun c hc => h.1 c (hstart c hc), fun hj => h.2 (hstore hj)⟩
  | busy c t b =>
    obtain ⟨hidx, hin, huniq, hout, hcarries⟩ := h
    refine ⟨hidx, List.mem_append_left _ hin, fun c' hc' => huniq c' (hstart c' hc'),
      fun hj => hout (hstore hj), ?_⟩
    cases c with
    | update slot addr =>
      refine ⟨hcarries.1, fun hu s hs => ?_⟩
      obtain ⟨hu, hnot⟩ := hu.init hin
      rw [hptr hnot]
      exact hcarries.2 hu s hs
    | refresh t₀ => exact hcarries
  | returned => exact List.mem_append_left _ h

theorem init_inv (h : ∀ t ∈ ptr, t.Indexed) : MapInv [] (.init ptr) :=
  ⟨h, fun _ => ⟨fun _ => List.not_mem_nil, List.not_mem_nil⟩⟩

theorem MapInv.start (h : MapInv tr m) (hnew : m.calls i = .new)
    (hc : ∀ t, c = .refresh t → t.Indexed) :
    MapInv (tr ++ [.start i c]) (m.setCall i (.busy c (c.topo m.ptr) false)) := by
  refine ⟨h.ptr, fun j => ?_⟩
  dsimp only [MapState.setCall]
  split
  · rename_i hj
    subst hj
    have hfresh := h.calls j
    rw [hnew] at hfresh
    refine ⟨?_, by simp, ?_, by simpa using hfresh.2, ?_⟩
    · cases c with
      | update slot addr => exact updateSlot_indexed h.ptr slot addr
      | refresh t => exact hc t rfl
    · intro c' hc'
      simpa [hfresh.1] using hc'
    · cases c with
      | update slot addr =>
        exact ⟨fun hslot => ownerOf_updateSlot_self hslot _ _, fun _ s hs =>
          ownerOf_updateSlot_other h.ptr hs addr⟩
      | refresh t => exact fun _ => rfl
  · rename_i hj
    exact (h.calls j).other (Ne.symm hj) fun _ => rfl

theorem MapInv.number (h : MapInv tr m) {t : Topology} (hi : m.calls i = .busy c t false) :
    MapInv (tr ++ [.number i]) { m.setCall i (.busy c { t with generation := m.gen + 1 } true) with
      gen := m.gen + 1 } := by
  refine ⟨h.ptr, fun j => ?_⟩
  dsimp only [MapState.setCall]
  split
  · rename_i hj
    subst hj
    have hbusy := h.calls j
    rw [hi] at hbusy
    obtain ⟨hidx, hin, huniq, hout, hcarries⟩ := hbusy
    refine ⟨hidx, by simp [hin], by simpa using huniq, by simpa using hout, ?_⟩
    cases c with
    | update slot addr =>
      refine ⟨hcarries.1, fun hu s hs => ?_⟩
      exact hcarries.2 (hu.init hin).1 s hs
    | refresh t₀ => exact hcarries
  · rename_i hj
    exact (h.calls j).other (Ne.symm hj) fun _ => rfl

theorem MapInv.store (h : MapInv tr m) {t : Topology} (hi : m.calls i = .busy c t true) :
    MapInv (tr ++ [.store i]) { m.setCall i .returned with ptr := some t } := by
  have hbusy := h.calls i
  rw [hi] at hbusy
  refine ⟨?_, fun j => ?_⟩
  · rintro t' ⟨⟩
    exact hbusy.1
  · dsimp only [MapState.setCall]
    split
    · rename_i hj
      subst hj
      exact List.mem_append_right _ List.mem_cons_self
    · rename_i hj
      exact (h.calls j).other (Ne.symm hj) fun hnot => absurd rfl (hnot i)

/-- The topologies of the refreshes are ones the router builds. -/
def Refreshes (tr : List Label) : Prop := ∀ i t, .start i (.refresh t) ∈ tr → t.Indexed

/-- **The invariant holds in every run.** -/
theorem runs_inv (hptr : ∀ t ∈ ptr, t.Indexed) (href : Refreshes tr) (h : MapState.Runs ptr tr m) :
    MapInv tr m := by
  have hinv : Refreshes tr → MapInv tr m := by
    refine Machine.invariant (I := fun tr m => Refreshes tr → MapInv tr m)
      (fun _ => init_inv hptr) ?_ h
    intro tr m l m' _ hinv hl href
    have hm := hinv fun i t ht => href i t (List.mem_append_left _ ht)
    obtain ⟨i, c, rfl, hi, rfl⟩ | ⟨i, c, t, rfl, hi, rfl⟩ | ⟨i, c, t, rfl, hi, rfl⟩ :=
      MapState.next_cases hl
    · refine hm.start hi ?_
      rintro t rfl
      exact href i t (List.mem_append_right _ List.mem_cons_self)
    · exact hm.number hi
    · exact hm.store hi
  exact hinv href

/-- A slot keeps its owner while only other slots are updated. -/
theorem owner_preserved {A B : List Label} (hptr : ∀ t ∈ ptr, t.Indexed)
    (href : Refreshes (A ++ B)) (hex : Exclusive (A ++ B)) (hA : MapState.Runs ptr A m)
    (h : MapState.Runs ptr (A ++ B) m')
    (hB : ∀ j c, .start j c ∈ A ++ B → .store j ∉ A → .store j ∈ B →
      ∃ s addr, c = .update s addr ∧ s ≠ slot) :
    ownerOf m'.ptr slot = ownerOf m.ptr slot := by
  refine Machine.preserved (I := fun m' => ownerOf m'.ptr slot = ownerOf m.ptr slot) hA rfl ?_ h
  intro mid l rest m₁ m₂ hmid hm₁ hI hl
  have hsub : A ++ mid ⊆ A ++ B := by
    rw [hmid, ← List.append_assoc]
    exact List.subset_append_left _ _
  have hinv := runs_inv hptr (fun i t ht => href i t (hsub ht)) hm₁
  obtain ⟨i, c, rfl, hi, rfl⟩ | ⟨i, c, t, rfl, hi, rfl⟩ | ⟨i, c, t, rfl, hi, rfl⟩ :=
    MapState.next_cases hl
  · exact hI
  · exact hI
  · have hbusy := hinv.calls i
    rw [hi] at hbusy
    obtain ⟨-, hstart, -, hout, hcarries⟩ := hbusy
    obtain ⟨s, addr, rfl, hs⟩ := hB i c (hsub hstart)
      (fun hi => hout (List.mem_append_left _ hi)) (by simp [hmid])
    refine (hcarries.2 ?_ slot (Ne.symm hs)).trans hI
    intro pre post htr j
    refine hex pre post rest i s addr ?_ j
    rw [hmid, ← List.append_assoc, htr]

/-- What a call has stored when it returns. -/
theorem runs_store {A : List Label} (hptr : ∀ t ∈ ptr, t.Indexed) (href : Refreshes A)
    (hstart : .start i c ∈ A) (h : MapState.Runs ptr (A ++ [.store i]) m) :
    ∃ t old, m.ptr = some t ∧ Carries A old i t c := by
  obtain ⟨m₁, h₁, hl⟩ := Machine.exec_snoc.1 h
  have hinv := runs_inv hptr href h₁
  obtain ⟨_, _, heq, -⟩ | ⟨_, _, _, heq, -⟩ | ⟨i', c', t, heq, hi, rfl⟩ := MapState.next_cases hl
  · cases heq
  · cases heq
  · cases heq
    have hbusy := hinv.calls i
    rw [hi] at hbusy
    obtain ⟨-, -, huniq, -, hcarries⟩ := hbusy
    rw [huniq c hstart]
    exact ⟨t, m₁.ptr, rfl, hcarries⟩

/-- **If nothing else is stored between the `Load` and the `Store` of any `UpdateSlot`, no
update is lost.** -/
theorem noLostUpdate_of_exclusive (hptr : ∀ t ∈ ptr, t.Indexed) (href : Refreshes tr)
    (hex : Exclusive tr) (h : MapState.Runs ptr tr m) : NoLostUpdate tr m.ptr := by
  constructor
  · intro pre post i slot addr hslot htr hstore hupdates hrefreshes
    obtain ⟨mid, post', rfl⟩ := List.append_of_mem hstore
    have hsplit : tr = (pre ++ .start i (.update slot addr) :: mid ++ [.store i]) ++ post' := by
      simp [htr]
    rw [hsplit] at h href hex
    obtain ⟨m₁, h₁, -⟩ := Machine.exec_append.1 h
    obtain ⟨t, old, ht, hcarries⟩ := runs_store (c := .update slot addr) hptr
      (fun j t hj => href j t (List.mem_append_left _ (List.mem_append_left _ hj)))
      (by simp) h₁
    have hmoved : ownerOf m₁.ptr slot = some addr := by
      rw [ht]
      exact hcarries.1 hslot
    refine (owner_preserved hptr href hex h₁ h ?_).trans hmoved
    intro j c hj hout _
    have hpre : .store j ∉ pre := fun hj => hout (by simp [hj])
    rw [← hsplit] at hj
    cases c with
    | update s addr' =>
      refine ⟨s, addr', rfl, ?_⟩
      rintro rfl
      refine hpre (hupdates j addr' hj ?_)
      rintro rfl
      exact hout (by simp)
    | refresh t => exact absurd (hrefreshes j t hj) hpre
  · intro pre mid post i t slot htr hrefreshes hupdates
    have hsplit : tr = (pre ++ .start i (.refresh t) :: mid ++ [.store i]) ++ post := by
      simp [htr]
    rw [hsplit] at h href hex
    obtain ⟨m₁, h₁, -⟩ := Machine.exec_append.1 h
    obtain ⟨t', old, ht, hcarries⟩ := runs_store (c := .refresh t) hptr
      (fun j t hj => href j t (List.mem_append_left _ (List.mem_append_left _ hj)))
      (by simp) h₁
    have hstored : ownerOf m₁.ptr slot = ownerOf (some t) slot := by
      rw [ht]
      exact hcarries slot
    refine (owner_preserved hptr href hex h₁ h ?_).trans hstored
    intro j c hj hout hin
    rw [← hsplit] at hj
    cases c with
    | update s addr =>
      refine ⟨s, addr, rfl, ?_⟩
      rintro rfl
      exact hout (by simp [hupdates j addr hj])
    | refresh t' => exact absurd hin (hrefreshes j t' hj)

end

/-- One session follows a `MOVED`. -/
def oneUpdate : List Label := [.start 0 (.update 1 "a:1"), .number 0, .store 0]

theorem noLostUpdate_of_exclusive_oneUpdate : ∃ m, MapState.Runs none oneUpdate m ∧
    NoLostUpdate oneUpdate m.ptr := by
  have hrun : MapState.Runs none oneUpdate _ := rfl
  have hex : Exclusive oneUpdate := by
    intro pre mid post i slot addr htr j hj
    have hcount := congrArg (List.countP fun | Label.store _ => true | _ => false) htr
    have hmid : 0 < mid.countP (fun | Label.store _ => true | _ => false) :=
      List.countP_pos_iff.2 ⟨_, hj, rfl⟩
    simp [oneUpdate] at hcount
    omega
  exact ⟨_, hrun, noLostUpdate_of_exclusive (fun _ ht => by cases ht)
    (fun i t ht => by simp [oneUpdate] at ht) hex hrun⟩

/-- Two sessions follow a `MOVED` for different slots; both load the pointer first. -/
def twoUpdates : List Label :=
  [.start 0 (.update 1 "a:1"), .start 1 (.update 2 "b:1"), .number 0, .store 0, .number 1, .store 1]

/-- The second `Store` undoes the first update. -/
theorem second_store_loses_first : ¬ ∀ tr m, Refreshes tr → MapState.Runs none tr m →
    NoLostUpdate tr m.ptr := by
  intro h
  have hrun : MapState.Runs none twoUpdates _ := rfl
  have hkept := (h twoUpdates _ (fun i t ht => by simp [twoUpdates] at ht) hrun).kept [] _ 0 1
    "a:1" (by decide) rfl (by simp) (by simp [twoUpdates]) (by simp [twoUpdates])
  exact absurd hkept (by decide)

/-! ## Generations -/

section

variable {m m' : MapState} {l : Label} {g : Nat} {k : Option Nat}

/-- `Router.Generation`: `EXEC` compares it to see whether the topology has changed. -/
def MapState.generation (m : MapState) : Nat := (m.ptr.map Topology.generation).getD 0

/-- A step gives at most one call its number, the next one, and may store a numbered topology. -/
theorem MapState.next_numbered (h : m.next l = some m') : m.gen ≤ m'.gen ∧
    (∀ i c t, m'.calls i = .busy c t true → m.calls i = .busy c t true ∧ l ≠ .store i ∨
      l = .number i ∧ m'.gen = m.gen + 1 ∧ t.generation = m'.gen) ∧
    (m'.ptr = m.ptr ∧ (∀ i, l ≠ .store i) ∨
      ∃ i c t, l = .store i ∧ m.calls i = .busy c t true ∧ m'.ptr = some t) := by
  obtain ⟨i, c, rfl, hi, rfl⟩ | ⟨i, c, t, rfl, hi, rfl⟩ | ⟨i, c, t, rfl, hi, rfl⟩ :=
    MapState.next_cases h
  · refine ⟨Nat.le_refl _, fun j c' t' hj => ?_, .inl ⟨rfl, by simp⟩⟩
    dsimp only [MapState.setCall] at hj
    split at hj
    · cases hj
    · exact .inl ⟨hj, by simp⟩
  · refine ⟨Nat.le_succ _, fun j c' t' hj => ?_, .inl ⟨rfl, by simp⟩⟩
    dsimp only [MapState.setCall] at hj
    split at hj
    · cases hj
      exact .inr ⟨by rw [‹j = i›], rfl, rfl⟩
    · exact .inl ⟨hj, by simp⟩
  · refine ⟨Nat.le_refl _, fun j c' t' hj => ?_, .inr ⟨i, c, t, rfl, hi, rfl⟩⟩
    dsimp only [MapState.setCall] at hj
    split at hj
    · cases hj
    · exact .inl ⟨hj, by simpa using Ne.symm ‹j ≠ i›⟩

/-- The number has been given out, and of the calls on the way only `k` has it. -/
def MapState.Taken (m : MapState) (g : Nat) (k : Option Nat) : Prop :=
  g ≤ m.gen ∧ ∀ i c t, m.calls i = .busy c t true → t.generation = g → k = some i

theorem MapState.Taken.next (h : m.Taken g k) (hl : m.next l = some m') : m'.Taken g k := by
  obtain ⟨hgen, hcalls, -⟩ := MapState.next_numbered hl
  obtain ⟨hle, honly⟩ := h
  refine ⟨hle.trans hgen, fun i c t hi heq => ?_⟩
  rcases hcalls i c t hi with ⟨hi, -⟩ | ⟨-, hnew, ht⟩
  · exact honly i c t hi heq
  · omega

/-- No call has the number of the map, or that of another call. -/
structure MapState.Numbered (m : MapState) : Prop where
  ptr : m.Taken m.generation none
  calls : ∀ i c t, m.calls i = .busy c t true → m.Taken t.generation (some i)

theorem MapState.Numbered.next (h : m.Numbered) (hl : m.next l = some m') : m'.Numbered := by
  obtain ⟨-, hcalls, hptr⟩ := MapState.next_numbered hl
  constructor
  · rcases hptr with ⟨hptr, -⟩ | ⟨i, c, t, rfl, hi, hptr⟩
    · rw [MapState.generation, hptr]
      exact h.ptr.next hl
    · rw [MapState.generation, hptr]
      obtain ⟨hle, honly⟩ := (h.calls i c t hi).next hl
      refine ⟨hle, fun j c' t' hj heq => ?_⟩
      -- the call that had the number has returned
      cases honly j c' t' hj heq
      rcases hcalls i c' t' hj with ⟨-, hne⟩ | ⟨hnumber, -⟩
      · exact absurd rfl hne
      · cases hnumber
  · intro i c t hi
    rcases hcalls i c t hi with ⟨hi, -⟩ | ⟨rfl, hnew, ht⟩
    · exact (h.calls i c t hi).next hl
    · refine ⟨Nat.le_of_eq ht, fun j c' t' hj heq => ?_⟩
      rcases hcalls j c' t' hj with ⟨hj, -⟩ | ⟨hj, -⟩
      · have := (h.calls j c' t' hj).1
        omega
      · cases hj
        rfl

/-- **The generation changes exactly when a topology is stored.** A session that finds the
generation it has seen before has missed nothing. -/
theorem generation_eq_iff {A B : List Label} (hA : MapState.Runs none A m)
    (h : MapState.Runs none (A ++ B) m') :
    m'.generation = m.generation ↔ ∀ i, .store i ∉ B := by
  have hnum : m.Numbered := by
    refine Machine.invariant (I := fun _ m => m.Numbered) ?_ (fun _ _ _ _ _ hI => hI.next) hA
    exact ⟨⟨Nat.le_refl _, fun _ _ _ hi => by cases hi⟩, fun _ _ _ hi => by cases hi⟩
  obtain ⟨m₁, h₁, hB⟩ := Machine.exec_append.1 h
  cases hA.symm.trans h₁
  -- the number seen is not given out again, so no call can store it
  refine (Machine.invariant (I := fun tr m' => m'.Taken m.generation none ∧
    (m'.generation = m.generation ↔ ∀ i, .store i ∉ tr)) ⟨hnum.ptr, by simp⟩ ?_ hB).2
  rintro tr n l n' - ⟨htaken, hiff⟩ hl
  refine ⟨htaken.next hl, ?_⟩
  obtain ⟨-, -, ⟨hptr, hno⟩ | ⟨i, c, t, rfl, hi, hptr⟩⟩ := MapState.next_numbered hl
  · rw [MapState.generation, hptr]
    refine hiff.trans (forall_congr' fun i => ?_)
    simp [Ne.symm (hno i)]
  · refine iff_of_false (fun heq => ?_) fun hno => hno i (by simp)
    rw [MapState.generation, hptr] at heq
    cases htaken.2 i c t hi heq

end

theorem generation_eq_iff_numbered : ∃ m m', MapState.Runs none oneUpdate m ∧
    MapState.Runs none (oneUpdate ++ [.start 1 (.update 2 "b:1"), .number 1]) m' ∧
    m'.generation = m.generation :=
  ⟨_, _, rfl, rfl, (generation_eq_iff (A := oneUpdate)
    (B := [.start 1 (.update 2 "b:1"), .number 1]) rfl rfl).2 (by simp)⟩

end RespProxy.Cluster
