import RespProxy.Cluster.Map

/-! # The parsers and the slot array

The parsers take the first and the last slot of a range from the reply and write the
slots between them into an array of `SlotCount` entries. Their loop stops at the end
of the array, but it starts where the reply says: a range that starts below zero
is written out of bounds, and the parser panics.

* `fillSlots`: the loop on the array, which `setRange` says at once;
* `Pointed`: the slots of a topology point to its nodes, or to nothing.
-/

namespace RespProxy.Cluster

open Resp

variable {t t' : Topology} {v : Value}

/-! ## The slot loop -/

variable {start stop : Int}

/-- The slot array. -/
def Topology.table (t : Topology) : List Int := (List.range slotCount).map t.slots

/-- The loop `for s := start; s <= end && s < SlotCount; s++` of the parsers, which writes
`int32(idx)` to `t.Slots[s]`, from the round of slot `s` on; `none` is a panic. -/
def fillSlots (stop : Int) (idx : Nat) (s : Int) (slots : List Int) : Option (List Int) :=
  if s ≤ stop ∧ s < slotCount then
    if 0 ≤ s ∧ s < slots.length then fillSlots stop idx (s + 1) (slots.set s.toNat idx) else none
  else some slots
termination_by (slotCount - s).toNat

/-- The slots `start, …, stop` belong to node `idx`. -/
def Topology.assign (t : Topology) (start stop : Int) (idx : Nat) : Topology :=
  { t with
    slots := fun s => if start ≤ (s : Int) ∧ (s : Int) ≤ stop then (idx : Int) else t.slots s }

theorem table_eq (h : ∀ s < slotCount, t.slots s = t'.slots s) : t.table = t'.table :=
  List.map_congr_left fun s hs => h s (List.mem_range.1 hs)

theorem length_table (t : Topology) : t.table.length = slotCount := by
  rw [Topology.table, List.length_map, List.length_range]

/-- One round of the loop. -/
theorem table_set (t : Topology) (k idx : Nat) : t.table.set k idx =
    Topology.table { t with slots := fun s => if s = k then (idx : Int) else t.slots s } := by
  refine List.ext_getElem (by simp [Topology.table]) fun n hn hn' => ?_
  simp only [Topology.table, List.getElem_set, List.getElem_map, List.getElem_range, eq_comm]

/-- No slot of the array is in the range. -/
theorem table_assign_of_empty (h : stop < start ∨ slotCount ≤ start)
    (t : Topology) (idx : Nat) : (t.assign start stop idx).table = t.table := by
  refine table_eq fun s hs => ?_
  dsimp only [Topology.assign]
  rw [if_neg (by omega)]

/-- The loop from a slot that is not negative. -/
theorem fillSlots_nonneg (t : Topology) {s : Int} (hs : 0 ≤ s) (stop : Int) (idx : Nat) :
    fillSlots stop idx s t.table = some (t.assign s stop idx).table := by
  -- the induction is on the rounds that are left
  generalize hm : ((slotCount : Int) - s).toNat = m
  induction m generalizing t s with
  | zero => rw [fillSlots, if_neg (by omega), table_assign_of_empty (by omega)]
  | succ m ih =>
    rw [fillSlots]
    split
    · rename_i hlt
      rw [if_pos ⟨hs, by rw [length_table]; exact hlt.2⟩, table_set, ih _ (by omega) (by omega)]
      refine congrArg some (table_eq fun k _ => ?_)
      dsimp only [Topology.assign]
      by_cases hk : k = s.toNat
      · rw [if_pos hk, if_neg (by omega), if_pos (by omega)]
      · rw [if_neg hk]
        exact if_congr (by omega) rfl rfl
    · rw [table_assign_of_empty (by omega)]

/-- **The loop of the parsers.** It goes out of bounds where `setRange` panics, and else leaves
the same array. -/
theorem fillSlots_table (t : Topology) (start stop : Int) (idx : Nat) :
    fillSlots stop idx start t.table = (t.setRange start stop idx).map Topology.table := by
  unfold Topology.setRange
  by_cases hs : 0 ≤ start
  · rw [fillSlots_nonneg t hs, if_neg (by omega)]
    rfl
  · by_cases hle : start ≤ stop
    · rw [fillSlots, if_pos ⟨hle, by omega⟩, if_neg (by omega), if_pos ⟨by omega, hle⟩]
      rfl
    · rw [fillSlots, if_neg (by omega), if_neg (by omega)]
      exact congrArg some (table_assign_of_empty (by omega) t idx).symm

/-! ## Slots that point to nodes -/

/-- Every slot is the index of a node, or -1. -/
def Topology.Pointed (t : Topology) : Prop :=
  ∀ s < slotCount, t.slots s = -1 ∨ (0 ≤ t.slots s ∧ t.slots s < t.nodes.length)

theorem parseInv_pointed (es : List Node) :
    ParseInv es (fun t => ∀ s, t.slots s = -1 ∨ (0 ≤ t.slots s ∧ t.slots s < t.nodes.length))
      fun t i => i < t.nodes.length :=
  parseInv_slots (P := fun x n => x = -1 ∨ (0 ≤ x ∧ x < n)) (.inl rfl) (by omega) (by omega) es

theorem parseSlots_pointed (ht : parseSlots v = some (.ok t)) : t.Pointed :=
  fun s _ => (parseInv_pointed _).parseSlots ht s

theorem parseShards_pointed (ht : parseShards v = some (.ok t)) : t.Pointed :=
  fun s _ => (parseInv_pointed _).parseShards ht s

/-! ## Ranges that start below zero -/

/-- The slot loop leaves the array at its first round. -/
def Underflows (start stop : Int) : Prop := start < 0 ∧ start ≤ stop

instance (start stop : Int) : Decidable (Underflows start stop) := inferInstanceAs (Decidable (_ ∧ _))

/-- The entry of `CLUSTER SLOTS` has a master and a range that starts below zero. -/
def entryUnderflows (entry : Value) : Prop :=
  ∃ start stop node nodes, entry.values = start :: stop :: node :: nodes ∧ entry.type = .array ∧
    (parseSlotsNode node).isSome ∧ Underflows start.int stop.int

/-- The shard of `CLUSTER SHARDS` has a master that is not hidden, and a range that starts below
zero. -/
def shardUnderflows (shard : Value) : Prop :=
  shard.type = .array ∧ (∃ n ∈ shardNodes shard, n.health ≠ .hidden ∧ n.master = true) ∧
    ∃ r ∈ shardRanges shard, Underflows r.1 r.2

theorem setRange_isSome {idx : Nat} :
    (t.setRange start stop idx).isSome ↔ ¬ Underflows start stop := by
  unfold Topology.setRange Underflows
  split <;> simp_all

/-- A fold whose steps fail or not whatever the state is. -/
theorem foldlM_isSome {σ α : Type*} {f : σ → α → Option σ} {P : α → Prop}
    (hf : ∀ s x, (f s x).isSome ↔ P x) (xs : List α) (s : σ) :
    (xs.foldlM f s).isSome ↔ ∀ x ∈ xs, P x := by
  induction xs generalizing s with
  | nil => simp
  | cons x xs ih =>
    rw [List.foldlM_cons, List.forall_mem_cons, ← hf s x]
    cases hx : f s x with
    | none => simp
    | some s' => simpa using ih s'

/-- Only the master of an entry writes slots. -/
theorem slotsNodes_false_isSome (start stop : Int) (vs : List Value) (t : Topology) :
    (slotsNodes start stop false vs t).isSome := by
  induction vs generalizing t with
  | nil => rfl
  | cons v vs ih =>
    rw [slotsNodes]
    split
    · exact ih t
    · exact ih _

theorem bind_isSome {α β : Type*} {o : Option α} {f : α → Option β} (hf : ∀ a, (f a).isSome) :
    (o.bind f).isSome ↔ o.isSome := by
  cases o with
  | none => simp
  | some a => simp [hf a]

theorem entryUnderflows_iff {entry start stop node : Value} {nodes : List Value}
    (hvals : entry.values = start :: stop :: node :: nodes) :
    entryUnderflows entry ↔ entry.type = .array ∧ (parseSlotsNode node).isSome ∧
      Underflows start.int stop.int := by
  constructor
  · rintro ⟨_, _, _, _, hvals', h⟩
    rw [hvals] at hvals'
    cases hvals'
    exact h
  · exact fun h => ⟨start, stop, node, nodes, hvals, h⟩

theorem addSlotsEntry_isSome (t : Topology) (entry : Value) :
    (addSlotsEntry t entry).isSome ↔ ¬ entryUnderflows entry := by
  unfold addSlotsEntry
  split
  · rename_i start stop node nodes hvals
    rw [entryUnderflows_iff hvals]
    split
    · rename_i htype
      rw [slotsNodes]
      cases hnode : parseSlotsNode node with
      | none => simp [slotsNodes_false_isSome]
      | some n =>
        dsimp only
        rw [if_pos rfl, bind_isSome (slotsNodes_false_isSome _ _ nodes), setRange_isSome]
        simp [htype]
    · rename_i htype
      simp [htype]
  · rename_i hshort
    refine iff_of_true rfl ?_
    rintro ⟨start, stop, node, nodes, hvals, -⟩
    exact hshort start stop node nodes hvals

/-- The nodes of a shard have a master if one of them is. -/
theorem shardMaster_isSome (ns : List Node) (acc : Topology × Option Nat) :
    (ns.foldl (fun (acc : Topology × Option Nat) n =>
      let (t, idx) := acc.1.upsertNode n
      (t, if n.master then some idx else acc.2)) acc).2.isSome ↔
      acc.2.isSome ∨ ∃ n ∈ ns, n.master = true := by
  induction ns generalizing acc with
  | nil => simp
  | cons n ns ih =>
    rw [List.foldl_cons, ih]
    dsimp only
    cases hn : n.master <;> simp [hn]

theorem addShard_isSome (t : Topology) (shard : Value) :
    (addShard t shard).isSome ↔ ¬ shardUnderflows shard := by
  unfold addShard shardUnderflows
  split
  · rename_i htype
    exact iff_of_true rfl fun h => htype h.1
  · rename_i htype
    have hmaster := shardMaster_isSome
      ((shardNodes shard).filter fun n => decide (n.health ≠ .hidden)) (t, none)
    dsimp only
    generalize List.foldl _ _ _ = out at hmaster ⊢
    have hvisible : out.2.isSome ↔ ∃ n ∈ shardNodes shard, n.health ≠ .hidden ∧ n.master = true := by
      simpa [and_assoc] using hmaster
    rw [not_not] at htype
    rw [← hvisible, and_iff_right htype]
    cases out.2 with
    | none => simp
    | some idx =>
      dsimp only
      have hranges := foldlM_isSome (f := fun (t : Topology) (r : Int × Int) =>
        t.setRange r.1 r.2 idx) (fun _ _ => setRange_isSome) (shardRanges shard) out.1
      simpa using hranges

/-! ## The parsers -/

/-- The parser returns, and the slots of a topology point to its nodes. -/
def Sane (r : Option (Except Err Topology)) : Prop :=
  ∃ res, r = some res ∧ ∀ t, res = .ok t → t.Pointed

theorem sane_iff {r : Option (Except Err Topology)} (h : ∀ t, r = some (.ok t) → t.Pointed) :
    Sane r ↔ r.isSome := by
  constructor
  · rintro ⟨res, rfl, -⟩
    rfl
  · intro hr
    obtain ⟨res, rfl⟩ := Option.isSome_iff_exists.1 hr
    refine ⟨res, rfl, ?_⟩
    rintro t rfl
    exact h t rfl

/-- A parser returns if none of the items panics. -/
theorem parse_isSome {f : Topology → Value → Option Topology} {P : Value → Prop} {e : Err}
    (hf : ∀ t x, (f t x).isSome ↔ ¬ P x) :
    (if v.type ≠ .array ∨ v.null then some (.error e)
      else (v.values.foldlM f newEmptyTopology).map .ok : Option (Except Err Topology)).isSome ↔
      (v.type = .array → v.null = false → ∀ x ∈ v.values, ¬ P x) := by
  split
  · rename_i hv
    refine iff_of_true rfl fun htype hnull => ?_
    rcases hv with hne | htrue
    · exact absurd htype hne
    · rw [hnull] at htrue
      cases htrue
  · rename_i hv
    rw [not_or, not_not, Bool.not_eq_true] at hv
    rw [Option.isSome_map, foldlM_isSome hf]
    exact ⟨fun h _ _ => h, fun h => h hv.1 hv.2⟩

/-- **The parsers and the slot array.** `ParseSlots` and `ParseShards` return, with slots that
point to nodes, if and only if no range that they write starts below zero. -/
theorem parsers_sane_iff (v : Value) :
    (Sane (parseSlots v) ↔ (v.type = .array → v.null = false →
      ∀ entry ∈ v.values, ¬ entryUnderflows entry)) ∧
    (Sane (parseShards v) ↔ (v.type = .array → v.null = false →
      ∀ shard ∈ v.values, ¬ shardUnderflows shard)) := by
  constructor
  · rw [sane_iff fun _ => parseSlots_pointed]
    exact parse_isSome addSlotsEntry_isSome
  · rw [sane_iff fun _ => parseShards_pointed]
    exact parse_isSome addShard_isSome

/-- Slots -1 to 0 with one master. -/
def negativeSlots : Value :=
  array [array [integer (-1), integer 0, array [bulkString (arg "127.0.0.1"), integer 6379]]]

/-- A range of a reply starts below zero. -/
theorem parseSlots_negative_panics : ¬ ∀ v : Value, Sane (parseSlots v) ∧ Sane (parseShards v) := by
  intro h
  obtain ⟨res, hres, -⟩ := (h negativeSlots).1
  have hnone : parseSlots negativeSlots = none := by decide +kernel
  rw [hnone] at hres
  cases hres

end RespProxy.Cluster
