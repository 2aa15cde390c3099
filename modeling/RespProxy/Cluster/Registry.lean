import RespProxy.Cluster.Router
import RespProxy.Lib.Machine

/-! # The pools of the router

`poolFor`, `syncPools` and `Close` work on the map from addresses to pools under the
router's mutex; sessions, refreshes and the shutdown call them in any order.
-/

namespace RespProxy.Cluster

/-- A pool: the number it was made with, and the options that differ from pool to pool. -/
structure NodePool where
  id : Nat
  addr : Addr
  readOnly : Bool
deriving DecidableEq, Repr

/-- `r.pools`, keyed by the addresses of the pools, with the pools that were closed and the
number of pools made. -/
structure Registry where
  pools : List NodePool := []
  closed : List NodePool := []
  made : Nat := 0
deriving DecidableEq, Repr

namespace Registry

/-- `r.pools[addr]`, made by `newPool` if it is missing; `flavor` is what `Flavor()` returns. -/
def ensure (r : Registry) (flavor : Flavor) (addr : Addr) (replica : Bool) : Registry :=
  if addr ∈ r.pools.map NodePool.addr then r
  else { r with
    pools := { id := r.made, addr, readOnly := replica && flavor = .redis } :: r.pools
    made := r.made + 1 }

/-- Closes and deletes the pools of other addresses. -/
def retain (r : Registry) (live : List Addr) : Registry :=
  { r with
    pools := r.pools.filter fun p => p.addr ∈ live
    closed := r.pools.filter (fun p => !decide (p.addr ∈ live)) ++ r.closed }

variable (cfg : Config)

/-- `syncPools`. -/
def syncPools (r : Registry) (nodes : List Node) (flavor : Flavor) : Registry :=
  (nodes.foldl (fun r n => r.ensure flavor (rewriteAddr cfg n.addr)
    (!n.master && cfg.readFromReplicas)) r).retain (nodes.map fun n => rewriteAddr cfg n.addr)

/-- A call, with what `Flavor()` returns in it. -/
inductive PoolCall where
  | poolFor (addr : Addr) (replica : Bool) (flavor : Flavor)
  | syncPools (nodes : List Node) (flavor : Flavor)
  | close

def next (r : Registry) : PoolCall → Option Registry
  | .poolFor addr replica flavor => some (r.ensure flavor (rewriteAddr cfg addr) replica)
  | .syncPools nodes flavor => some (r.syncPools cfg nodes flavor)
  | .close => some (r.retain [])

/-- Addresses have one pool, and pools are in the map or closed. -/
structure Inv (r : Registry) : Prop where
  addrs : (r.pools.map NodePool.addr).Nodup
  ids : ((r.pools ++ r.closed).map NodePool.id).Perm (List.range r.made)

variable {cfg} {r : Registry}

theorem Inv.ensure (h : r.Inv) (flavor : Flavor) (addr : Addr) (replica : Bool) :
    (r.ensure flavor addr replica).Inv := by
  unfold Registry.ensure
  split
  · exact h
  · next hnew =>
    refine ⟨List.nodup_cons.2 ⟨hnew, h.addrs⟩, ?_⟩
    rw [List.range_succ]
    exact (h.ids.cons r.made).trans (List.perm_append_singleton _ _).symm

theorem Inv.retain (h : r.Inv) (live : List Addr) : (r.retain live).Inv := by
  refine ⟨(List.filter_sublist.map _).nodup h.addrs, List.Perm.trans (List.Perm.map _ ?_) h.ids⟩
  show List.Perm (_ ++ (_ ++ _)) _
  rw [← List.append_assoc]
  exact (List.filter_append_perm _ _).append_right _

theorem Inv.next {r' : Registry} {l : PoolCall} (h : r.Inv) (hnext : r.next cfg l = some r') :
    r'.Inv := by
  cases l with
  | poolFor =>
    cases hnext
    exact h.ensure _ _ _
  | syncPools nodes flavor =>
    cases hnext
    refine Inv.retain ?_ _
    induction nodes generalizing r with
    | nil => exact h
    | cons n nodes ih => exact ih (h.ensure _ _ _)
  | close =>
    cases hnext
    exact h.retain _

/-- The loop over the nodes: no pool is replaced, and all nodes have one. -/
theorem foldl_ensure {α : Type} (flavor : Flavor) (addr : α → Addr) (replica : α → Bool)
    (ns : List α) (r : Registry) :
    let r' := ns.foldl (fun r n => r.ensure flavor (addr n) (replica n)) r
    r.pools <:+ r'.pools ∧ ∀ n ∈ ns, addr n ∈ r'.pools.map NodePool.addr := by
  induction ns generalizing r with
  | nil => exact ⟨List.suffix_rfl, by simp⟩
  | cons n ns ih =>
    obtain ⟨hkept, hall⟩ := ih (r.ensure flavor (addr n) (replica n))
    have hn : r.pools <:+ (r.ensure flavor (addr n) (replica n)).pools ∧
        addr n ∈ (r.ensure flavor (addr n) (replica n)).pools.map NodePool.addr := by
      unfold ensure
      split
      · exact ⟨List.suffix_rfl, ‹_›⟩
      · exact ⟨List.suffix_cons _ _, List.mem_cons_self⟩
    refine ⟨hn.1.trans hkept, fun m hm => ?_⟩
    rcases List.mem_cons.1 hm with rfl | hm
    · exact (hkept.map _).subset hn.2
    · exact hall m hm

/-- **Every pool is in the map or closed, and addresses have one pool at most**, whatever
calls were made. Behind a `syncPools` there are pools for the addresses of the nodes and no
others, and the pools these had are still there. -/
theorem pools_accounted {tr : List PoolCall} (h : Machine.exec (Registry.next cfg) {} tr = some r) :
    (r.pools.map NodePool.addr).Nodup ∧
      ((r.pools ++ r.closed).map NodePool.id).Perm (List.range r.made) ∧
      ∀ nodes flavor, let r' := r.syncPools cfg nodes flavor
        (∀ addr, addr ∈ r'.pools.map NodePool.addr ↔ ∃ n ∈ nodes, rewriteAddr cfg n.addr = addr) ∧
        ∀ p ∈ r.pools, (∃ n ∈ nodes, rewriteAddr cfg n.addr = p.addr) → p ∈ r'.pools := by
  have hinv : r.Inv := by
    refine Machine.invariant (I := fun _ r => Inv r) ?_ (fun _ _ _ _ _ hI hnext => hI.next hnext) h
    exact ⟨List.nodup_nil, .refl _⟩
  refine ⟨hinv.addrs, hinv.ids, fun nodes flavor => ?_⟩
  obtain ⟨hkept, hall⟩ := foldl_ensure flavor (fun n : Node => rewriteAddr cfg n.addr)
    (fun n => !n.master && cfg.readFromReplicas) nodes r
  refine ⟨fun addr => ⟨fun ha => ?_, ?_⟩, fun p hp hlive => ?_⟩
  · obtain ⟨p, hp, rfl⟩ := List.mem_map.1 ha
    simpa using (List.mem_filter.1 hp).2
  · rintro ⟨n, hn, rfl⟩
    obtain ⟨p, hp, hpn⟩ := List.mem_map.1 (hall n hn)
    exact List.mem_map.2 ⟨p, List.mem_filter.2 ⟨hp, by simpa [hpn] using ⟨n, hn, rfl⟩⟩, hpn⟩
  · exact List.mem_filter.2 ⟨hkept.subset hp, by simpa using hlive⟩

/-- A session asks for a seed that the refreshed topology does not have. -/
theorem pools_accounted_seed : ∃ r : Registry,
    Machine.exec (Registry.next {}) {} [.poolFor "a" false .redis,
      .syncPools [{ addr := "b" }] .redis] = some r ∧ r.closed.length = 1 ∧
      ((r.pools ++ r.closed).map NodePool.id).Perm (List.range r.made) := by
  have hrun : Machine.exec (Registry.next {}) {} [.poolFor "a" false .redis,
    .syncPools [{ addr := "b" }] .redis] = some _ := rfl
  exact ⟨_, hrun, rfl, (pools_accounted hrun).2.1⟩

end Registry

end RespProxy.Cluster
