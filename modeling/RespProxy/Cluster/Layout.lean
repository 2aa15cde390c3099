import Mathlib.Data.List.Pairwise
import Mathlib.Data.List.Permutation
import RespProxy.Cluster.Masters

/-! # The two topology replies of one cluster

A cluster layout, the `CLUSTER SHARDS` and `CLUSTER SLOTS` replies a server
gives for it, and what the two parsers make of them. The fields of a node in a
`CLUSTER SHARDS` reply come in an order the server chooses, and `parseShardNode`
puts the address together while it goes through them.

* `parseShardNode_eq`: what becomes of a node, for every order of its fields;
* `shardsReply_owner`, `slotsReply_owner`: whom the parsed topologies name as
  the owner of a slot;
* `replies_agree_iff`: both name the master of the slot exactly if the masters
  with slots have a host without colon and their `endpoint` field stands ahead
  of their `port` field.
-/

namespace RespProxy.Cluster

open Resp

variable {L : Layout} {l : List ((Nat × Nat) × Addr)} {f : ShardInfo → Option Addr}
variable {K : String → Prop} {t : Topology}
variable {x : NodeInfo} {b : Bytes} {i : Nat}

variable {xs : List NodeInfo} {n e : Node} {s : Nat}

/-! ## Layouts -/

/-- The fields of a node in a `CLUSTER SHARDS` reply. -/
inductive Field where
  | id | port | ip | endpoint | role | offset | health
deriving DecidableEq, Repr

def Field.all : List Field := [.id, .port, .ip, .endpoint, .role, .offset, .health]

def Field.key : Field → Value
  | .id => bulkString (arg "id")
  | .port => bulkString (arg "port")
  | .ip => bulkString (arg "ip")
  | .endpoint => bulkString (arg "endpoint")
  | .role => bulkString (arg "role")
  | .offset => bulkString (arg "replication-offset")
  | .health => bulkString (arg "health")

def colon : UInt8 := 58

/-- A node of the cluster, with the order in which its fields are listed. The
host is an IPv4 address or a name, which have no colon, or an IPv6 address,
which has at least two. -/
structure NodeInfo where
  id : Bytes
  host : Bytes
  port : Int
  master : Bool
  health : Bytes
  offset : Int
  order : List Field
  port_pos : 0 < port
  host_form : host ≠ [] ∧ host.count colon = 0 ∨ 2 ≤ host.count colon
  order_perm : order.Perm Field.all

/-- `host:port`. -/
def NodeInfo.address (x : NodeInfo) : Addr := joinPort (str x.host) x.port

def NodeInfo.roleName (x : NodeInfo) : String := if x.master then "master" else "replica"

def NodeInfo.field (x : NodeInfo) : Field → Value
  | .id => bulkString (.mk x.id)
  | .port => integer x.port
  | .ip => bulkString (.mk x.host)
  | .endpoint => bulkString (.mk x.host)
  | .role => bulkString (arg x.roleName)
  | .offset => integer x.offset
  | .health => bulkString (.mk x.health)

/-- The node in a `CLUSTER SHARDS` reply: its fields, flat. -/
def NodeInfo.shardsValue (x : NodeInfo) : Value :=
  array (x.order.flatMap fun f => [f.key, x.field f])

/-- The node in a `CLUSTER SLOTS` reply. -/
def NodeInfo.slotsValue (x : NodeInfo) : Value :=
  array [bulkString (.mk x.host), integer x.port, bulkString (.mk x.id)]

/-- A shard: its slot ranges, its master, and the replicas listed before and
after the master. -/
structure ShardInfo where
  ranges : List (Nat × Nat)
  before : List NodeInfo
  master : NodeInfo
  after : List NodeInfo
  slotsFirst : Bool
  in_range : ∀ r ∈ ranges, r.1 ≤ r.2 ∧ r.2 < slotCount
  master_role : master.master = true ∧ master.health = lit "online"
  replica_role : ∀ x ∈ before ++ after, x.master = false

def ShardInfo.nodes (sh : ShardInfo) : List NodeInfo := sh.before ++ sh.master :: sh.after

def ShardInfo.shardsValue (sh : ShardInfo) : Value :=
  let slots := [bulkString (arg "slots"),
    array (sh.ranges.flatMap fun r => [integer r.1, integer r.2])]
  let nodes := [bulkString (arg "nodes"), array (sh.nodes.map NodeInfo.shardsValue)]
  array (if sh.slotsFirst then slots ++ nodes else nodes ++ slots)

/-- Two ranges without a common slot. -/
def Apart (a b : Nat × Nat) : Prop := a.2 < b.1 ∨ b.2 < a.1

/-- A cluster: shards with disjoint ranges, nodes with their own ids and addresses. -/
structure Layout where
  shards : List ShardInfo
  disjoint : (shards.flatMap ShardInfo.ranges).Pairwise Apart
  ids : ((shards.flatMap ShardInfo.nodes).map NodeInfo.id).Nodup
  addresses : ((shards.flatMap ShardInfo.nodes).map NodeInfo.address).Nodup

def Layout.nodes (L : Layout) : List NodeInfo := L.shards.flatMap ShardInfo.nodes

/-- The `CLUSTER SHARDS` reply. -/
def Layout.shardsReply (L : Layout) : Value := array (L.shards.map ShardInfo.shardsValue)

/-- The entries of a `CLUSTER SLOTS` reply, one for each range. -/
def Layout.entries (L : Layout) : List ((Nat × Nat) × ShardInfo) :=
  L.shards.flatMap fun sh => sh.ranges.map fun r => (r, sh)

def entryValue (e : (Nat × Nat) × ShardInfo) : Value :=
  array (integer e.1.1 :: integer e.1.2 ::
    (e.2.master :: (e.2.before ++ e.2.after)).map NodeInfo.slotsValue)

/-- A `CLUSTER SLOTS` reply with these entries. -/
def slotsReply (es : List ((Nat × Nat) × ShardInfo)) : Value := array (es.map entryValue)

/-- The slot lies in the range. -/
def Within (s : Nat) (r : Nat × Nat) : Prop := r.1 ≤ s ∧ s ≤ r.2

instance (s : Nat) (r : Nat × Nat) : Decidable (Within s r) := inferInstanceAs (Decidable (_ ∧ _))

/-- Every slot is answered with the master whose range it lies in, or with
nothing if it lies in none. -/
structure Layout.Serves (L : Layout) (own : Nat → Option Addr) : Prop where
  covered : ∀ sh ∈ L.shards, ∀ r ∈ sh.ranges, ∀ s, Within s r → own s = some sh.master.address
  uncovered : ∀ s < slotCount, (∀ sh ∈ L.shards, ∀ r ∈ sh.ranges, ¬ Within s r) → own s = none

/-! ## One node -/

/-- The code point of the character for a byte. -/
theorem toNat_ofNat_byte (b : UInt8) : (Char.ofNat b.toNat).toNat = b.toNat := by
  have hb : b.toNat.isValidChar := .inl (Nat.lt_trans (UInt8.toNat_lt b) (by decide))
  rw [Char.ofNat, dif_pos hb]
  rfl

theorem ofNat_byte_inj {b c : UInt8} (h : Char.ofNat b.toNat = Char.ofNat c.toNat) : b = c := by
  have h' := congrArg Char.toNat h
  rw [toNat_ofNat_byte, toNat_ofNat_byte] at h'
  exact UInt8.toNat_inj.1 h'

theorem str_injective : Function.Injective str := by
  intro a b h
  have hmap : a.map (fun c => Char.ofNat c.toNat) = b.map fun c => Char.ofNat c.toNat := by
    simpa [str] using congrArg String.toList h
  exact List.map_injective_iff.2 (fun _ _ => ofNat_byte_inj) hmap

theorem str_eq_empty : str b = "" ↔ b = [] := by
  constructor
  · exact fun h => str_injective h
  · rintro rfl
    rfl

theorem colon_mem_str : ':' ∈ (str b).toList ↔ colon ∈ b := by
  have htext : (str b).toList = b.map fun c => Char.ofNat c.toNat := by simp [str]
  rw [htext, List.mem_map]
  constructor
  · rintro ⟨c, hc, heq⟩
    obtain rfl : c = colon := ofNat_byte_inj heq
    exact hc
  · exact fun h => ⟨colon, h, rfl⟩

/-- The two fields that decide on the address, in this order. -/
def NodeInfo.EndpointFirst (x : NodeInfo) : Prop :=
  x.order.filter (fun f => f = .endpoint ∨ f = .port) = [.endpoint, .port]

instance (x : NodeInfo) : Decidable x.EndpointFirst := inferInstanceAs (Decidable (_ = _))

/-- The address `parseShardNode` puts together. -/
def NodeInfo.shardAddr (x : NodeInfo) : Option Addr :=
  if colon ∈ x.host then some (str x.host)
  else if x.EndpointFirst then some x.address
  else none

/-- The record of a node that was listed with this address. -/
def NodeInfo.record (x : NodeInfo) (addr : Addr) : Node :=
  { id := str x.id, addr, role := x.roleName, health := parseHealth x.health, master := x.master }

theorem pairs_flatMap {α : Type} (l : List α) (k v : α → Value) :
    pairs (l.flatMap fun a => [k a, v a]) = l.map fun a => (k a, v a) := by
  induction l with
  | nil => rfl
  | cons a l ih => simp [pairs, ih]

/-- One field of a node, in the order of the reply. -/
def NodeInfo.step (x : NodeInfo) (n : Node) (f : Field) : Node := shardField n (f.key, x.field f)

theorem NodeInfo.host_ne_nil (x : NodeInfo) : x.host ≠ [] := by
  intro h
  have := x.host_form
  rw [h] at this
  simp at this

/-- The role a node is listed with is read back. -/
theorem NodeInfo.role_eq (x : NodeInfo) :
    str (toLower (bulkString (arg x.roleName)).str.bytes) = x.roleName ∧
      decide (str (toLower (bulkString (arg x.roleName)).str.bytes) = "master") = x.master := by
  unfold NodeInfo.roleName
  cases x.master <;> decide

/-! ### Any order of the fields -/

/-- A fold that only looks at some items is the fold over these items. -/
theorem foldl_filter_of_ignored {α β : Type} (g : β → α → β) (p : α → Bool)
    (hg : ∀ b a, p a = false → g b a = b) (l : List α) (b : β) :
    l.foldl g b = (l.filter p).foldl g b := by
  induction l generalizing b with
  | nil => rfl
  | cons a l ih =>
    cases ha : p a with
    | true => rw [List.filter_cons_of_pos ha, List.foldl_cons, List.foldl_cons, ih]
    | false => rw [List.filter_cons_of_neg (by simp [ha]), List.foldl_cons, hg b a ha, ih]

/-- A part of the record that one field sets has the value of that field,
wherever the field stands. -/
theorem NodeInfo.fold_part (x : NodeInfo) {β : Type} (part : Node → β) (f : Field) (b : β)
    (hset : ∀ n, part (x.step n f) = b) (hkeep : ∀ n g, g ≠ f → part (x.step n g) = part n)
    (n : Node) : part (x.order.foldl x.step n) = b := by
  have hcount : f ∈ x.order := (x.order_perm.mem_iff).2 (by cases f <;> decide)
  have key : ∀ (l : List Field) (n : Node), f ∈ l ∨ part n = b → part (l.foldl x.step n) = b := by
    intro l
    induction l with
    | nil =>
      rintro n (h | h)
      · cases h
      · exact h
    | cons g l ih =>
      intro n h
      rw [List.foldl_cons]
      refine ih _ ?_
      by_cases hg : g = f
      · subst hg
        exact .inr (hset n)
      · rcases h with h | h
        · exact .inl ((List.mem_cons.1 h).resolve_left (Ne.symm hg))
        · exact .inr ((hkeep n g hg).trans h)
  exact key x.order n (.inl hcount)

/-- What a field makes of the address. -/
def NodeInfo.addrStep (x : NodeInfo) (a : Addr) : Field → Addr
  | .port => if a ≠ "" ∧ ':' ∉ a.toList then joinPort a x.port else a
  | .ip => if a = "" then str x.host else a
  | .endpoint => str x.host
  | _ => a

/-- A field of the reply sets its own part of the record. -/
theorem NodeInfo.step_eq (x : NodeInfo) (n : Node) (f : Field) :
    x.step n f =
      { id := if f = .id then str x.id else n.id
        addr := x.addrStep n.addr f
        role := if f = .role then x.roleName else n.role
        health := if f = .health then parseHealth x.health else n.health
        master := if f = .role then x.master else n.master } := by
  have hhost : str x.host ≠ "" := fun h => x.host_ne_nil (str_eq_empty.1 h)
  unfold NodeInfo.step shardField
  cases f with
  | id | offset | health => rfl
  | port =>
    show (if n.addr ≠ "" ∧ ':' ∉ n.addr.toList then _ else _) = _
    rw [NodeInfo.addrStep]
    split <;> rfl
  | ip =>
    show (if (n.addr = "" ∨ lit "ip" = lit "endpoint") ∧ str x.host ≠ "" then _ else _) = _
    rw [NodeInfo.addrStep, if_congr (and_iff_left hhost) rfl rfl,
      if_congr (or_iff_left (by decide)) rfl rfl]
    split <;> rfl
  | endpoint =>
    show (if (n.addr = "" ∨ lit "endpoint" = lit "endpoint") ∧ str x.host ≠ "" then _ else _) = _
    exact if_pos ⟨.inr rfl, hhost⟩
  | role =>
    show ({ n with role := _, master := _ } : Node) = _
    rw [show x.field .role = bulkString (arg x.roleName) from rfl, x.role_eq.2, x.role_eq.1]
    rfl

/-- The three fields that matter for the address. -/
def Field.ofAddr (f : Field) : Bool := decide (f = .ip ∨ f = .endpoint ∨ f = .port)

/-- The address after all fields: the host alone if it has a colon or the port
came too early. -/
theorem NodeInfo.fold_addr (x : NodeInfo) (n : Node) (hn : n.addr = "") :
    (x.order.foldl x.step n).addr =
      if colon ∉ x.host ∧ x.EndpointFirst then x.address else str x.host := by
  have hhost : str x.host ≠ "" := fun h => x.host_ne_nil (str_eq_empty.1 h)
  have hfold : (x.order.foldl x.step n).addr = x.order.foldl x.addrStep n.addr :=
    (List.foldl_hom Node.addr fun n f => congrArg Node.addr (x.step_eq n f).symm).symm
  have hperm : (x.order.filter Field.ofAddr).Perm [.port, .ip, .endpoint] := x.order_perm.filter _
  have hsub : x.order.filter (fun f => f = .endpoint ∨ f = .port) =
      (x.order.filter Field.ofAddr).filter (fun f => f = .endpoint ∨ f = .port) := by
    rw [List.filter_filter]
    refine List.filter_congr fun f _ => ?_
    cases f <;> rfl
  have hfirst : x.EndpointFirst ↔ (x.order.filter Field.ofAddr).filter
      (fun f => f = .endpoint ∨ f = .port) = [.endpoint, .port] := by rw [← hsub]; rfl
  have hjoin : joinPort (str x.host) x.port ≠ "" := by
    intro h
    have := congrArg String.length h
    simp [joinPort] at this
  have hmem := List.mem_permutations'.2 hperm
  rw [show List.permutations' [Field.port, .ip, .endpoint] =
    [[.port, .ip, .endpoint], [.ip, .port, .endpoint], [.ip, .endpoint, .port],
      [.port, .endpoint, .ip], [.endpoint, .port, .ip], [.endpoint, .ip, .port]] from rfl] at hmem
  rw [hfold, foldl_filter_of_ignored x.addrStep Field.ofAddr, hn]
  · generalize x.order.filter Field.ofAddr = l at hfirst hmem ⊢
    -- the six orders of the three fields
    simp only [List.mem_cons, List.not_mem_nil, or_false] at hmem
    rcases hmem with rfl | rfl | rfl | rfl | rfl | rfl <;> by_cases hc : colon ∈ x.host <;>
      simp [hfirst, NodeInfo.addrStep, NodeInfo.address, hhost, hjoin, colon_mem_str, hc]
  · intro a f hf
    cases f <;> first | rfl | exact absurd hf (by decide)

theorem NodeInfo.fold_record (x : NodeInfo) :
    x.order.foldl x.step { health := .online } =
      x.record (if colon ∉ x.host ∧ x.EndpointFirst then x.address else str x.host) := by
  have haddr := x.fold_addr { health := .online } rfl
  have hid := x.fold_part Node.id .id (str x.id)
    (fun n => by simp [x.step_eq]) (fun n g hg => by simp [x.step_eq, hg])
    { health := .online }
  have hrole := x.fold_part Node.role .role x.roleName
    (fun n => by simp [x.step_eq]) (fun n g hg => by simp [x.step_eq, hg])
    { health := .online }
  have hmaster := x.fold_part Node.master .role x.master
    (fun n => by simp [x.step_eq]) (fun n g hg => by simp [x.step_eq, hg])
    { health := .online }
  have hhealth := x.fold_part Node.health .health (parseHealth x.health)
    (fun n => by simp [x.step_eq]) (fun n g hg => by simp [x.step_eq, hg])
    { health := .online }
  generalize x.order.foldl x.step { health := .online } = n at *
  obtain ⟨id, addr, role, health, master⟩ := n
  cases hrole
  cases hmaster
  cases hid
  cases hhealth
  cases haddr
  rfl

/-- **What `parseShardNode` makes of a node**, for every order of its fields. -/
theorem parseShardNode_eq (x : NodeInfo) :
    parseShardNode x.shardsValue = x.shardAddr.map x.record := by
  have hhost : str x.host ≠ "" := fun h => x.host_ne_nil (str_eq_empty.1 h)
  have hfold : (pairs x.shardsValue.values).foldl shardField { health := .online } =
      x.order.foldl x.step { health := .online } := by
    rw [NodeInfo.shardsValue, array, pairs_flatMap, List.foldl_map]
    rfl
  unfold parseShardNode
  rw [if_neg (by simp [NodeInfo.shardsValue, array]), hfold, x.fold_record]
  dsimp only [NodeInfo.record]
  unfold NodeInfo.shardAddr
  generalize ha : (if colon ∉ x.host ∧ x.EndpointFirst then x.address else str x.host) = a
  by_cases hc : colon ∈ x.host
  · obtain rfl : str x.host = a := by simpa [hc] using ha
    rw [if_pos hc]
    exact if_neg (fun h => h.elim hhost fun h => h (colon_mem_str.2 hc))
  · rw [if_neg hc]
    by_cases he : x.EndpointFirst
    · obtain rfl : x.address = a := by simpa [hc, he] using ha
      have hmem : ':' ∈ x.address.toList := by simp [NodeInfo.address, joinPort]
      rw [if_pos he]
      exact if_neg (fun h => h.elim (fun h => by simp [h] at hmem) fun h => h hmem)
    · obtain rfl : str x.host = a := by simpa [hc, he] using ha
      rw [if_neg he]
      exact if_pos (.inr fun h => hc (colon_mem_str.1 h))

/-- What `parseSlotsNode` makes of it. -/
theorem parseSlotsNode_eq (x : NodeInfo) :
    parseSlotsNode x.slotsValue =
      some { id := str x.id, addr := x.address, health := .online } := by
  have hport : ¬ x.port ≤ 0 := Int.not_le.2 x.port_pos
  simp [parseSlotsNode, NodeInfo.slotsValue, array, bulkString, integer, portOf, x.host_ne_nil,
    hport, NodeInfo.address]

/-! ## Slots and owners -/

/-- Ranges with the address they went to, the last one in front. -/
def ownIn (l : List ((Nat × Nat) × Addr)) (s : Nat) : Option Addr :=
  (l.find? fun x => Within s x.1).map Prod.snd

/-- The slots of the topology are assigned as in the list. -/
def Topology.Assigned (t : Topology) (l : List ((Nat × Nat) × Addr)) : Prop :=
  ∀ s, (ownIn l s = none ∧ t.slots s = -1) ∨
    ∃ (i : Nat) (n : Node), t.slots s = i ∧ t.nodes[i]? = some n ∧ ownIn l s = some n.addr

theorem newEmptyTopology_assigned : newEmptyTopology.Assigned [] := fun _ => .inl ⟨rfl, rfl⟩

theorem Topology.Assigned.ownerOf (h : t.Assigned l) (hs : s < slotCount) :
    Cluster.ownerOf (some t) s = ownIn l s := by
  rcases h s with ⟨hown, hslot⟩ | ⟨i, n, hslot, hn, hown⟩
  · simp [Cluster.ownerOf, Topology.nodeForSlot, hslot, hown]
  · simp [Cluster.ownerOf, Topology.nodeForSlot, hslot, hn, hown, Nat.not_le.2 hs]

/-- The slots and the addresses of the recorded nodes stay. -/
def Topology.Extends (t t' : Topology) : Prop :=
  t'.slots = t.slots ∧ ∀ (i : Nat) (n : Node), t.nodes[i]? = some n →
    ∃ n', t'.nodes[i]? = some n' ∧ n'.addr = n.addr

theorem Topology.Extends.trans {t' t'' : Topology} (h : t.Extends t') (h' : t'.Extends t'') :
    t.Extends t'' := by
  refine ⟨h'.1.trans h.1, fun i n hn => ?_⟩
  obtain ⟨n', hn', haddr⟩ := h.2 i n hn
  obtain ⟨n'', hn'', haddr'⟩ := h'.2 i n' hn'
  exact ⟨n'', hn'', haddr'.trans haddr⟩

theorem Topology.Assigned.extend {t' : Topology}
    (h : t.Assigned l) (hext : t.Extends t') : t'.Assigned l := by
  intro s
  rcases h s with ⟨hown, hslot⟩ | ⟨i, n, hslot, hn, hown⟩
  · exact .inl ⟨hown, by rw [hext.1, hslot]⟩
  · obtain ⟨n', hn', haddr⟩ := hext.2 i n hn
    exact .inr ⟨i, n', by rw [hext.1, hslot], hn', by rw [haddr, hown]⟩

theorem upsertNode_extends (t : Topology) (e : Node) : t.Extends (t.upsertNode e).1 := by
  rcases upsertNode_cases t e with ⟨i, n, hn, -, heq⟩ | ⟨-, heq⟩
  · rw [heq]
    refine ⟨rfl, fun j x hx => ?_⟩
    by_cases hij : i = j
    · subst hij
      exact ⟨x.renew e, by simp [hx], rfl⟩
    · exact ⟨x, by simp [hij, hx], rfl⟩
  · rw [heq]
    exact ⟨rfl, fun j x hx => ⟨x, getElem?_append_new.2 (.inl hx), rfl⟩⟩

theorem Topology.Assigned.setRange (h : t.Assigned l) (r : Nat × Nat) (hn : t.nodes[i]? = some n) :
    ∃ t', t.setRange r.1 r.2 i = some t' ∧ t'.nodes = t.nodes ∧ t'.Assigned ((r, n.addr) :: l) := by
  unfold Topology.setRange
  rw [if_neg (fun hc => Int.not_lt.2 (Int.natCast_nonneg r.1) hc.1)]
  refine ⟨_, rfl, rfl, fun s => ?_⟩
  have hw : Within s r ↔ ((r.1 : Int) ≤ s ∧ (s : Int) ≤ r.2) := by
    simp only [Within]
    omega
  dsimp only
  by_cases hs : Within s r
  · rw [if_pos (hw.1 hs)]
    exact .inr ⟨i, n, rfl, hn, by simp [ownIn, hs]⟩
  · rw [if_neg (fun hc => hs (hw.2 hc))]
    have hown : ownIn ((r, n.addr) :: l) s = ownIn l s := by simp [ownIn, hs]
    rw [hown]
    exact h s

/-! ### Ranges of a layout -/

/-- The ranges of the shards for which `f` names an address. -/
def Layout.assign (L : Layout) (f : ShardInfo → Option Addr) : List ((Nat × Nat) × Addr) :=
  L.shards.flatMap fun sh => ((f sh).map fun a => sh.ranges.map fun r => (r, a)).getD []

theorem Layout.mem_assign {x : (Nat × Nat) × Addr} :
    x ∈ L.assign f ↔ ∃ sh ∈ L.shards, f sh = some x.2 ∧ x.1 ∈ sh.ranges := by
  simp only [Layout.assign, List.mem_flatMap]
  refine exists_congr fun sh => and_congr_right fun _ => ?_
  cases f sh with
  | none => simp
  | some a =>
    simp only [Option.map_some, Option.getD_some, List.mem_map, Option.some.injEq]
    constructor
    · rintro ⟨r, hr, rfl⟩
      exact ⟨rfl, hr⟩
    · rintro ⟨rfl, hr⟩
      exact ⟨x.1, hr, rfl⟩

/-- A slot lies in the ranges of one shard only. -/
theorem Layout.shard_unique (L : Layout) {sh sh' : ShardInfo} (h : sh ∈ L.shards)
    (h' : sh' ∈ L.shards) {r r' : Nat × Nat} (hr : r ∈ sh.ranges) (hr' : r' ∈ sh'.ranges)
    (hs : Within s r) (hs' : Within s r') : sh = sh' := by
  by_contra hne
  have : Std.Symm fun a b : ShardInfo => ∀ x ∈ a.ranges, ∀ y ∈ b.ranges, Apart x y :=
    ⟨fun a b hab x hx y hy => (hab y hy x hx).symm⟩
  have hapart := (List.pairwise_flatMap.1 L.disjoint).2.forall h h' hne
  rcases hapart r hr r' hr' with hlt | hlt <;> simp only [Within] at hs hs' <;> omega

/-- Ranges that were assigned in any order: every slot belongs to its shard. -/
theorem Layout.ownIn_eq (L : Layout) (hl : ∀ x, x ∈ l ↔ x ∈ L.assign f) (s : Nat) :
    (∀ sh ∈ L.shards, ∀ r ∈ sh.ranges, Within s r → ownIn l s = f sh) ∧
      ((∀ sh ∈ L.shards, ∀ r ∈ sh.ranges, ¬ Within s r) → ownIn l s = none) := by
  unfold ownIn
  cases hfind : l.find? fun x => Within s x.1 with
  | none =>
    have hout : ∀ x ∈ l, ¬ Within s x.1 := by simpa using hfind
    refine ⟨fun sh hsh r hr hs => ?_, fun _ => rfl⟩
    cases hf : f sh with
    | none => rfl
    | some a => exact absurd hs (hout (r, a) ((hl _).2 (Layout.mem_assign.2 ⟨sh, hsh, hf, hr⟩)))
  | some x =>
    have hs' : Within s x.1 := by simpa using List.find?_some hfind
    obtain ⟨sh', hsh', hf, hr'⟩ := Layout.mem_assign.1 ((hl x).1 (List.mem_of_find?_eq_some hfind))
    refine ⟨fun sh hsh r hr hs => ?_, fun hun => absurd hs' (hun sh' hsh' x.1 hr')⟩
    rw [L.shard_unique hsh hsh' hr hr' hs hs', hf]
    rfl

/-! ## `ParseShards` -/

/-- One step of the loop over the nodes of a shard. -/
def recordNode (acc : Topology × Option Nat) (n : Node) : Topology × Option Nat :=
  let (t, idx) := acc.1.upsertNode n
  (t, if n.master then some idx else acc.2)

/-- The ids of the recorded nodes are among these. -/
def Topology.Known (t : Topology) (K : String → Prop) : Prop := ∀ n ∈ t.nodes, n.id ≠ "" → K n.id

theorem Topology.Known.upsert (h : t.Known K) (he : K e.id) : (t.upsertNode e).1.Known K := by
  refine upsertNode_forall h (fun n hn _ hne => ?_) fun _ => he
  by_cases hid : e.id ≠ ""
  · simpa [Node.renew, hid] using he
  · simp only [Node.renew, if_neg hid] at hne ⊢
    exact h n hn hne

/-- A node with a new id is recorded under its own address. -/
theorem Topology.Known.upsert_addr (h : t.Known K) (he : ¬ K e.id) :
    ∃ n, (t.upsertNode e).1.nodes[(t.upsertNode e).2]? = some n ∧ n.addr = e.addr := by
  rcases upsertNode_cases t e with ⟨i, n, hn, hat, heq⟩ | ⟨-, heq⟩
  · rw [heq]
    refine ⟨n.renew e, by simp [hn], ?_⟩
    rcases hat with ⟨-, haddr⟩ | ⟨hne, hid⟩
    · exact haddr
    · exact absurd (h n (List.mem_of_getElem? hn) (hid ▸ hne)) (hid ▸ he)
  · rw [heq]
    exact ⟨e, by simp, rfl⟩

/-- Replicas are recorded without a word about the master. -/
theorem recordNode_replicas (rs : List Node) (hr : ∀ e ∈ rs, e.master = false)
    (hK : ∀ e ∈ rs, K e.id) {acc : Topology × Option Nat} (h : acc.1.Known K) :
    acc.1.Extends (rs.foldl recordNode acc).1 ∧ (rs.foldl recordNode acc).1.Known K ∧
      (rs.foldl recordNode acc).2 = acc.2 := by
  induction rs generalizing acc with
  | nil => exact ⟨⟨rfl, fun i n hn => ⟨n, hn, rfl⟩⟩, h, rfl⟩
  | cons e rs ih =>
    obtain ⟨hext, hknown, hmaster⟩ := @ih (fun x hx => hr x (List.mem_cons_of_mem _ hx))
      (fun x hx => hK x (List.mem_cons_of_mem _ hx)) (recordNode acc e)
      (h.upsert (hK e List.mem_cons_self))
    refine ⟨(upsertNode_extends acc.1 e).trans hext, hknown, hmaster.trans ?_⟩
    exact if_neg (by rw [hr e List.mem_cons_self]; decide)

/-- The visible records of some nodes. -/
def visible (xs : List NodeInfo) : List Node :=
  (xs.filterMap fun x => x.shardAddr.map x.record).filter fun n => decide (n.health ≠ .hidden)

theorem visible_append (xs ys : List NodeInfo) : visible (xs ++ ys) = visible xs ++ visible ys := by
  simp [visible]

theorem mem_visible (h : e ∈ visible xs) :
    ∃ x ∈ xs, e.id = str x.id ∧ e.master = x.master := by
  obtain ⟨h, -⟩ := List.mem_filter.1 h
  obtain ⟨x, hx, heq⟩ := List.mem_filterMap.1 h
  obtain ⟨a, -, rfl⟩ := Option.map_eq_some_iff.1 heq
  exact ⟨x, hx, rfl, rfl⟩

/-- The master is never hidden. -/
theorem visible_master (sh : ShardInfo) :
    visible [sh.master] = (sh.master.shardAddr.map sh.master.record).toList := by
  have hh : parseHealth sh.master.health = .online := by
    rw [sh.master_role.2]
    decide
  cases h : sh.master.shardAddr with
  | none => simp [visible, h]
  | some a => simp [visible, h, NodeInfo.record, hh]

theorem shard_parts (sh : ShardInfo) :
    shardNodes sh.shardsValue = sh.nodes.filterMap (fun x => x.shardAddr.map x.record) ∧
      shardRanges sh.shardsValue = sh.ranges.map fun r => ((r.1 : Int), (r.2 : Int)) := by
  have hslots : toLower (bulkString (arg "slots")).str.bytes = lit "slots" := by decide
  have hnodes : toLower (bulkString (arg "nodes")).str.bytes = lit "nodes" := by decide
  have hne : lit "slots" ≠ lit "nodes" := by decide
  have hrange : (pairs (sh.ranges.flatMap fun r => [integer r.1, integer r.2])).map
      (fun r => (r.1.int, r.2.int)) = sh.ranges.map fun r => ((r.1 : Int), (r.2 : Int)) := by
    rw [pairs_flatMap, List.map_map]
    rfl
  have hparse : (sh.nodes.map NodeInfo.shardsValue).filterMap parseShardNode =
      sh.nodes.filterMap fun x => x.shardAddr.map x.record := by
    rw [List.filterMap_map]
    exact List.filterMap_congr fun x _ => parseShardNode_eq x
  unfold shardNodes shardRanges ShardInfo.shardsValue
  cases sh.slotsFirst <;>
    simp [array, pairs, hslots, hnodes, hne, hne.symm, hparse, hrange]

/-- The ranges of a shard, with the address its master was recorded under. -/
def ShardInfo.assigned (sh : ShardInfo) : List ((Nat × Nat) × Addr) :=
  (sh.master.shardAddr.map fun a => sh.ranges.map fun r => (r, a)).getD []

theorem setRanges_assigned (h : t.Assigned l) (hn : t.nodes[i]? = some n) (rs : List (Nat × Nat)) :
    ∃ t', (rs.map fun r => ((r.1 : Int), (r.2 : Int))).foldlM
        (fun t r => t.setRange r.1 r.2 i) t = some t' ∧ t'.nodes = t.nodes ∧
      t'.Assigned ((rs.map fun r => (r, n.addr)).reverse ++ l) := by
  induction rs generalizing t l with
  | nil => exact ⟨t, rfl, rfl, h⟩
  | cons r rs ih =>
    obtain ⟨t₁, h₁, hnodes, hassigned⟩ := h.setRange r hn
    obtain ⟨t', h', hnodes', hassigned'⟩ := ih hassigned (hnodes ▸ hn)
    refine ⟨t', ?_, hnodes'.trans hnodes, by simpa using hassigned'⟩
    rw [List.map_cons, List.foldlM_cons, h₁]
    exact h'

/-- The ids of these nodes. -/
def idOf (xs : List NodeInfo) (id : String) : Prop := ∃ x ∈ xs, id = str x.id

theorem Topology.Known.mono {K' : String → Prop} (h : t.Known K)
    (hsub : ∀ s, K s → K' s) : t.Known K' := fun n hn hne => hsub _ (h n hn hne)

theorem idOf_append_left {xs ys : List NodeInfo} {s : String} (h : idOf xs s) :
    idOf (xs ++ ys) s := by
  obtain ⟨x, hx, hs⟩ := h
  exact ⟨x, List.mem_append_left _ hx, hs⟩

/-- The replicas of a shard are recorded. -/
theorem visible_replicas (ys : List NodeInfo)
    (hrep : ∀ y ∈ ys, y.master = false) {acc : Topology × Option Nat}
    (h : acc.1.Known (idOf xs)) :
    acc.1.Extends ((visible ys).foldl recordNode acc).1 ∧
      ((visible ys).foldl recordNode acc).1.Known (idOf (xs ++ ys)) ∧
      ((visible ys).foldl recordNode acc).2 = acc.2 := by
  refine recordNode_replicas (visible ys) ?_ ?_ (h.mono fun _ => idOf_append_left)
  · intro e he
    obtain ⟨x, hx, -, hm⟩ := mem_visible he
    rw [hm]
    exact hrep x hx
  · intro e he
    obtain ⟨x, hx, hid, -⟩ := mem_visible he
    exact ⟨x, List.mem_append_right _ hx, hid⟩

/-- The end of the loop body: the ranges go to the master, if one was recorded. -/
def assignRanges (rs : List (Int × Int)) (acc : Topology × Option Nat) : Option Topology :=
  match acc.2 with
  | none => some acc.1
  | some idx => rs.foldlM (fun t r => t.setRange r.1 r.2 idx) acc.1

theorem addShard_eq (t : Topology) (sh : ShardInfo) :
    addShard t sh.shardsValue =
      assignRanges (sh.ranges.map fun r => ((r.1 : Int), (r.2 : Int)))
        ((visible sh.after).foldl recordNode ((visible [sh.master]).foldl recordNode
          ((visible sh.before).foldl recordNode (t, none)))) := by
  obtain ⟨hnodes, hranges⟩ := shard_parts sh
  have hvis : (shardNodes sh.shardsValue).filter (fun n => decide (n.health ≠ .hidden)) =
      visible sh.before ++ (visible [sh.master] ++ visible sh.after) := by
    rw [hnodes, ← visible_append, ← visible_append]
    rfl
  unfold addShard
  rw [if_neg (by simp [ShardInfo.shardsValue, array]), hvis, hranges, ← List.foldl_append,
    ← List.foldl_append]
  rfl

/-- One shard, whose nodes are not recorded yet. -/
theorem addShard_assigned
    (sh : ShardInfo) (hfresh : ((xs ++ sh.nodes).map NodeInfo.id).Nodup) (h : t.Assigned l)
    (hk : t.Known (idOf xs)) :
    ∃ t', addShard t sh.shardsValue = some t' ∧ t'.Assigned (sh.assigned.reverse ++ l) ∧
      t'.Known (idOf (xs ++ sh.nodes)) := by
  have hids : xs ++ sh.nodes = xs ++ sh.before ++ [sh.master] ++ sh.after := by
    simp [ShardInfo.nodes]
  obtain ⟨hext₁, hk₁, hm₁⟩ := @visible_replicas xs sh.before
    (fun y hy => sh.replica_role y (List.mem_append_left _ hy)) (t, none) hk
  rw [addShard_eq, hids]
  generalize (visible sh.before).foldl recordNode (t, none) = acc₁ at hext₁ hk₁ hm₁ ⊢
  have hafter : ∀ y ∈ sh.after, y.master = false :=
    fun y hy => sh.replica_role y (List.mem_append_right _ hy)
  rw [visible_master]
  unfold ShardInfo.assigned
  cases haddr : sh.master.shardAddr with
  | none =>
    -- the master was dropped, and the ranges of the shard with it
    obtain ⟨hext₂, hk₂, hm₂⟩ := @visible_replicas (xs ++ sh.before ++ [sh.master]) sh.after hafter
      acc₁ (hk₁.mono fun _ => idOf_append_left)
    refine ⟨_, ?_, (h.extend hext₁).extend hext₂, hk₂⟩
    rw [assignRanges]
    simp only [Option.map_none, Option.toList_none, List.foldl_nil, hm₂, hm₁]
  | some a =>
    have hnew : ¬ idOf (xs ++ sh.before) (sh.master.record a).id := by
      rintro ⟨x, hx, hid⟩
      have hsplit : xs ++ sh.nodes = (xs ++ sh.before) ++ sh.master :: sh.after := by
        simp [ShardInfo.nodes]
      rw [hsplit, List.map_append, List.nodup_append] at hfresh
      exact hfresh.2.2 _ (List.mem_map_of_mem hx) _ (List.mem_map_of_mem List.mem_cons_self)
        (str_injective hid.symm)
    obtain ⟨n, hn, hna⟩ := hk₁.upsert_addr hnew
    have hk₂ : (recordNode acc₁ (sh.master.record a)).1.Known (idOf (xs ++ sh.before ++ [sh.master])) :=
      (hk₁.mono fun _ => idOf_append_left).upsert ⟨sh.master, by simp, rfl⟩
    have hm₂ : (recordNode acc₁ (sh.master.record a)).2 =
        some (acc₁.1.upsertNode (sh.master.record a)).2 := if_pos sh.master_role.1
    obtain ⟨hext₃, hk₃, hm₃⟩ := @visible_replicas (xs ++ sh.before ++ [sh.master]) sh.after hafter
      (recordNode acc₁ (sh.master.record a)) hk₂
    obtain ⟨n', hn', hna'⟩ := hext₃.2 _ n hn
    obtain ⟨t', ht', hnodes, hassigned⟩ := setRanges_assigned
      (((h.extend hext₁).extend (upsertNode_extends _ _)).extend hext₃) hn' sh.ranges
    refine ⟨t', ?_, ?_, ?_⟩
    · rw [assignRanges]
      simp only [Option.map_some, Option.toList_some, List.foldl_cons, List.foldl_nil, hm₃, hm₂, ht']
    · rw [hna', hna] at hassigned
      exact hassigned
    · intro x hx hne
      exact hk₃ x (hnodes ▸ hx) hne

theorem Topology.known_empty (K : String → Prop) : newEmptyTopology.Known K := by
  intro n hn
  cases hn

/-- Whom the topology of the `CLUSTER SHARDS` reply names as owners. -/
theorem parseShards_assigned (L : Layout) :
    ∃ t l, parseShards L.shardsReply = some (.ok t) ∧ t.Assigned l ∧
      ∀ x, x ∈ l ↔ x ∈ L.assign fun sh => sh.master.shardAddr := by
  have key : ∀ (done todo : List ShardInfo) (t : Topology) (l : List ((Nat × Nat) × Addr)),
      L.shards = done ++ todo → t.Assigned l → t.Known (idOf (done.flatMap ShardInfo.nodes)) →
      ∃ t', (todo.map ShardInfo.shardsValue).foldlM addShard t = some t' ∧
        t'.Assigned ((todo.flatMap ShardInfo.assigned).reverse ++ l) := by
    intro done todo
    induction todo generalizing done with
    | nil => exact fun t l _ h _ => ⟨t, rfl, h⟩
    | cons sh todo ih =>
      intro t l hsplit h hk
      have hfresh : ((done.flatMap ShardInfo.nodes ++ sh.nodes).map NodeInfo.id).Nodup := by
        have hids := L.ids
        rw [hsplit, List.flatMap_append, List.flatMap_cons, ← List.append_assoc, List.map_append] at hids
        exact (List.nodup_append.1 hids).1
      obtain ⟨t₁, h₁, hassigned, hknown⟩ := addShard_assigned sh hfresh h hk
      obtain ⟨t', h', hassigned'⟩ := ih (done ++ [sh]) t₁ _ (by simp [hsplit]) hassigned
        (by simpa using hknown)
      refine ⟨t', ?_, by simpa using hassigned'⟩
      rw [List.map_cons, List.foldlM_cons, h₁]
      exact h'
  obtain ⟨t, ht, hassigned⟩ := key [] L.shards newEmptyTopology [] rfl newEmptyTopology_assigned
    (Topology.known_empty _)
  refine ⟨t, _, ?_, hassigned, fun x => ?_⟩
  · unfold parseShards
    rw [if_neg (by simp [Layout.shardsReply, array])]
    exact congrArg (Option.map Except.ok) ht
  · rw [List.append_nil, List.mem_reverse]
    rfl

/-! ## `ParseSlots` -/

/-- The recorded nodes are nodes of the layout. -/
def Topology.Listed (t : Topology) (L : Layout) : Prop :=
  ∀ n ∈ t.nodes, ∃ x ∈ L.nodes, n.addr = x.address ∧ n.id = str x.id

/-- The record `ParseSlots` makes of a node. -/
def NodeInfo.slotsRecord (x : NodeInfo) (first : Bool) : Node :=
  { id := str x.id, addr := x.address, health := .online, master := first,
    role := if first then "master" else "replica" }

/-- A node that is found again is the same node of the layout. -/
theorem Topology.Listed.found (h : t.Listed L)
    (hx : x ∈ L.nodes) (hn : n ∈ t.nodes) (hat : n.IsAt x.address (str x.id)) :
    n.addr = x.address ∧ n.id = str x.id := by
  obtain ⟨y, hy, haddr, hid⟩ := h n hn
  have hxy : y = x := by
    rcases hat with ⟨-, ha⟩ | ⟨-, hi⟩
    · exact List.inj_on_of_nodup_map L.addresses hy hx (haddr.symm.trans ha)
    · exact List.inj_on_of_nodup_map L.ids hy hx (str_injective (hid.symm.trans hi))
  rw [← hxy]
  exact ⟨haddr, hid⟩

theorem Topology.Listed.upsert (h : t.Listed L) (hx : x ∈ L.nodes) (first : Bool) :
    (t.upsertNode (x.slotsRecord first)).1.Listed L ∧
      ∃ n, (t.upsertNode (x.slotsRecord first)).1.nodes[(t.upsertNode (x.slotsRecord first)).2]? =
        some n ∧ n.addr = x.address := by
  constructor
  · refine upsertNode_forall h (fun n hn hat => ?_) ⟨x, hx, rfl, rfl⟩
    obtain ⟨haddr, hid⟩ := h.found hx hn hat
    exact ⟨x, hx, haddr, by simp [Node.renew, NodeInfo.slotsRecord, hid]⟩
  · rcases upsertNode_cases t (x.slotsRecord first) with ⟨i, n, hn, hat, heq⟩ | ⟨-, heq⟩ <;> rw [heq]
    · exact ⟨n.renew (x.slotsRecord first), by simp [hn], (h.found hx (List.mem_of_getElem? hn) hat).1⟩
    · exact ⟨x.slotsRecord first, by simp, rfl⟩

theorem slotsNodes_cons (start stop : Int) (first : Bool) (x : NodeInfo) (vs : List Value)
    (t : Topology) :
    slotsNodes start stop first (x.slotsValue :: vs) t =
      if first then
        ((t.upsertNode (x.slotsRecord first)).1.setRange start stop
          (t.upsertNode (x.slotsRecord first)).2).bind (slotsNodes start stop false vs)
      else slotsNodes start stop false vs (t.upsertNode (x.slotsRecord first)).1 := by
  rw [slotsNodes, parseSlotsNode_eq]
  rfl

theorem slotsNodes_replicas (start stop : Int) (xs : List NodeInfo)
    (hxs : ∀ x ∈ xs, x ∈ L.nodes) (h : t.Listed L) :
    ∃ t', slotsNodes start stop false (xs.map NodeInfo.slotsValue) t = some t' ∧
      t.Extends t' ∧ t'.Listed L := by
  induction xs generalizing t with
  | nil => exact ⟨t, rfl, ⟨rfl, fun i n hn => ⟨n, hn, rfl⟩⟩, h⟩
  | cons x xs ih =>
    obtain ⟨t', ht', hext, hlisted⟩ := ih (fun y hy => hxs y (List.mem_cons_of_mem _ hy))
      (h.upsert (hxs x List.mem_cons_self) false).1
    refine ⟨t', ?_, (upsertNode_extends _ _).trans hext, hlisted⟩
    rw [List.map_cons, slotsNodes_cons]
    exact ht'

/-- One entry of the reply. -/
theorem addSlotsEntry_assigned {e : (Nat × Nat) × ShardInfo} (he : e ∈ L.entries)
    (h : t.Assigned l) (hlisted : t.Listed L) :
    ∃ t', addSlotsEntry t (entryValue e) = some t' ∧
      t'.Assigned ((e.1, e.2.master.address) :: l) ∧ t'.Listed L := by
  obtain ⟨sh, hsh, hr⟩ := List.mem_flatMap.1 he
  obtain ⟨r, -, rfl⟩ := List.mem_map.1 hr
  have hnode : ∀ x, x ∈ sh.nodes → x ∈ L.nodes := fun x hx => List.mem_flatMap.2 ⟨sh, hsh, hx⟩
  obtain ⟨hlisted₁, n, hn, hna⟩ := hlisted.upsert (hnode sh.master (by simp [ShardInfo.nodes])) true
  obtain ⟨t₁, h₁, hnodes, hassigned⟩ := (h.extend (upsertNode_extends _ _)).setRange r hn
  obtain ⟨t', ht', hext, hlisted'⟩ := slotsNodes_replicas r.1 r.2 (sh.before ++ sh.after)
    (fun x hx => hnode x (by
      rcases List.mem_append.1 hx with hx | hx
      · exact List.mem_append_left _ hx
      · exact List.mem_append_right _ (List.mem_cons_of_mem _ hx)))
    (t := t₁) (fun y hy => hlisted₁ y (hnodes ▸ hy))
  refine ⟨t', ?_, ?_, hlisted'⟩
  · have hentry : addSlotsEntry t (entryValue (r, sh)) = slotsNodes r.1 r.2 true
        ((sh.master :: (sh.before ++ sh.after)).map NodeInfo.slotsValue) t := rfl
    rw [hentry, List.map_cons, slotsNodes_cons, if_pos rfl, h₁]
    exact ht'
  · rw [hna] at hassigned
    exact hassigned.extend hext

/-- Whom the topology of the `CLUSTER SLOTS` reply names as owners. -/
theorem parseSlots_assigned (L : Layout) {es : List ((Nat × Nat) × ShardInfo)}
    (hes : es.Perm L.entries) :
    ∃ t l, parseSlots (slotsReply es) = some (.ok t) ∧ t.Assigned l ∧
      ∀ x, x ∈ l ↔ x ∈ L.assign fun sh => some sh.master.address := by
  have key : ∀ (es : List ((Nat × Nat) × ShardInfo)) (t : Topology)
      (l : List ((Nat × Nat) × Addr)), (∀ e ∈ es, e ∈ L.entries) → t.Assigned l → t.Listed L →
      ∃ t', (es.map entryValue).foldlM addSlotsEntry t = some t' ∧
        t'.Assigned ((es.map fun e => (e.1, e.2.master.address)).reverse ++ l) := by
    intro es
    induction es with
    | nil => exact fun t l _ h _ => ⟨t, rfl, h⟩
    | cons e es ih =>
      intro t l hmem h hlisted
      obtain ⟨t₁, h₁, hassigned, hlisted₁⟩ :=
        addSlotsEntry_assigned (hmem e List.mem_cons_self) h hlisted
      obtain ⟨t', h', hassigned'⟩ :=
        ih t₁ _ (fun x hx => hmem x (List.mem_cons_of_mem _ hx)) hassigned hlisted₁
      refine ⟨t', ?_, by simpa using hassigned'⟩
      rw [List.map_cons, List.foldlM_cons, h₁]
      exact h'
  obtain ⟨t, ht, hassigned⟩ := key es newEmptyTopology [] (fun e he => hes.mem_iff.1 he)
    newEmptyTopology_assigned (fun n hn => by cases hn)
  refine ⟨t, _, ?_, hassigned, fun x => ?_⟩
  · unfold parseSlots
    rw [if_neg (by simp [slotsReply, array])]
    exact congrArg (Option.map Except.ok) ht
  · rw [List.append_nil, List.mem_reverse, Layout.mem_assign]
    simp only [List.mem_map, hes.mem_iff, Layout.entries, List.mem_flatMap]
    constructor
    · rintro ⟨e, ⟨sh, hsh, r, hr, rfl⟩, rfl⟩
      exact ⟨sh, hsh, rfl, hr⟩
    · rintro ⟨sh, hsh, ha, hr⟩
      refine ⟨(x.1, sh), ⟨sh, hsh, x.1, hr, rfl⟩, ?_⟩
      rw [Option.some.inj ha]

/-! ## The two replies -/

theorem ShardInfo.lt_slotCount (sh : ShardInfo) {r : Nat × Nat} (hr : r ∈ sh.ranges)
    (hs : Within s r) : s < slotCount := Nat.lt_of_le_of_lt hs.2 (sh.in_range r hr).2

/-- A topology assigned by `f` answers with the masters exactly if `f` names
their addresses. -/
theorem Layout.serves_iff (h : t.Assigned l) (hl : ∀ x, x ∈ l ↔ x ∈ L.assign f) :
    L.Serves (ownerOf (some t)) ↔
      ∀ sh ∈ L.shards, sh.ranges ≠ [] → f sh = some sh.master.address := by
  constructor
  · intro hserves sh hsh hne
    obtain ⟨r, hr⟩ := List.exists_mem_of_ne_nil _ hne
    have hs : Within r.1 r := ⟨Nat.le_refl _, (sh.in_range r hr).1⟩
    rw [← (L.ownIn_eq hl r.1).1 sh hsh r hr hs, ← h.ownerOf (sh.lt_slotCount hr hs)]
    exact hserves.covered sh hsh r hr r.1 hs
  · intro hf
    refine ⟨fun sh hsh r hr s hs => ?_, fun s hlt hun => ?_⟩
    · rw [h.ownerOf (sh.lt_slotCount hr hs), (L.ownIn_eq hl s).1 sh hsh r hr hs]
      exact hf sh hsh (List.ne_nil_of_mem hr)
    · rw [h.ownerOf hlt]
      exact (L.ownIn_eq hl s).2 hun

/-- `parseShardNode` finds the address of a node exactly if its host has no
colon and `endpoint` stands ahead of `port`. -/
theorem NodeInfo.shardAddr_eq_some_address (x : NodeInfo) :
    x.shardAddr = some x.address ↔ colon ∉ x.host ∧ x.EndpointFirst := by
  unfold NodeInfo.shardAddr
  by_cases hc : colon ∈ x.host
  · have hne : str x.host ≠ x.address := by
      intro h
      have := congrArg String.length h
      have hcolon : ":".length = 1 := rfl
      simp only [NodeInfo.address, joinPort, String.length_append] at this
      omega
    simp [hc, hne]
  · by_cases he : x.EndpointFirst <;> simp [hc, he]

/-- **The two replies give the same owners**, the masters, exactly if the
masters with slots have a host without colon and list `endpoint` ahead of
`port`. -/
theorem replies_agree_iff (L : Layout) {es : List ((Nat × Nat) × ShardInfo)}
    (hes : es.Perm L.entries) :
    (∃ t₁ t₂, parseShards L.shardsReply = some (.ok t₁) ∧
      parseSlots (slotsReply es) = some (.ok t₂) ∧
      L.Serves (ownerOf (some t₁)) ∧ L.Serves (ownerOf (some t₂))) ↔
    ∀ sh ∈ L.shards, sh.ranges ≠ [] → colon ∉ sh.master.host ∧ sh.master.EndpointFirst := by
  obtain ⟨t₁, l₁, h₁, hassigned₁, hl₁⟩ := parseShards_assigned L
  obtain ⟨t₂, l₂, h₂, hassigned₂, hl₂⟩ := parseSlots_assigned L hes
  have hiff := Layout.serves_iff hassigned₁ hl₁
  simp only [NodeInfo.shardAddr_eq_some_address] at hiff
  constructor
  · rintro ⟨t, _, ht, -, hserves, -⟩
    rw [h₁] at ht
    cases ht
    exact hiff.1 hserves
  · intro hcond
    exact ⟨t₁, t₂, h₁, h₂, hiff.2 hcond, (Layout.serves_iff hassigned₂ hl₂).2 fun _ _ _ => rfl⟩

/-- A master without replicas. -/
def soloNode (host : Bytes) (order : List Field)
    (host_form : host ≠ [] ∧ host.count colon = 0 ∨ 2 ≤ host.count colon)
    (order_perm : order.Perm Field.all) : NodeInfo where
  id := lit "n1"
  host := host
  port := 6379
  master := true
  health := lit "online"
  offset := 0
  order := order
  port_pos := by decide
  host_form := host_form
  order_perm := order_perm

/-- All slots on one node. -/
def soloLayout (x : NodeInfo) (hx : x.master = true ∧ x.health = lit "online") : Layout where
  shards := [{ ranges := [(0, 16383)], before := [], master := x, after := [], slotsFirst := true,
               in_range := by decide, master_role := hx, replica_role := by simp }]
  disjoint := by simp
  ids := by simp [ShardInfo.nodes]
  addresses := by simp [ShardInfo.nodes]

/-- The order of Redis: the port, then the address, then the endpoint. -/
def redisOrder : List Field := [.id, .port, .ip, .endpoint, .role, .offset, .health]

def endpointOrder : List Field := [.id, .ip, .endpoint, .port, .role, .offset, .health]

theorem replies_agree_iff_solo :
    ∃ L : Layout, L.entries.Perm L.entries ∧
      ∃ t₁ t₂, parseShards L.shardsReply = some (.ok t₁) ∧
        parseSlots (slotsReply L.entries) = some (.ok t₂) ∧
        L.Serves (ownerOf (some t₁)) ∧ L.Serves (ownerOf (some t₂)) :=
  let x := soloNode (lit "10.0.0.1") endpointOrder (by decide) (by decide)
  ⟨soloLayout x ⟨rfl, rfl⟩, .refl _,
    (replies_agree_iff (soloLayout x ⟨rfl, rfl⟩) (.refl _)).2
      (by
        intro sh hsh _
        obtain rfl := List.mem_singleton.1 hsh
        decide +kernel)⟩

/-- One node, its fields listed as `id`, `port`, `ip`, `endpoint`. -/
def portFirstLayout : Layout :=
  soloLayout (soloNode (lit "10.0.0.1") redisOrder (by decide) (by decide)) ⟨rfl, rfl⟩

/-- One node, its host an IPv6 address. -/
def ipv6Layout : Layout :=
  soloLayout (soloNode (lit "fd00::1") endpointOrder (by decide) (by decide)) ⟨rfl, rfl⟩

/-- A master whose port is listed first is dropped and leaves its slots without
owner; one with an IPv6 address is recorded without its port. -/
theorem port_first_drops_master :
    ¬ (∃ t, parseShards portFirstLayout.shardsReply = some (.ok t) ∧
        portFirstLayout.Serves (ownerOf (some t))) ∧
      (parsed (parseShards portFirstLayout.shardsReply)).map (fun t => ownerOf (some t) 0) =
        some none ∧
      ¬ (∃ t, parseShards ipv6Layout.shardsReply = some (.ok t) ∧
        ipv6Layout.Serves (ownerOf (some t))) ∧
      (parsed (parseShards ipv6Layout.shardsReply)).map (fun t => ownerOf (some t) 0) =
        some (some "fd00::1") := by
  have hdrop : (parsed (parseShards portFirstLayout.shardsReply)).map
      (fun t => ownerOf (some t) 0) = some none := by decide +kernel
  have hbare : (parsed (parseShards ipv6Layout.shardsReply)).map
      (fun t => ownerOf (some t) 0) = some (some "fd00::1") := by decide +kernel
  refine ⟨?_, hdrop, ?_, hbare⟩
  · rintro ⟨t, ht, hserves⟩
    have howner := hserves.covered _ List.mem_cons_self (0, 16383) List.mem_cons_self 0 (by decide)
    rw [ht] at hdrop
    simp only [parsed, Option.map_some, Option.some.injEq, howner] at hdrop
    cases hdrop
  · rintro ⟨t, ht, hserves⟩
    have howner := hserves.covered _ List.mem_cons_self (0, 16383) List.mem_cons_self 0 (by decide)
    rw [ht] at hbare
    simp only [parsed, Option.map_some, Option.some.injEq, howner] at hbare
    exact absurd hbare (by decide +kernel)

end RespProxy.Cluster
