import Mathlib.Algebra.Ring.Nat
import RespProxy.Command.Translate
import RespProxy.Lib.Shard
import RespProxy.Proxy.Handle

/-! # Fan-out is transparent

A command with keys in several slots is split by slot, the pieces are run on the
stores of the slots, and the replies are merged. The meaning of the commands that
are split is `perform`, for one store. `fanOut` is the way through the proxy:
`extractKeys`, `groupBySlot`, `rebuildFanoutArgv`, the pieces in some order, then
`mergeSum`, `mergeMGet` or `mergeMSet`.

The commands access their keys one by one, so they are lists of `Shard.Access`,
and the pieces are what these lists have for each slot (`Splits`).
-/

namespace RespProxy.Proxy

open Command Resp Shard

/-! ## The commands on one store -/

/-- The objects of a store: the one that `MSET` stores and what `MGET` shows of one. -/
structure Objects (Obj : Type) where
  ofBytes : Bytes → Obj
  bulk : Option Obj → Value

variable {Obj : Type} (O : Objects Obj)

/-- Remove a key, and say whether it was there. -/
def removal (k : Slice) : Access Bytes Obj Nat := ⟨k.bytes, fun o => (o.toList.length, none)⟩

/-- Say whether a key is there. -/
def presence (k : Slice) : Access Bytes Obj Nat := ⟨k.bytes, fun o => (o.toList.length, o)⟩

/-- Show what a key holds. -/
def reading (k : Slice) : Access Bytes Obj Value := ⟨k.bytes, fun o => (O.bulk o, o)⟩

/-- Store a string. -/
def assignment (k v : Slice) : Access Bytes Obj Unit :=
  ⟨k.bytes, fun _ => ((), some (O.ofBytes v.bytes))⟩

/-- The assignments of `MSET key value [key value …]`. -/
def assignments : List Slice → List (Access Bytes Obj Unit)
  | k :: v :: rest => assignment O k v :: assignments rest
  | _ => []

/-- An integer reply, of 64 bits. -/
def counted (counts : List Nat) : Value := integer (Decimal.wrap64 (counts.sum : Nat))

/-- What a server with one store does for the commands that are split. -/
def perform (argv : Argv) (st : Store Bytes Obj) : Value × Store Bytes Obj :=
  let args := argv.drop 1
  if nameOf argv ∈ ["DEL", "UNLINK"] then
    let r := runAll (args.map removal) st
    (counted r.1, r.2)
  else if nameOf argv ∈ ["EXISTS", "TOUCH"] then
    let r := runAll (args.map presence) st
    (counted r.1, r.2)
  else if nameOf argv = "MGET" then
    let r := runAll (args.map (reading O)) st
    (array r.1, r.2)
  else if nameOf argv = "MSET" then
    let r := runAll (assignments O args) st
    (simpleString "OK", r.2)
  else (error "ERR unknown command", st)

/-! ## The way through the proxy -/

/-- The groups of a command's keys. -/
def groupsOf (slot : Bytes → Nat) (argv : Argv) : List KeyGroup :=
  groupBySlot ((extractKeys argv).getD []) fun k => slot k.bytes

/-- The piece of a command for a group, as a job on the store of the slot. -/
def jobOf (x : KeyGroup × Argv) : Job Nat (Store Bytes Obj) Value := ⟨x.1.slot, perform O x.2⟩

/-- Split a command, run the pieces in the given order on the stores of their slots, and
merge the replies. `none` is a panic. -/
def fanOut (slot : Bytes → Nat) (argv : Argv) (order : List Nat)
    (stores : Nat → Store Bytes Obj) : Option (Value × (Nat → Store Bytes Obj)) := do
  let keys ← extractKeys argv
  let groups := groupBySlot keys fun k => slot k.bytes
  let argvs ← groups.mapM (rebuildFanoutArgv argv)
  let out := runJobs ((groups.zip argvs).map (jobOf O)) order
    (stores, List.replicate groups.length Value.zero)
  return (mergeFanout (fanoutOf argv) keys.length groups out.2, out.1)

/-- The requests that are split: a known name, at least one key and, for `MSET`, a value
for each key. -/
structure FanoutRequest (argv : Argv) : Prop where
  name : nameOf argv ∈ ["DEL", "UNLINK", "EXISTS", "TOUCH", "MGET", "MSET"]
  keys : 2 ≤ argv.length
  values : nameOf argv = "MSET" → argv.length % 2 = 1

/-! ## Positions -/

/-- How far the keys of a command are apart. -/
def strideOf (argv : Argv) : Nat := if nameOf argv = "MSET" then 2 else 1

/-- The positions of the keys. -/
def keyPositions (argv : Argv) : List Nat :=
  (List.range ((argv.length - 1) / strideOf argv)).map fun i => 1 + strideOf argv * i

variable {argv : Argv}
variable {slot : Bytes → Nat}

theorem indexesBySpec_strided {step : Nat} (hlen : 2 ≤ argv.length) (hstep : 0 < step) :
    indexesBySpec argv (spec 1 (-1) step) =
      (List.range ((argv.length - 2) / step + 1)).map fun i => 1 + step * i := by
  have hrange : ¬ (1 ≥ argv.length ∨ (argv.length : Int) + -1 < (1 : Nat)) := by omega
  have hlast : min ((argv.length : Int) + -1).toNat (argv.length - 1) - 1 = argv.length - 2 := by
    omega
  have hstep' : step ≠ 0 := Nat.pos_iff_ne_zero.1 hstep
  simp only [indexesBySpec, spec, hstep', if_false, Nat.one_ne_zero, Int.reduceNeg,
    Int.reduceEq, Int.reduceLT, if_true]
  rw [if_neg hrange, hlast]

theorem fanoutOf_request (h : FanoutRequest argv) :
    fanoutOf argv = if nameOf argv = "MSET" then .mset
      else if nameOf argv = "MGET" then .mget else .sum := by
  have htable : ∀ w ∈ splitNames, (lookup w).map Meta.fanout = some (if w = "MSET" then Fanout.mset
      else if w = "MGET" then .mget else .sum) := by
    decide
  obtain ⟨m, hm, hmeta⟩ := Option.map_eq_some_iff.1 (htable _ h.name)
  rw [fanoutOf, hm]
  exact hmeta

theorem stride_pos (argv : Argv) : 0 < strideOf argv := by
  unfold strideOf
  split <;> omega

theorem length_request (h : FanoutRequest argv) :
    argv.length - 1 = strideOf argv * ((argv.length - 1) / strideOf argv) := by
  have hvalues := h.values
  unfold strideOf
  split
  · have := hvalues ‹_›
    omega
  · omega

theorem keyIndexes_fanout (h : FanoutRequest argv) :
    keyIndexes argv = some (keyPositions argv) := by
  have hkeys := h.keys
  rw [keyIndexes_split h.name]
  refine (congrArg some (indexesBySpec_strided hkeys (stride_pos argv))).trans ?_
  have hcount : (argv.length - 2) / strideOf argv + 1 = (argv.length - 1) / strideOf argv := by
    have hvalues := h.values
    unfold strideOf
    split
    · have := hvalues ‹_›
      omega
    · omega
  rw [hcount, keyPositions]

theorem mem_keyPositions (h : FanoutRequest argv) {j : Nat} (hj : j ∈ keyPositions argv) :
    j + strideOf argv ≤ argv.length := by
  obtain ⟨i, hi, rfl⟩ := List.mem_map.1 hj
  have hlen := length_request h
  have hkeys := h.keys
  have hi : i + 1 ≤ (argv.length - 1) / strideOf argv := List.mem_range.1 hi
  have hmul := Nat.mul_le_mul_left (strideOf argv) hi
  rw [Nat.mul_succ] at hmul
  omega

/-! ## Pieces -/

/-- The command for the keys at some positions. -/
def pieceOf (argv : Argv) (js : List Nat) : Argv :=
  argv.headD .nil :: js.flatMap fun j => (argv.drop j).take (strideOf argv)

theorem flatMap_chunks {α : Type} (step : Nat) (m : Nat) (l : List α) (h : l.length = step * m) :
    ((List.range m).flatMap fun i => (l.drop (step * i)).take step) = l := by
  induction m generalizing l with
  | zero =>
    have : l = [] := List.length_eq_zero_iff.1 (by simpa using h)
    simp [this]
  | succ m ih =>
    have hrest := ih (l.drop step) (by rw [List.length_drop, h, Nat.mul_succ, Nat.add_sub_cancel])
    simp only [List.drop_drop] at hrest
    rw [List.range_succ_eq_map, List.flatMap_cons, List.flatMap_map]
    simp only [Nat.mul_zero, List.drop_zero, Nat.mul_succ, Nat.add_comm _ step]
    rw [hrest, List.take_append_drop]

/-- All of the keys make the command. -/
theorem pieceOf_all (h : FanoutRequest argv) : pieceOf argv (keyPositions argv) = argv := by
  have hchunks := flatMap_chunks (strideOf argv) ((argv.length - 1) / strideOf argv) (argv.drop 1)
    (by rw [List.length_drop]; exact length_request h)
  simp only [List.drop_drop] at hchunks
  rw [pieceOf, keyPositions, List.flatMap_map, hchunks]
  cases argv with
  | nil => exact absurd h.keys (by simp)
  | cons a rest => rfl

theorem nameOf_pieceOf (h : FanoutRequest argv) (js : List Nat) :
    nameOf (pieceOf argv js) = nameOf argv := by
  cases argv with
  | nil => exact absurd h.keys (by simp)
  | cons a rest => rfl

/-- `rebuildFanoutArgv` makes the piece for the keys of the group. -/
theorem rebuildFanoutArgv_eq (h : FanoutRequest argv) {slotFn : Slice → Nat} {g : KeyGroup}
    (hg : g ∈ groupBySlot ((keyPositions argv).map fun j => argv.getD j .nil) slotFn) :
    rebuildFanoutArgv argv g = some (pieceOf argv
      ((keyPositions argv).filter fun j => slotFn (argv.getD j .nil) = g.slot)) := by
  have hindex := filterMap_index hg
  have hargs : ∀ j ∈ keyPositions argv,
      (if fanoutOf argv = .mset then (argv.drop j).take 2 else [argv.getD j .nil]) =
        (argv.drop j).take (strideOf argv) := by
    intro j hj
    have hle := mem_keyPositions h hj
    rw [fanoutOf_request h]
    unfold strideOf at hle ⊢
    by_cases hn : nameOf argv = "MSET"
    · simp [hn]
    · rw [if_neg hn] at hle
      have hget : argv.getD j .nil = argv[j] := by
        rw [List.getD_eq_getElem?_getD, List.getElem?_eq_getElem (by omega), Option.getD_some]
      rw [if_neg hn, if_neg hn, if_neg (by split <;> simp), List.drop_eq_getElem_cons (by omega), hget]
      rfl
  cases argv with
  | nil => exact absurd h.keys (by simp)
  | cons a rest =>
    rw [rebuildFanoutArgv, keyIndexes_fanout h]
    dsimp only [Option.map_some]
    rw [hindex, pieceOf]
    refine congrArg (fun args => some (a :: args)) (List.flatMap_congr fun j hj => ?_)
    exact hargs j (List.mem_filter.1 hj).1

/-! ## Pieces on a store -/

/-- A command accesses its keys one by one, each piece of it those of its own keys. -/
structure Splits {R : Type} (argv : Argv) (acc : Nat → Access Bytes Obj R)
    (fin : List R → Value) : Prop where
  key : ∀ j, (acc j).key = (argv.getD j .nil).bytes
  piece : ∀ js, js ⊆ keyPositions argv → ∀ st, perform O (pieceOf argv js) st =
    (fin (runAll (js.map acc) st).1, (runAll (js.map acc) st).2)

/-- The arguments of a piece of a command that has only keys. -/
theorem args_pieceOf (h : FanoutRequest argv) (hn : nameOf argv ≠ "MSET") {js : List Nat}
    (hjs : js ⊆ keyPositions argv) :
    (pieceOf argv js).drop 1 = js.map fun j => argv.getD j .nil := by
  have hone : ∀ j ∈ js, (argv.drop j).take (strideOf argv) = [argv.getD j .nil] := by
    intro j hj
    have hle := mem_keyPositions h (hjs hj)
    rw [strideOf, if_neg hn] at hle ⊢
    rw [List.drop_eq_getElem_cons (by omega), List.getD_eq_getElem?_getD,
      List.getElem?_eq_getElem (by omega)]
    rfl
  rw [pieceOf, List.drop_one, List.tail_cons, List.flatMap_congr hone]
  exact List.flatMap_pure_eq_map _ _

theorem splits_keys {R : Type} (h : FanoutRequest argv) (hn : nameOf argv ≠ "MSET")
    {acc : Slice → Access Bytes Obj R} {fin : List R → Value} (hkey : ∀ k, (acc k).key = k.bytes)
    (hperform : ∀ argv' st, nameOf argv' = nameOf argv → perform O argv' st =
      (fin (runAll ((argv'.drop 1).map acc) st).1, (runAll ((argv'.drop 1).map acc) st).2)) :
    Splits O argv (fun j => acc (argv.getD j .nil)) fin where
  key j := hkey _
  piece js hjs st := by
    rw [hperform _ st (nameOf_pieceOf h js), args_pieceOf h hn hjs, List.map_map]
    rfl

theorem assignments_pieceOf (h : FanoutRequest argv) (hn : nameOf argv = "MSET") {js : List Nat}
    (hjs : js ⊆ keyPositions argv) : assignments O ((pieceOf argv js).drop 1) =
      js.map fun j => assignment O (argv.getD j .nil) (argv.getD (j + 1) .nil) := by
  rw [pieceOf, List.drop_one, List.tail_cons]
  induction js with
  | nil => rfl
  | cons j js ih =>
    have hle := mem_keyPositions h (hjs List.mem_cons_self)
    rw [strideOf, if_pos hn] at hle
    rw [List.flatMap_cons, List.map_cons, ← ih fun j' hj' => hjs (List.mem_cons_of_mem _ hj'),
      strideOf, if_pos hn, List.drop_eq_getElem_cons (by omega), List.drop_eq_getElem_cons (by omega),
      List.getD_eq_getElem?_getD, List.getElem?_eq_getElem (by omega), List.getD_eq_getElem?_getD,
      List.getElem?_eq_getElem (by omega)]
    rfl

/-! ## Pieces on the stores of their slots -/

section

variable {R : Type} {acc : Nat → Access Bytes Obj R} {fin : List R → Value}

theorem mapM_eq_some_map {α β : Type} {f : α → Option β} {g : α → β} {xs : List α}
    (h : ∀ x ∈ xs, f x = some (g x)) : xs.mapM f = some (xs.map g) := by
  induction xs with
  | nil => rfl
  | cons x xs ih =>
    rw [List.mapM_cons, h x List.mem_cons_self, ih fun y hy => h y (List.mem_cons_of_mem _ hy)]
    rfl

theorem zip_map_self {α β : Type} {γ : Type*} (xs : List α) (g : α → β) (f : α × β → γ) :
    (xs.zip (xs.map g)).map f = xs.map fun x => f (x, g x) := by
  induction xs with
  | nil => rfl
  | cons x xs ih => simp [ih]

/-- The accesses of a command. -/
def accesses (argv : Argv) (acc : Nat → Access Bytes Obj R) : List (Access Bytes Obj R) :=
  (keyPositions argv).map acc

/-- The jobs of a command: for each group, the accesses to its slot. -/
def slotJob (slot : Bytes → Nat) (as : List (Access Bytes Obj R)) (fin : List R → Value)
    (g : KeyGroup) : Job Nat (Store Bytes Obj) Value :=
  ⟨g.slot, fun st => (fin (runAll (ofShard slot g.slot as) st).1,
    (runAll (ofShard slot g.slot as) st).2)⟩

variable {O}

theorem Splits.perform_all (hs : Splits O argv acc fin) (h : FanoutRequest argv)
    (st : Store Bytes Obj) : perform O argv st =
      (fin (runAll (accesses argv acc) st).1, (runAll (accesses argv acc) st).2) := by
  have hall := hs.piece (keyPositions argv) (fun _ hj => hj) st
  rwa [pieceOf_all h] at hall

theorem Splits.ofShard (hs : Splits O argv acc fin) (slot : Bytes → Nat) (s : Nat) :
    ofShard slot s (accesses argv acc) =
      ((keyPositions argv).filter fun j => slot (argv.getD j .nil).bytes = s).map acc := by
  rw [Shard.ofShard, accesses, List.filter_map]
  refine congrArg (List.map acc) (List.filter_congr fun j _ => ?_)
  simp only [Function.comp_apply, hs.key]

/-- The way through the proxy: the jobs of the slots, and the merge. -/
theorem Splits.fanOut_eq (hs : Splits O argv acc fin) (h : FanoutRequest argv)
    (slot : Bytes → Nat) (order : List Nat) (stores : Nat → Store Bytes Obj) :
    fanOut O slot argv order stores =
      let out := runJobs ((groupsOf slot argv).map (slotJob slot (accesses argv acc) fin)) order
        (stores, List.replicate (groupsOf slot argv).length Value.zero)
      some (mergeFanout (fanoutOf argv) (keyPositions argv).length (groupsOf slot argv) out.2,
        out.1) := by
  have hkeys : extractKeys argv = some ((keyPositions argv).map fun j => argv.getD j .nil) := by
    rw [extractKeys, keyIndexes_fanout h, Option.map_some]
  have hgroups : groupsOf slot argv =
      groupBySlot ((keyPositions argv).map fun j => argv.getD j .nil) fun k => slot k.bytes := by
    rw [groupsOf, hkeys, Option.getD_some]
  have hpieces := mapM_eq_some_map fun g hg =>
    @rebuildFanoutArgv_eq argv h (fun k => slot k.bytes) g hg
  have hjob : ∀ g, jobOf O (g, pieceOf argv
      ((keyPositions argv).filter fun j => slot (argv.getD j .nil).bytes = g.slot)) =
        slotJob slot (accesses argv acc) fin g := by
    intro g
    refine congrArg (Job.mk g.slot) (funext fun st => ?_)
    rw [hs.piece _ (List.filter_subset_self _) st, hs.ofShard]
  rw [fanOut, hkeys, hgroups]
  simp only [Option.bind_eq_bind, Option.bind_some, hpieces, zip_map_self, hjob, List.length_map]
  rfl

/-- Reply number `i` to the whole command. -/
def replyTo [Inhabited R] (slot : Bytes → Nat) (stores : Nat → Store Bytes Obj)
    (as : List (Access Bytes Obj R)) (i : Nat) : R :=
  (runAll as (whole slot stores)).1.getD i default

theorem map_replyTo [Inhabited R] (slot : Bytes → Nat) (stores : Nat → Store Bytes Obj)
    (as : List (Access Bytes Obj R)) :
    (List.range as.length).map (replyTo slot stores as) = (runAll as (whole slot stores)).1 := by
  refine List.ext_getElem (by simp) fun i h₁ h₂ => ?_
  simp [replyTo, List.getD_eq_getElem?_getD, List.getElem?_eq_getElem h₂]

theorem groupsOf_request (h : FanoutRequest argv) (slot : Bytes → Nat) : groupsOf slot argv =
    groupBySlot ((keyPositions argv).map fun j => argv.getD j .nil) fun k => slot k.bytes := by
  rw [groupsOf, extractKeys, keyIndexes_fanout h, Option.map_some, Option.getD_some]

/-- The replies of a group, from those to the whole command. -/
theorem Splits.group_replies [Inhabited R] (hs : Splits O argv acc fin) (h : FanoutRequest argv)
    (stores : Nat → Store Bytes Obj) {g : KeyGroup}
    (hg : g ∈ groupsOf slot argv) :
    (runAll (Shard.ofShard slot g.slot (accesses argv acc)) (stores g.slot)).1 =
      g.index.map (replyTo slot stores (accesses argv acc)) := by
  have hzip : (accesses argv acc).zip (runAll (accesses argv acc) (whole slot stores)).1 =
      (keyPositions argv).zipIdx.map fun x =>
        (acc x.1, replyTo slot stores (accesses argv acc) x.2) := by
    rw [← map_replyTo, accesses, List.length_map, List.zip_map, List.zipIdx_eq_zip_range',
      ← List.range_eq_range']
    rfl
  rw [replies_whole, hzip, mem_groupBySlot (groupsOf_request h slot ▸ hg), List.filter_map,
    List.map_map, List.zipIdx_map, List.filter_map, List.map_map, List.map_map]
  refine congrArg (List.map _) (List.filter_congr fun x _ => ?_)
  simp [hs.key]

/-- A slot without a group has no accesses. -/
theorem Splits.ofShard_eq_nil (hs : Splits O argv acc fin) (h : FanoutRequest argv) {s : Nat}
    (hsl : s ∉ (groupsOf slot argv).map KeyGroup.slot) :
    Shard.ofShard slot s (accesses argv acc) = [] := by
  rw [hs.ofShard, List.map_eq_nil_iff, List.filter_eq_nil_iff]
  intro j hj hslot
  have hkey : argv.getD j .nil ∈ (keyPositions argv).map fun j => argv.getD j .nil :=
    List.mem_map_of_mem hj
  have hgroup := slot_mem_groupBySlot (fun k => slot k.bytes) hkey
  rw [groupsOf_request h] at hsl
  exact hsl (of_decide_eq_true hslot ▸ hgroup)

/-- **In any order the pieces give the replies of the whole command, group by group, and
leave its contents.** -/
theorem Splits.run [Inhabited R] (hs : Splits O argv acc fin) (h : FanoutRequest argv)
    {order : List Nat}
    (horder : order.Perm (List.range (groupsOf slot argv).length))
    (stores : Nat → Store Bytes Obj) :
    let out := runJobs ((groupsOf slot argv).map (slotJob slot (accesses argv acc) fin)) order
      (stores, List.replicate (groupsOf slot argv).length Value.zero)
    out.2 = (groupsOf slot argv).map (fun g =>
      fin (g.index.map (replyTo slot stores (accesses argv acc)))) ∧
    whole slot out.1 = (perform O argv (whole slot stores)).2 := by
  intro out
  have hjobs : (((groupsOf slot argv).map (slotJob slot (accesses argv acc) fin)).map
      Job.shard).Nodup := by
    rw [List.map_map]
    exact nodup_slots _ _
  have hperm : order.Perm (List.range
      ((groupsOf slot argv).map (slotJob slot (accesses argv acc) fin)).length) := by
    rwa [List.length_map]
  constructor
  · refine (runJobs_replies hjobs hperm _ (by simp)).trans ?_
    rw [List.map_map]
    refine List.map_congr_left fun g hg => ?_
    exact congrArg fin (hs.group_replies h stores hg)
  · have hstores : out.1 = fun s =>
        (runAll (Shard.ofShard slot s (accesses argv acc)) (stores s)).2 := by
      funext s
      by_cases hsl : s ∈ (groupsOf slot argv).map KeyGroup.slot
      · obtain ⟨g, hg, rfl⟩ := List.mem_map.1 hsl
        exact runJobs_stores hjobs hperm _ (by simp) (List.mem_map_of_mem hg)
      · rw [hs.ofShard_eq_nil h hsl]
        exact runJobs_shard _ (by rwa [List.map_map])
    rw [hstores, runAll_whole, hs.perform_all h]

end

/-! ## Merging -/

theorem wrap64_sum_wrap64 (ns : List Int) :
    Decimal.wrap64 (ns.map Decimal.wrap64).sum = Decimal.wrap64 ns.sum := by
  induction ns with
  | nil => rfl
  | cons n ns ih =>
    unfold Decimal.wrap64 at ih ⊢
    rw [List.map_cons, List.sum_cons, List.sum_cons, Int.bmod_add_bmod, ← Int.add_bmod_bmod, ih,
      Int.add_bmod_bmod]

/-- The indexes of the groups are those of the keys. -/
theorem index_perm (keys : List Slice) (slotFn : Slice → Nat) :
    ((groupBySlot keys slotFn).flatMap KeyGroup.index).Perm (List.range keys.length) := by
  have hperm := (Group.flatMap_groupBy_perm (fun k => slotFn k.1) keys.zipIdx).map Prod.snd
  rw [List.zipIdx_map_snd, ← List.range_eq_range', List.map_flatMap] at hperm
  rwa [groupBySlot, List.flatMap_map]

theorem mergeSum_counted (groups : List KeyGroup) (f : Nat → Nat) :
    mergeSum (groups.map fun g => counted (g.index.map f)) =
      counted ((groups.flatMap KeyGroup.index).map f) := by
  have hfind : (groups.map fun g => counted (g.index.map f)).find?
      (fun r => r.isError || r.type ≠ .integer) = none := by
    rw [List.find?_eq_none]
    intro r hr
    obtain ⟨g, -, rfl⟩ := List.mem_map.1 hr
    simp [counted, integer, Value.isError]
  have hints : ((groups.map fun g => counted (g.index.map f)).map Value.int) =
      (groups.map fun g => (((g.index.map f).sum : Nat) : Int)).map Decimal.wrap64 := by
    simp only [List.map_map, Function.comp_def, counted, integer]
  have hsum : (groups.map fun g => (((g.index.map f).sum : Nat) : Int)).sum =
      (((groups.flatMap KeyGroup.index).map f).sum : Nat) := by
    clear hfind hints
    induction groups with
    | nil => rfl
    | cons g groups ih =>
      rw [List.map_cons, List.sum_cons, ih, List.flatMap_cons, List.map_append, List.sum_append,
        Int.natCast_add]
  rw [mergeSum, hfind]
  dsimp only
  rw [hints, wrap64_sum_wrap64, hsum, counted]

theorem mergeMSet_ok (groups : List KeyGroup) :
    mergeMSet (groups.map fun _ => simpleString "OK") = simpleString "OK" := by
  have hfind : (groups.map fun _ => simpleString "OK").find? Value.isError = none := by
    rw [List.find?_eq_none]
    intro r hr
    obtain ⟨g, -, rfl⟩ := List.mem_map.1 hr
    decide
  rw [mergeMSet, hfind, Option.getD_none]

/-- Values put into their places. -/
theorem getElem?_foldl_set (f : Nat → Value) (ks : List Nat) (out : List Value) (i : Nat) :
    ((ks.zip (ks.map f)).foldl (fun out kv => out.set kv.1 kv.2) out)[i]? =
      if i ∈ ks ∧ i < out.length then some (f i) else out[i]? := by
  induction ks generalizing out with
  | nil => simp
  | cons k ks ih =>
    rw [List.map_cons, List.zip_cons_cons, List.foldl_cons, ih, List.length_set]
    by_cases hk : i = k
    · subst hk
      by_cases hlen : i < out.length <;> simp [hlen]
    · simp [hk, List.getElem?_set_ne (Ne.symm hk)]

theorem length_foldl_set (kvs : List (Nat × Value)) (out : List Value) :
    (kvs.foldl (fun out kv => out.set kv.1 kv.2) out).length = out.length := by
  induction kvs generalizing out with
  | nil => rfl
  | cons kv kvs ih => rw [List.foldl_cons, ih, List.length_set]

/-- The loop of `mergeMGet` puts the value of every key into its place. -/
theorem mergeGroups_array (f : Nat → Value) (groups : List KeyGroup) (out : List Value) :
    ∃ out', mergeGroups (groups.zip (groups.map fun g => array (g.index.map f))) out = array out' ∧
      out'.length = out.length ∧ ∀ i, out'[i]? =
        if i ∈ groups.flatMap KeyGroup.index ∧ i < out.length then some (f i) else out[i]? := by
  induction groups generalizing out with
  | nil => exact ⟨out, rfl, rfl, by simp⟩
  | cons g groups ih =>
    obtain ⟨out', hmerge, hlen, hget⟩ :=
      ih ((g.index.zip (g.index.map f)).foldl (fun out kv => out.set kv.1 kv.2) out)
    refine ⟨out', ?_, hlen.trans (length_foldl_set _ _), fun i => ?_⟩
    · rw [← hmerge, List.map_cons, List.zip_cons_cons, mergeGroups, if_neg (by simp [array, Value.isError]),
        if_neg (by simp [mgetFits, array])]
      rfl
    · rw [hget, getElem?_foldl_set, length_foldl_set, List.flatMap_cons]
      by_cases hlt : i < out.length <;> by_cases hg : i ∈ g.index <;> simp [hlt, hg]

theorem mergeMGet_array {keys : List Slice} {slotFn : Slice → Nat} (f : Nat → Value) :
    mergeMGet keys.length (groupBySlot keys slotFn)
      ((groupBySlot keys slotFn).map fun g => array (g.index.map f)) =
        array ((List.range keys.length).map f) := by
  obtain ⟨out', hmerge, hlen, hget⟩ := mergeGroups_array f (groupBySlot keys slotFn)
    (List.replicate keys.length nullBulk)
  rw [mergeMGet, if_neg (by simp), hmerge]
  refine congrArg array (List.ext_getElem? fun i => ?_)
  rw [hget]
  by_cases hi : i < keys.length
  · have hmem := (index_perm keys slotFn).mem_iff.2 (List.mem_range.2 hi)
    simp [hmem, hi]
  · rw [if_neg (by simp [hi]), List.getElem?_eq_none (by simpa using hi),
      List.getElem?_eq_none (by simpa using hi)]

/-! ## The whole way -/

theorem length_keyPositions_groups (h : FanoutRequest argv) (slot : Bytes → Nat) :
    ((groupsOf slot argv).flatMap KeyGroup.index).Perm
      (List.range (keyPositions argv).length) := by
  rw [groupsOf_request h]
  simpa using index_perm ((keyPositions argv).map fun j => argv.getD j .nil) fun k => slot k.bytes

variable {O}

/-- If the merge of the groups' replies is the reply from all of them, then the fan-out is
transparent. -/
theorem Splits.transparent {R : Type} [Inhabited R] {acc : Nat → Access Bytes Obj R}
    {fin : List R → Value} (hs : Splits O argv acc fin) (h : FanoutRequest argv)
    (stores : Nat → Store Bytes Obj) {order : List Nat}
    (horder : order.Perm (List.range (groupsOf slot argv).length))
    (hmerge : ∀ f : Nat → R, mergeFanout (fanoutOf argv) (keyPositions argv).length
      (groupsOf slot argv) ((groupsOf slot argv).map fun g => fin (g.index.map f)) =
        fin ((List.range (keyPositions argv).length).map f)) :
    ∃ stores', fanOut O slot argv order stores =
        some ((perform O argv (whole slot stores)).1, stores') ∧
      whole slot stores' = (perform O argv (whole slot stores)).2 := by
  obtain ⟨hreplies, hstores⟩ := hs.run h horder stores
  refine ⟨_, ?_, hstores⟩
  rw [hs.fanOut_eq h]
  dsimp only
  rw [hreplies, hmerge, hs.perform_all h, ← map_replyTo, accesses, List.length_map]

variable (O)

/-- **Fan-out is transparent.** Whatever the slots of the keys, the contents of the stores and
the order in which the pieces are run, the reply and the contents are those of the command on
one store that holds all the keys. -/
theorem fanOut_eq_perform (h : FanoutRequest argv) (slot : Bytes → Nat)
    (stores : Nat → Store Bytes Obj) {order : List Nat}
    (horder : order.Perm (List.range (groupsOf slot argv).length)) :
    ∃ stores', fanOut O slot argv order stores =
        some ((perform O argv (whole slot stores)).1, stores') ∧
      whole slot stores' = (perform O argv (whole slot stores)).2 := by
  have hfan := fanoutOf_request h
  have hsum : ∀ f : Nat → Nat, fanoutOf argv = .sum →
      mergeFanout (fanoutOf argv) (keyPositions argv).length (groupsOf slot argv)
        ((groupsOf slot argv).map fun g => counted (g.index.map f)) =
          counted ((List.range (keyPositions argv).length).map f) := by
    intro f hf
    rw [hf, mergeFanout, mergeSum_counted, counted, counted,
      ((length_keyPositions_groups h slot).map f).sum_nat]
  have hname := h.name
  simp only [List.mem_cons, List.not_mem_nil, or_false] at hname
  by_cases hset : nameOf argv = "MSET"
  · have hs : Splits O argv (fun j => assignment O (argv.getD j .nil) (argv.getD (j + 1) .nil))
        fun _ => simpleString "OK" := by
      refine ⟨fun _ => rfl, fun js hjs st => ?_⟩
      simp only [perform, nameOf_pieceOf h, hset, assignments_pieceOf O h hset hjs]
      rfl
    refine hs.transparent h stores horder fun f => ?_
    rw [hfan, if_pos hset]
    exact mergeMSet_ok _
  rw [if_neg hset] at hfan
  by_cases hget : nameOf argv = "MGET"
  · have hs : Splits O argv (fun j => reading O (argv.getD j .nil)) array := by
      refine splits_keys O h hset (fun _ => rfl) fun argv' st hn => ?_
      simp [perform, hn, hget]
    refine hs.transparent h stores horder fun f => ?_
    have hmerge := @mergeMGet_array ((keyPositions argv).map fun j => argv.getD j .nil)
      (fun k => slot k.bytes) f
    rw [List.length_map] at hmerge
    rw [hfan, if_pos hget, mergeFanout, groupsOf_request h]
    exact hmerge
  rw [if_neg hget] at hfan
  by_cases hdel : nameOf argv ∈ ["DEL", "UNLINK"]
  · have hs : Splits O argv (fun j => removal (argv.getD j .nil)) counted := by
      refine splits_keys O h hset (fun _ => rfl) fun argv' st hn => ?_
      rw [perform, hn, if_pos hdel]
    exact hs.transparent h stores horder fun f => hsum f hfan
  · have hexists : nameOf argv ∈ ["EXISTS", "TOUCH"] := by
      simp only [List.mem_cons, List.not_mem_nil, or_false, not_or] at hdel ⊢
      tauto
    have hs : Splits O argv (fun j => presence (argv.getD j .nil)) counted := by
      refine splits_keys O h hset (fun _ => rfl) fun argv' st hn => ?_
      rw [perform, hn, if_neg hdel, if_pos hexists]
    exact hs.transparent h stores horder fun f => hsum f hfan

/-- Objects that are strings. -/
def strings : Objects Bytes where
  ofBytes b := b
  bulk o := bulkString ((o.map Slice.mk).getD .nil)

/-- One key is assigned twice, with a key of another slot in between. -/
def setTwice : Argv := ["MSET", "a", "1", "bb", "2", "a", "3"].map arg

theorem fanOut_eq_perform_setTwice :
    FanoutRequest setTwice ∧ [1, 0].Perm (List.range (groupsOf List.length setTwice).length) ∧
      ∃ stores', fanOut strings List.length setTwice [1, 0] (fun _ _ => none) =
          some ((perform strings setTwice (whole List.length fun _ _ => none)).1, stores') ∧
        whole List.length stores' =
          (perform strings setTwice (whole List.length fun _ _ => none)).2 := by
  have h : FanoutRequest setTwice := ⟨by decide, by decide, fun _ => by decide⟩
  have horder : [1, 0].Perm (List.range (groupsOf List.length setTwice).length) := by decide
  exact ⟨h, horder, fanOut_eq_perform strings h List.length _ horder⟩

end RespProxy.Proxy
