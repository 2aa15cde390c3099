import RespProxy.Backend.Keyspace
import RespProxy.Proxy.Fanout

/-! # `MSET` with a key too many

A server refuses an `MSET` whose last key has no value, and sets nothing. The proxy splits
the command by slot without counting: only the piece with the last key is refused, and the
others are carried out (`forward_odd_iff`).

The pieces run at the same time, each on the keys of its own slot, so what they come to
does not depend on the order.
-/

namespace RespProxy.Proxy

open Backend Cluster Command Resp Interact

/-! ## `MSET` on keys -/

section

variable {Val : Type} {C : Codec Val} {K K' : Keys Val} {k : Bytes} {p : Argv}

/-- The keys that are assigned. -/
def assigned : List Bytes → List Bytes
  | k :: _ :: rest => k :: assigned rest
  | _ => []

theorem assign_agree (h : K k = K' k) (args : List Bytes) :
    assign C K args k = assign C K' args k := by
  induction args using assigned.induct generalizing K K' with
  | case1 k' v rest ih =>
    refine ih ?_
    by_cases hk : k = k'
    · subst hk
      simp
    · simp [hk, h]
  | case2 args hargs =>
    rw [assign.eq_2 _ _ _ hargs, assign.eq_2 _ _ _ hargs]
    exact h

theorem assign_other {args : List Bytes} (h : k ∉ assigned args) : assign C K args k = K k := by
  induction args using assigned.induct generalizing K with
  | case1 k' v rest ih =>
    obtain ⟨hne, hrest⟩ := not_or.1 (mt List.mem_cons.2 h)
    exact (ih hrest).trans (Function.update_of_ne hne _ _)
  | case2 args hargs => rw [assign.eq_2 _ _ _ hargs]

/-- The arguments as the server sees them. -/
def argsOf (p : Argv) : List Bytes := (p.drop 1).map Slice.bytes

theorem serve_mset (hn : nameOf p = "MSET") : serve C p K =
    if Slice.nil ∈ p then (error "ERR Protocol error: expected '$', got '-'", K)
    else msetOn C K (argsOf p) := by
  rw [serve, hn]
  rfl

theorem serve_mset_reply (hn : nameOf p = "MSET") : (serve C p K).1 = (serve C p K').1 := by
  rw [serve_mset hn, serve_mset hn]
  unfold msetOn
  split
  · rfl
  · split <;> rfl

theorem serve_mset_agree (hn : nameOf p = "MSET") (h : K k = K' k) :
    (serve C p K).2 k = (serve C p K').2 k := by
  rw [serve_mset hn, serve_mset hn]
  unfold msetOn
  split
  · exact h
  · split
    · exact h
    · exact assign_agree h _

/-- A command with a key too many is refused. -/
theorem serve_mset_even (hn : nameOf p = "MSET") (heven : p.length % 2 = 0) :
    (serve C p K).1.isError = true ∧ (serve C p K).2 = K := by
  have hodd : argsOf p = [] ∨ (argsOf p).length % 2 = 1 := by
    cases p with
    | nil => exact .inl rfl
    | cons a rest =>
      refine .inr ?_
      simp only [List.length_cons] at heven
      simp only [argsOf, List.drop_one, List.tail_cons, List.length_map]
      omega
  rw [serve_mset hn, msetOn, if_pos hodd]
  split
  · exact ⟨rfl, rfl⟩
  · exact ⟨rfl, rfl⟩

/-- The command changes nothing: it has a null argument or a key too many, or the keys
hold their values already. -/
def Redundant (C : Codec Val) (K : Keys Val) (p : Argv) : Prop :=
  Slice.nil ∈ p ∨ p.length % 2 = 0 ∨ assign C K (argsOf p) = K

theorem redundant_iff (hn : nameOf p = "MSET") : Redundant C K p ↔ (serve C p K).2 = K := by
  by_cases heven : p.length % 2 = 0
  · exact iff_of_true (.inr (.inl heven)) (serve_mset_even hn heven).2
  rw [serve_mset hn]
  by_cases hnil : Slice.nil ∈ p
  · rw [if_pos hnil]
    exact iff_of_true (.inl hnil) rfl
  rw [if_neg hnil, Redundant, or_iff_right hnil, or_iff_right heven, msetOn]
  split
  · rename_i hargs
    refine iff_of_true ?_ rfl
    rcases hargs with hargs | hargs
    · rw [hargs]
      rfl
    · simp only [argsOf, List.length_map, List.length_drop] at hargs
      omega
  · rfl

end

/-! ## The pieces -/

section

variable {argv : Argv} {slotFn : Slice → Nat}

/-- An `MSET` whose last key has no value. -/
structure OddMset (argv : Argv) : Prop where
  name : nameOf argv = "MSET"
  even : argv.length % 2 = 0
  two : 2 ≤ argv.length

/-- The positions of the keys that have a value. -/
def paired (argv : Argv) : List Nat := (List.range (argv.length / 2 - 1)).map fun i => 1 + 2 * i

theorem mem_splitNames (h : OddMset argv) : nameOf argv ∈ splitNames := by
  rw [h.name]
  decide

theorem keyIndexes_odd (h : OddMset argv) :
    keyIndexes argv = some (paired argv ++ [argv.length - 1]) := by
  have htwo := h.two
  have heven := h.even
  rw [keyIndexes_split (mem_splitNames h), if_pos h.name, indexesBySpec_strided htwo (by decide)]
  have hcount : (argv.length - 2) / 2 + 1 = (argv.length / 2 - 1) + 1 := by omega
  rw [hcount, List.range_succ, List.map_append, paired, List.map_singleton]
  congr 3
  omega

theorem extractKeys_odd (h : OddMset argv) : extractKeys argv =
    some ((paired argv ++ [argv.length - 1]).map fun j => argv.getD j .nil) := by
  rw [extractKeys, keyIndexes_odd h, Option.map_some]

/-- The keys of a slot that have a value. -/
def pairedIn (slotFn : Slice → Nat) (argv : Argv) (s : Nat) : List Nat :=
  (paired argv).filter fun j => slotFn (argv.getD j .nil) = s

/-- The piece of a slot: its keys with their values, and maybe the last key. -/
def pieceFor (slotFn : Slice → Nat) (argv : Argv) (s : Nat) : Argv :=
  argv.headD .nil :: (pairedIn slotFn argv s).flatMap
    (fun j => [argv.getD j .nil, argv.getD (j + 1) .nil]) ++
      if slotFn (argv.getD (argv.length - 1) .nil) = s then [argv.getD (argv.length - 1) .nil]
      else []

theorem take_two {l : List Slice} {j : Nat} (h : j + 1 < l.length) :
    (l.drop j).take 2 = [l.getD j .nil, l.getD (j + 1) .nil] := by
  rw [List.drop_eq_getElem_cons (by omega), List.drop_eq_getElem_cons h,
    List.getD_eq_getElem?_getD, List.getElem?_eq_getElem (by omega), List.getD_eq_getElem?_getD,
    List.getElem?_eq_getElem h]
  rfl

theorem mem_paired {j : Nat} (h : j ∈ paired argv) : j + 2 < argv.length := by
  obtain ⟨i, hi, rfl⟩ := List.mem_map.1 h
  have := List.mem_range.1 hi
  omega

theorem rebuildFanoutArgv_odd (h : OddMset argv) {g : KeyGroup}
    (hg : g ∈ groupBySlot ((paired argv ++ [argv.length - 1]).map fun j => argv.getD j .nil)
      slotFn) : rebuildFanoutArgv argv g = some (pieceFor slotFn argv g.slot) := by
  have htwo := h.two
  have hfan : fanoutOf argv = .mset := by
    obtain ⟨m, hm, -, hfanout⟩ := lookup_split (mem_splitNames h)
    rw [fanoutOf, hm]
    exact hfanout.2 h.name
  have hpair : ∀ j ∈ pairedIn slotFn argv g.slot,
      (argv.drop j).take 2 = [argv.getD j .nil, argv.getD (j + 1) .nil] := by
    intro j hj
    have := mem_paired (List.mem_filter.1 hj).1
    exact take_two (by omega)
  have hlast : (argv.drop (argv.length - 1)).take 2 = [argv.getD (argv.length - 1) .nil] := by
    rw [List.drop_eq_getElem_cons (by omega), List.getD_eq_getElem?_getD,
      List.getElem?_eq_getElem (by omega)]
    simp [show argv.length - 1 + 1 = argv.length by omega]
  have hargs : ((paired argv ++ [argv.length - 1]).filter fun j =>
      slotFn (argv.getD j .nil) = g.slot).flatMap (fun j => (argv.drop j).take 2) =
        (pairedIn slotFn argv g.slot).flatMap
          (fun j => [argv.getD j .nil, argv.getD (j + 1) .nil]) ++
            if slotFn (argv.getD (argv.length - 1) .nil) = g.slot then
              [argv.getD (argv.length - 1) .nil] else [] := by
    rw [List.filter_append, List.flatMap_append, ← pairedIn, List.flatMap_congr hpair]
    congr 1
    split
    · rename_i hslot
      rw [List.filter_cons_of_pos (by exact decide_eq_true hslot), List.filter_nil,
        List.flatMap_singleton, hlast]
    · rename_i hslot
      rw [List.filter_cons_of_neg (by rw [decide_eq_true_iff]; exact hslot), List.filter_nil]
      rfl
  have hidx := keyIndexes_odd h
  cases argv with
  | nil => exact absurd htwo (by simp)
  | cons a rest =>
    rw [rebuildFanoutArgv, hidx, Option.map_some]
    dsimp only
    rw [filterMap_index hg, hfan]
    simp only [if_true, hargs]
    rfl

theorem length_pairs (js : List Nat) (a b : Nat → Slice) :
    (js.flatMap fun j => [a j, b j]).length = 2 * js.length := by
  induction js with
  | nil => rfl
  | cons j js ih => simp [ih]; omega

theorem assigned_pairs (js : List Nat) (a b : Nat → Slice) :
    assigned ((js.flatMap fun j => [a j, b j]).map Slice.bytes) = js.map fun j => (a j).bytes := by
  induction js with
  | nil => rfl
  | cons j js ih => simpa [assigned] using ih

variable {s : Nat}

theorem nameOf_pieceFor (h : OddMset argv) : nameOf (pieceFor slotFn argv s) = "MSET" := by
  refine Eq.trans ?_ h.name
  cases argv with
  | nil => exact absurd h.two (by simp)
  | cons a rest => rfl

/-- The piece with the last key has a key too many. -/
theorem pieceFor_last (h : slotFn (argv.getD (argv.length - 1) .nil) = s) :
    (pieceFor slotFn argv s).length % 2 = 0 := by
  rw [pieceFor, if_pos h]
  simp only [List.cons_append, List.length_cons, List.length_append, length_pairs, List.length_nil]
  omega

/-- The other pieces assign keys of their slot. -/
theorem pieceFor_other (h : slotFn (argv.getD (argv.length - 1) .nil) ≠ s) {k : Bytes}
    (hk : k ∈ assigned (argsOf (pieceFor slotFn argv s))) :
    ∃ a : Slice, a.bytes = k ∧ slotFn a = s := by
  rw [pieceFor, if_neg h, List.append_nil, argsOf, List.drop_one, List.tail_cons,
    assigned_pairs] at hk
  obtain ⟨j, hj, rfl⟩ := List.mem_map.1 hk
  exact ⟨_, rfl, of_decide_eq_true (List.mem_filter.1 hj).2⟩

end

/-! ## All pieces at once -/

section

variable {Val : Type} {C : Codec Val} {cfg : Config} {K : Keys Val} {argv : Argv}

/-- The slot of a key. -/
def keySlotOf (cfg : Config) (k : Bytes) : Nat := slotOf cfg (.mk k)

/-- A piece leaves the keys of other slots alone. -/
theorem serve_pieceFor (h : OddMset argv) {s : Nat} {k : Bytes} (hk : keySlotOf cfg k ≠ s) :
    (serve C (pieceFor (slotOf cfg) argv s) K).2 k = K k := by
  have hn : nameOf (pieceFor (slotOf cfg) argv s) = "MSET" := nameOf_pieceFor h
  by_cases hlast : slotOf cfg (argv.getD (argv.length - 1) .nil) = s
  · rw [(serve_mset_even hn (pieceFor_last hlast)).2]
  · rw [serve_mset hn]
    unfold msetOn
    split
    · rfl
    · split
      · rfl
      · refine assign_other fun hmem => hk ?_
        obtain ⟨a, rfl, ha⟩ := pieceFor_other hlast hmem
        exact ha

variable {src : Origin}

/-- The requests of a piece leave the keys of other slots alone. -/
theorem acts_other (h : OddMset argv) {s : Nat} {k : Bytes} (hk : keySlotOf cfg k ≠ s) {e : Event}
    {st st' : State Val} (he : ReadsFor { argv := pieceFor (slotOf cfg) argv s, src } e)
    (hacts : Acts C faultless st e st') : st'.keys k = st.keys k := by
  obtain hkeep | ⟨c, f, v, rfl, rfl⟩ := acts_faultless hacts
  · rw [hkeep]
  · rw [run_keys]
    obtain rfl | rfl := he
    · exact serve_pieceFor h hk
    · exact congrFun (serve_asking st.keys) k

/-- A request of the piece of another slot. -/
def OfOthers (cfg : Config) (argv : Argv) (src : Origin) (slots : List Nat) (s : Nat) (e : Event) :
    Prop :=
  ∃ s' ∈ slots, s' ≠ s ∧ ReadsFor { argv := pieceFor (slotOf cfg) argv s', src } e

/-- The piece of the slot `s` was carried out on the keys `K`. -/
def Done (C : Codec Val) (cfg : Config) (argv : Argv) (K : Keys Val) (s : Nat)
    (x : Except Err Value) (st : State Val) : Prop :=
  x = .ok (serve C (pieceFor (slotOf cfg) argv s) K).1 ∧ ∀ k, keySlotOf cfg k = s →
    st.keys k = (serve C (pieceFor (slotOf cfg) argv s) K).2 k

variable {slots : List Nat} {s : Nat}

theorem slot_stable (h : OddMset argv) (f : Keys Val) :
    Stable (Steps (Acts C faultless) (OfOthers cfg argv src slots s)) fun st : State Val =>
      ∀ k, keySlotOf cfg k = s → st.keys k = f k := by
  refine stable_steps ?_
  rintro e st st' ⟨s', -, hne, he⟩ hst hacts k hk
  rw [acts_other h (fun h => hne (h.symm.trans hk)) he hacts]
  exact hst k hk

/-- One piece, while those of other slots run. -/
theorem exec_piece (hcfg : cfg.Valid) (h : OddMset argv) (read : Bool) :
    Triple (Steps (Acts C faultless) (OfOthers cfg argv src slots s)) (Acts C faultless)
      (fun st => st.keys = K) (exec cfg s { argv := pieceFor (slotOf cfg) argv s, src } read)
      (Done C cfg argv K s) := by
  have hn : nameOf (pieceFor (slotOf cfg) argv s) = "MSET" := nameOf_pieceFor h
  refine Triple.mono (P := fun st => ∀ k, keySlotOf cfg k = s → st.keys k = K k) ?_
    (fun st hst k _ => congrFun hst k) fun _ _ hst => hst
  refine exec_rule hcfg (slot_stable h K) (fun x st st' hrely hst =>
    ⟨hst.1, slot_stable h _ st st' hrely hst.2⟩) ?_ s read
  refine ⟨fun st hst _ => ⟨congrArg Except.ok (serve_mset_reply hn), fun k hk => ?_⟩,
    fun _ _ _ h => h.elim, fun _ _ _ h => h.elim, fun _ _ _ h => h.elim, fun _ _ _ h => h.elim⟩
  rw [run_keys]
  exact serve_mset_agree hn (hst k hk)

theorem pieces_events (read : Bool) :
    (Prog.parList (slots.map fun s =>
        exec cfg s { argv := pieceFor (slotOf cfg) argv s, src } read)).Ensures (fun _ => True)
      (fun e => ∃ s ∈ slots, ReadsFor { argv := pieceFor (slotOf cfg) argv s, src } e)
      fun _ => True := by
  refine (Prog.ensures_parList (R := fun _ _ => True) fun s hs => ?_).mono
    (fun _ _ he => he) fun _ _ => trivial
  exact (exec_readsFor cfg s read).mono (fun e _ he => ⟨s, hs, he⟩) fun _ _ => trivial

/-- All pieces. -/
theorem pieces_done (hcfg : cfg.Valid) (h : OddMset argv) (hslots : slots.Nodup) (read : Bool) :
    Triple Eq (Acts C faultless) (fun st => st.keys = K)
      (Prog.parList (slots.map fun s =>
        exec cfg s { argv := pieceFor (slotOf cfg) argv s, src } read))
      fun rs st => List.Forall₂ (fun s x => Done C cfg argv K s x st) slots rs ∧
        ∀ k, keySlotOf cfg k ∉ slots → st.keys k = K k := by
  refine (triple_parList hslots (fun _ _ _ _ => trivial) (fun s _ => exec_readsFor cfg s read)
    (fun s _ => exec_piece hcfg h read) fun s _ x st st' hrely hst =>
      ⟨hst.1, slot_stable h _ st st' hrely hst.2⟩).and ?_
  refine (triple_idle (P := fun st : State Val => ∀ k, keySlotOf cfg k ∉ slots → st.keys k = K k)
    (pieces_events read) (fun _ _ _ _ => trivial) (stable_eq _) ?_).mono (fun st hst k _ => congrFun hst k)
      fun _ _ hst => hst.1
  rintro e st st' ⟨s, hs, he⟩ hst hacts k hk
  rw [acts_other h (fun h => hk (h ▸ hs)) he hacts]
  exact hst k hk

theorem done_all {rs : List (Except Err Value)} {st : State Val}
    (h : List.Forall₂ (fun s x => Done C cfg argv K s x st) slots rs) :
    rs = slots.map (fun s => .ok (serve C (pieceFor (slotOf cfg) argv s) K).1) ∧
      ∀ s ∈ slots, ∀ k, keySlotOf cfg k = s →
        st.keys k = (serve C (pieceFor (slotOf cfg) argv s) K).2 k := by
  induction h with
  | nil => exact ⟨rfl, fun _ h => (List.not_mem_nil h).elim⟩
  | cons hx _ ih =>
    refine ⟨by rw [List.map_cons, ← ih.1, hx.1], fun s hs => ?_⟩
    rcases List.mem_cons.1 hs with rfl | hs
    · exact hx.2
    · exact ih.2 s hs

/-- The pieces change nothing exactly if each of them changes nothing. -/
theorem unchanged_iff (h : OddMset argv) {K' : Keys Val}
    (hslots : ∀ s ∈ slots, ∀ k, keySlotOf cfg k = s →
      K' k = (serve C (pieceFor (slotOf cfg) argv s) K).2 k)
    (hrest : ∀ k, keySlotOf cfg k ∉ slots → K' k = K k) :
    K' = K ↔ ∀ s ∈ slots, (serve C (pieceFor (slotOf cfg) argv s) K).2 = K := by
  constructor
  · rintro rfl s hs
    funext k
    by_cases hk : keySlotOf cfg k = s
    · exact (hslots s hs k hk).symm
    · exact serve_pieceFor h hk
  · intro hkeep
    funext k
    by_cases hk : keySlotOf cfg k ∈ slots
    · rw [hslots _ hk k rfl, hkeep _ hk]
    · exact hrest k hk

/-! ## The command -/

/-- The pieces of a command. -/
def pieces (cfg : Config) (argv : Argv) : List Argv :=
  (groupBySlot ((extractKeys argv).getD []) (slotOf cfg)).filterMap (rebuildFanoutArgv argv)

/-- The slots of the keys. -/
def slotsOf (cfg : Config) (keys : List Slice) : List Nat :=
  (groupBySlot keys (slotOf cfg)).map KeyGroup.slot

variable {keys : List Slice}

theorem last_mem (h : OddMset argv) (hkeys : extractKeys argv = some keys) :
    argv.getD (argv.length - 1) .nil ∈ keys := by
  cases (extractKeys_odd h).symm.trans hkeys
  exact List.mem_map.2 ⟨_, List.mem_append_right _ List.mem_cons_self, rfl⟩

theorem rebuild_all (h : OddMset argv) (hkeys : extractKeys argv = some keys) :
    (groupBySlot keys (slotOf cfg)).mapM (rebuildFanoutArgv argv) =
      some ((groupBySlot keys (slotOf cfg)).map fun g => pieceFor (slotOf cfg) argv g.slot) := by
  cases (extractKeys_odd h).symm.trans hkeys
  exact mapM_eq_some_map fun g hg => rebuildFanoutArgv_odd h hg

theorem pieces_odd (h : OddMset argv) (hkeys : extractKeys argv = some keys) :
    pieces cfg argv = (slotsOf cfg keys).map (pieceFor (slotOf cfg) argv) := by
  rw [pieces, hkeys, Option.getD_some, slotsOf, List.map_map]
  cases (extractKeys_odd h).symm.trans hkeys
  refine (List.filterMap_congr fun g hg => rebuildFanoutArgv_odd h hg).trans ?_
  exact congrFun List.filterMap_eq_map' _

theorem fanoutReply_error {name : String} {db n : Nat} {groups : List KeyGroup}
    {values : List Value} (h : ∃ v ∈ values, v.isError = true) :
    (fanoutReply name db argv n groups values).isError = true := by
  unfold fanoutReply
  cases hfind : values.find? Value.isError with
  | none =>
    obtain ⟨v, hv, herr⟩ := h
    exact absurd herr (List.find?_eq_none.1 hfind v hv)
  | some r =>
    dsimp only
    split
    · rfl
    · exact List.find?_some hfind

variable {s : Session} {c : ClientCmd}

theorem finish_keeps {P : State Val → Prop} (v : Value) :
    Triple Eq (Acts C faultless) P (finish s c.id v) fun _ => P := by
  refine triple_skip (stable_eq _) (fun _ _ _ h => h) fun r => ?_
  cases r with
  | some e => exact triple_ret fun _ h => h
  | none =>
    refine triple_skip (stable_eq _) (fun _ _ _ h => h) fun r => ?_
    cases r with
    | some e => exact triple_ret fun _ h => h
    | none =>
      refine triple_skip (stable_eq _) (fun _ _ _ h => h) fun r => ?_
      cases r <;> exact triple_ret fun _ h => h

/-- The pieces, then the reply. -/
theorem cmdFanout_pieces (h : OddMset argv) (hkeys : extractKeys argv = some keys) :
    cmdFanout cfg s c argv keys =
      (Prog.parList ((slotsOf cfg keys).map fun s' => exec cfg s'
        { argv := pieceFor (slotOf cfg) argv s', src := c.src s }
        (decide (kindOf (nameOf argv) = .read)))).bind fun rs =>
          if errorsOf rs ≠ [] then (pickErr (errorsOf rs)).bind fun e => finish s c.id (errOf e)
          else finish s c.id (fanoutReply c.name s.db argv keys.length
            (groupBySlot keys (slotOf cfg)) (valuesOf rs)) := by
  have hne : groupBySlot keys (slotOf cfg) ≠ [] := by
    intro hnil
    have hslot : slotOf cfg _ ∈ slotsOf cfg keys := slot_mem_groupBySlot _ (last_mem h hkeys)
    rw [slotsOf, hnil] at hslot
    cases hslot
  unfold cmdFanout
  dsimp only
  rw [if_neg hne, rebuild_all h hkeys]
  dsimp only
  rw [zip_map_self, slotsOf, List.map_map]
  rfl

theorem cmdFanout_odd {st st' : State Val} {tr : Trace} {out : Session × Outcome}
    (hcfg : cfg.Valid) (h : OddMset argv) (hkeys : extractKeys argv = some keys)
    (hrun : (cmdFanout cfg s c argv keys).Runs tr out)
    (hpath : Path Eq (Acts C faultless) st tr st') :
    (∀ id v r, (⟨.cwrite id v, r⟩ : Event) ∈ tr → v.isError = true) ∧
      (st'.keys = st.keys ↔ ∀ p ∈ pieces cfg argv, Redundant C st.keys p) := by
  rw [cmdFanout_pieces h hkeys] at hrun
  obtain ⟨t₁, rs, t₂, hrun₁, hrun₂, rfl⟩ := Prog.runs_bind.1 hrun
  obtain ⟨st₁, hpath₁, hpath₂⟩ := path_append.1 hpath
  obtain ⟨hdone, hrest⟩ := pieces_done hcfg h (nodup_slots keys _) _ st t₁ rs st₁ rfl hrun₁ hpath₁
  obtain ⟨hrs, hslots⟩ := done_all hdone
  have herrors : errorsOf rs = [] := by
    rw [hrs, errorsOf, List.filterMap_map]
    exact List.filterMap_eq_nil_iff.2 fun _ _ => rfl
  have hvalues : valuesOf rs = (slotsOf cfg keys).map fun s' =>
      (serve C (pieceFor (slotOf cfg) argv s') st.keys).1 := by
    rw [hrs, valuesOf, List.filterMap_map]
    exact congrFun List.filterMap_eq_map' _
  have herror : ∃ v ∈ valuesOf rs, v.isError = true := by
    rw [hvalues]
    exact ⟨_, List.mem_map_of_mem (slot_mem_groupBySlot _ (last_mem h hkeys)),
      (serve_mset_even (nameOf_pieceFor h) (pieceFor_last rfl)).1⟩
  rw [if_neg (not_not.2 herrors)] at hrun₂
  have hkeep := finish_keeps (P := fun st => st.keys = st₁.keys) _ st₁ t₂ out st' rfl hrun₂ hpath₂
  refine ⟨fun id v r hmem => ?_, ?_⟩
  · rcases List.mem_append.1 hmem with hmem | hmem
    · -- the pieces do not talk to the client
      obtain ⟨s', -, hreads⟩ := ((pieces_events _).runs hrun₁ fun _ _ => trivial).1 _ hmem
      exact hreads.elim
    · have hfoot := ((finish_sends (S := fun _ => True) (R := fun _ v => v.isError = true)
        (A := fun _ => True) (fanoutReply_error herror)).runs hrun₂ fun _ _ => trivial).1 _ hmem
      exact hfoot
  · rw [hkeep, unchanged_iff h hslots hrest, pieces_odd h hkeys]
    constructor
    · intro hall p hp
      obtain ⟨s', hs', rfl⟩ := List.mem_map.1 hp
      exact (redundant_iff (nameOf_pieceFor h)).2 (hall s' hs')
    · intro hall s' hs'
      exact (redundant_iff (nameOf_pieceFor h)).1 (hall _ (List.mem_map_of_mem hs'))

/-- Translation keeps the key without a value. -/
theorem OddMset.rewrite {db : Nat} {out : Argv} (h : OddMset argv)
    (hout : rewriteArgv argv db = some out) : OddMset out := by
  have hlen : out.length = argv.length := by
    unfold rewriteArgv at hout
    split at hout
    · cases hout
      rfl
    · simp only [h.name, String.reduceEq, if_false] at hout
      obtain ⟨idx, -, rfl⟩ := Option.map_eq_some_iff.1 hout
      simp [cloneArgv]
  exact ⟨(nameOf_rewriteArgv hout).trans h.name, hlen ▸ h.even, hlen ▸ h.two⟩

/-- **`MSET` with a key too many.** The reply is an error and nothing changes exactly if
every piece of the command with a value for each key would change nothing. -/
theorem forward_odd_iff {st st' : State Val} {tr : Trace} {out : Session × Outcome}
    (hcfg : cfg.Valid) (h : OddMset c.argv) (hargv : rewriteArgv c.argv s.db = some argv)
    (hkeys : extractKeys argv = some keys) (hcross : crossSlot cfg keys = true)
    (hrun : (forward cfg s c).Runs tr out) (hpath : Path Eq (Acts C faultless) st tr st') :
    ((∀ id v r, (⟨.cwrite id v, r⟩ : Event) ∈ tr → v.isError = true) ∧ st'.keys = st.keys) ↔
      ∀ p ∈ pieces cfg argv, Redundant C st.keys p := by
  have hodd := h.rewrite hargv
  have hfan : fanoutOf argv ≠ .none := by
    obtain ⟨m, hm, -, hmset⟩ := lookup_split (mem_splitNames hodd)
    rw [fanoutOf, hm]
    exact fun hnone => absurd ((hmset.2 hodd.name).symm.trans hnone) (by decide)
  unfold forward at hrun
  rw [hargv] at hrun
  dsimp only at hrun
  rw [hkeys] at hrun
  dsimp only at hrun
  rw [if_pos hcross, if_pos hfan] at hrun
  obtain ⟨herror, hiff⟩ := cmdFanout_odd hcfg hodd hkeys hrun hpath
  rw [← hiff]
  exact and_iff_right herror

end

/-- `MSET a 1 b`: two slots, and `b` has no value. -/
def setOdd : ClientCmd := command 0 ["MSET", "a", "1", "b"]

theorem setOdd_odd : OddMset setOdd.argv := ⟨by decide, by decide, by decide⟩

/-- `a` holds its value already. -/
theorem forward_odd_iff_held :
    ∃ tr out st', (forward seeded (newSession seeded) setOdd).Runs tr out ∧
      Path Eq (Acts stringCodec faultless) (holding [(lit "a", { value := lit "1" })]) tr st' ∧
      (∀ id v r, (⟨.cwrite id v, r⟩ : Event) ∈ tr → v.isError = true) ∧
      st'.keys = (holding [(lit "a", { value := lit "1" })]).keys := by
  obtain ⟨hrun, hpath⟩ := served_run (C := stringCodec) (forward seeded (newSession seeded) setOdd)
    (holding [(lit "a", { value := lit "1" })])
  have hpieces : pieces seeded setOdd.argv =
      [["MSET", "a", "1"].map arg, ["MSET", "b"].map arg] := by decide +kernel
  have hkeys : extractKeys setOdd.argv = some [arg "a", arg "b"] := by decide +kernel
  have hredundant : ∀ p ∈ pieces seeded setOdd.argv, Redundant stringCodec
      (holding [(lit "a", { value := lit "1" })]).keys p := by
    rw [hpieces]
    intro p hp
    rcases List.mem_cons.1 hp with rfl | hp
    · exact .inr (.inr (Function.update_eq_self_iff.2 (by decide)))
    · rw [List.mem_singleton.1 hp]
      exact .inr (.inl rfl)
  obtain ⟨herror, hkept⟩ := (forward_odd_iff seeded_valid setOdd_odd rfl hkeys (by decide +kernel)
    hrun hpath).2 hredundant
  exact ⟨_, _, _, hrun, hpath, herror, hkept⟩

/-- Nothing is stored, and the reply is an error, but `a` is set. -/
theorem odd_mset_sets :
    ∃ tr out st', (forward seeded (newSession seeded) setOdd).Runs tr out ∧
      Path Eq (Acts stringCodec faultless) (holding []) tr st' ∧
      st'.keys (lit "a") = some { value := lit "1" } := by
  obtain ⟨hrun, hpath⟩ := served_run (C := stringCodec) (forward seeded (newSession seeded) setOdd)
    (holding [])
  exact ⟨_, _, _, hrun, hpath, by decide +kernel⟩

end RespProxy.Proxy
