import RespProxy.Command.Keys

/-! # The positions of keys, in order

Ten extractors compute positions from a table entry, from a number the client sends, or
by looking for option words. Whatever they find is in order and inside the command
(`Ascends`), so no key is read out of range and none is found twice.
-/

namespace RespProxy.Command

/-- The positions are in order, and from `start` up to `stop`. -/
structure Ascends (start stop : Nat) (idx : List Nat) : Prop where
  sorted : idx.Pairwise (· < ·)
  bounds : ∀ i ∈ idx, start ≤ i ∧ i < stop

variable {start mid stop : Nat} {idx idx' : List Nat} {argv : Argv}

theorem Ascends.nil : Ascends start stop [] := ⟨.nil, by simp⟩

theorem Ascends.one {i : Nat} (h : start ≤ i) (h' : i < stop) : Ascends start stop [i] :=
  ⟨List.pairwise_singleton _ _, by simp [h, h']⟩

theorem Ascends.mono {start' stop' : Nat} (h : Ascends start stop idx) (hstart : start' ≤ start)
    (hstop : stop ≤ stop') : Ascends start' stop' idx := by
  refine ⟨h.sorted, fun i hi => ?_⟩
  have := h.bounds i hi
  omega

theorem Ascends.append (h : Ascends start stop idx) (h' : Ascends mid stop idx')
    (hlt : ∀ i ∈ idx, i < mid) (hstart : start ≤ mid) : Ascends start stop (idx ++ idx') := by
  refine ⟨List.pairwise_append.2 ⟨h.sorted, h'.sorted, fun i hi j hj => ?_⟩, fun i hi => ?_⟩
  · have := hlt i hi
    have := h'.bounds j hj
    omega
  · rcases List.mem_append.1 hi with hi | hi
    · exact h.bounds i hi
    · have := h'.bounds i hi
      omega

theorem Ascends.cons {i : Nat} (h : Ascends (i + 1) stop idx) (hi : start ≤ i) (hstop : i < stop) :
    Ascends start stop (i :: idx) :=
  (Ascends.one hi hstop).append h (by simp) (by omega)

/-! ## Ranges and table entries -/

theorem mem_positions {start stop i : Nat} : i ∈ positions start stop ↔ start ≤ i ∧ i < stop := by
  rw [positions, List.mem_map]
  constructor
  · rintro ⟨j, hj, rfl⟩
    have := List.mem_range.1 hj
    omega
  · rintro ⟨h₁, h₂⟩
    exact ⟨i - start, List.mem_range.2 (by omega), by omega⟩

theorem mem_indexesBySpec {argv : Argv} {sp : KeySpec} {i : Nat} (h : i ∈ indexesBySpec argv sp) :
    0 < sp.first ∧ sp.first ≤ i ∧ i < argv.length ∧
      (i - sp.first) % (if sp.step = 0 then 1 else sp.step) = 0 ∧
      (0 < sp.last → (i : Int) ≤ sp.last) := by
  unfold indexesBySpec at h
  split at h
  · cases h
  rename_i hfirst
  dsimp only at h
  generalize hstep : (if sp.step = 0 then 1 else sp.step) = step at h ⊢
  have hpos : 0 < step := by
    rw [← hstep]
    split <;> omega
  generalize hlast : (if sp.last = 0 then (sp.first : Int)
    else if sp.last < 0 then argv.length + sp.last else sp.last) = last at h
  split at h
  · cases h
  rename_i hrange
  simp only [not_or, Nat.not_le, Int.not_lt] at hrange
  obtain ⟨j, hj, rfl⟩ := List.mem_map.1 h
  have hle : step * j ≤ min last.toNat (argv.length - 1) - sp.first := by
    have := List.mem_range.1 hj
    calc step * j ≤ step * ((min last.toNat (argv.length - 1) - sp.first) / step) :=
          Nat.mul_le_mul_left step (by omega)
      _ ≤ _ := Nat.mul_div_le _ _
  refine ⟨by omega, by omega, by omega, ?_, ?_⟩
  · rw [Nat.add_sub_cancel_left]
    exact Nat.mul_mod_right _ _
  · intro hpos
    rw [if_neg (by omega), if_neg (by omega)] at hlast
    omega

theorem pairwise_indexesBySpec (argv : Argv) (sp : KeySpec) :
    (indexesBySpec argv sp).Pairwise fun a b => a + (if sp.step = 0 then 1 else sp.step) ≤ b := by
  unfold indexesBySpec
  dsimp only
  generalize (if sp.step = 0 then 1 else sp.step) = step
  generalize (if sp.last = 0 then (sp.first : Int)
    else if sp.last < 0 then argv.length + sp.last else sp.last) = last
  split
  · exact .nil
  split
  · exact .nil
  · rw [List.pairwise_map]
    refine List.pairwise_lt_range.imp fun {i j} hij => ?_
    have := Nat.mul_le_mul_left step (Nat.succ_le_of_lt hij)
    rw [Nat.mul_succ] at this
    omega

theorem positions_ascends (h : start ≤ mid) : Ascends start stop (positions mid stop) := by
  refine ⟨?_, fun i hi => ?_⟩
  · rw [positions, List.pairwise_map]
    exact List.pairwise_lt_range.imp fun hij => by omega
  · have := mem_positions.1 hi
    omega

theorem indexesBySpec_ascends (argv : Argv) (sp : KeySpec) :
    Ascends 1 argv.length (indexesBySpec argv sp) := by
  refine ⟨(pairwise_indexesBySpec argv sp).imp fun hij => ?_, fun i hi => ?_⟩
  · split at hij <;> omega
  · obtain ⟨hfirst, hle, hlt, -⟩ := mem_indexesBySpec hi
    omega

/-! ## The extractors -/

theorem findFold_bounds {w : String} {i : Nat} (h : findFold argv start w = some i) :
    start ≤ i ∧ i < argv.length := by
  obtain ⟨j, hj, rfl⟩ := Option.map_eq_some_iff.1 h
  have hlt := (List.findIdx?_eq_some_iff_getElem.1 hj).1
  rw [List.length_drop] at hlt
  omega

theorem evalKeyIdx_ascends (argv : Argv) : Ascends 1 argv.length (evalKeyIdx argv) := by
  unfold evalKeyIdx
  split
  · exact .nil
  split
  · exact .nil
  · exact (positions_ascends (by decide)).mono (Nat.le_refl 1) (by omega)

theorem xreadKeyIdx_ascends (argv : Argv) : Ascends 1 argv.length (xreadKeyIdx argv) := by
  unfold xreadKeyIdx
  split
  · exact .nil
  next i hi =>
  have := findFold_bounds hi
  dsimp only
  split
  · exact .nil
  · exact (positions_ascends (by omega)).mono (Nat.le_refl 1) (by omega)

theorem migrateKeyIdx_ascends (argv : Argv) : Ascends 1 argv.length (migrateKeyIdx argv) := by
  unfold migrateKeyIdx
  split
  · exact .nil
  split
  · exact positions_ascends (by omega)
  split
  · exact .nil
  · exact .one (by decide) (by omega)

theorem numkeysIdx_ascends {k : Nat} (h : numkeysIdx argv k = some idx) :
    Ascends (k + 1) argv.length idx := by
  unfold numkeysIdx at h
  split at h
  · cases h
    exact .nil
  dsimp only at h
  split at h
  · cases h
    exact .nil
  split at h
  · cases h
  · cases h
    exact (positions_ascends (Nat.le_refl _)).mono (Nat.le_refl _) (by omega)

theorem destNumkeysIdx_ascends (h : destNumkeysIdx argv = some idx) :
    Ascends 1 argv.length idx := by
  unfold destNumkeysIdx at h
  split at h
  · cases h
    split
    · exact .one (Nat.le_refl 1) (by omega)
    · exact .nil
  · obtain ⟨rest, hrest, rfl⟩ := Option.map_eq_some_iff.1 h
    exact ((numkeysIdx_ascends hrest).mono (by decide) (Nat.le_refl _)).cons (Nat.le_refl 1) (by omega)

theorem scanMatchIdx_ascends (argv : Argv) : Ascends 1 argv.length (scanMatchIdx argv) := by
  unfold scanMatchIdx
  split
  · next i hi =>
    have := findFold_bounds hi
    rw [List.length_dropLast] at this
    exact .one (by omega) (by omega)
  · exact .nil

/-- The options of `SORT`, from position `i` on. -/
theorem sortOptIdx_ascends (i : Nat) (opts : Argv) :
    Ascends (i + 1) (i + opts.length) (sortOptIdx i opts) := by
  -- an option word finds the position behind it, if any
  have hfound : ∀ {c : Prop} [Decidable c] {i n : Nat} {idx : List Nat},
      Ascends (i + 2 + 1) (i + 2 + n) idx →
      Ascends (i + 1) (i + (n + 2)) ((if c then [] else [i + 1]) ++ idx) := by
    intro c _ i n idx h
    split
    · exact h.mono (by omega) (by omega)
    · exact (h.mono (by omega) (by omega)).cons (Nat.le_refl _) (by omega)
  induction i, opts using sortOptIdx.induct with
  | case1 i k v rest hby ih =>
    rw [sortOptIdx, if_pos hby]
    exact hfound ih
  | case2 i k v rest hby hget ih =>
    rw [sortOptIdx, if_neg hby, if_pos hget]
    exact hfound ih
  | case3 i k v rest hby hget hstore ih =>
    rw [sortOptIdx, if_neg hby, if_neg hget, if_pos hstore]
    exact (ih.mono (by omega) (by simp only [List.length_cons]; omega)).cons (Nat.le_refl _)
      (by simp only [List.length_cons]; omega)
  | case4 i k v rest hby hget hstore ih =>
    rw [sortOptIdx, if_neg hby, if_neg hget, if_neg hstore]
    exact ih.mono (by omega) (by simp only [List.length_cons]; omega)
  | case5 i opts hopts =>
    rw [sortOptIdx]
    · exact .nil
    · exact hopts

theorem sortKeyIdx_ascends (argv : Argv) : Ascends 1 argv.length (sortKeyIdx argv) := by
  have hopts := sortOptIdx_ascends 2 (argv.drop 2)
  rw [List.length_drop] at hopts
  unfold sortKeyIdx
  split
  · exact (hopts.mono (by decide) (by omega)).cons (Nat.le_refl 1) (by omega)
  · have hnil : argv.drop 2 = [] := List.drop_eq_nil_of_le (by omega)
    rw [hnil]
    exact .nil

theorem storeOptionIdx_ascends (argv : Argv) : Ascends 2 argv.length (storeOptionIdx argv) := by
  refine ⟨?_, fun i hi => ?_⟩
  · rw [storeOptionIdx, List.pairwise_map]
    have hpos : Ascends 1 (argv.length - 1) (positions 1 (argv.length - 1)) :=
      positions_ascends (Nat.le_refl 1)
    exact (hpos.sorted.filter _).imp fun hij => by omega
  · obtain ⟨j, hj, rfl⟩ := List.mem_map.1 hi
    have := mem_positions.1 (List.mem_filter.1 hj).1
    omega

/-- **The positions of the keys of a command are in order and inside it.** -/
theorem keyIndexes_ascends (h : keyIndexes argv = some idx) : Ascends 1 argv.length idx := by
  have hsome : ∀ {l : List Nat}, Ascends 1 argv.length l → some l = some idx →
      Ascends 1 argv.length idx := by
    rintro l hl ⟨⟩
    exact hl
  have hnumkeys : ∀ {k : Nat}, numkeysIdx argv k = some idx → Ascends 1 argv.length idx :=
    fun h => (numkeysIdx_ascends h).mono (by omega) (Nat.le_refl _)
  have hone : ∀ {p : Prop} [Decidable p] {n : Nat}, 1 ≤ n → (p → n < argv.length) →
      Ascends 1 argv.length (if p then [n] else []) := by
    intro p _ n hn hp
    split
    · exact .one hn (hp ‹p›)
    · exact .nil
  -- the chain of alternatives, one after the other
  have halt : ∀ {c : Prop} [Decidable c] {x y : Option (List Nat)},
      (x = some idx → Ascends 1 argv.length idx) → (y = some idx → Ascends 1 argv.length idx) →
      (if c then x else y) = some idx → Ascends 1 argv.length idx := by
    intro c _ x y hx hy
    split <;> assumption
  refine halt (hsome .nil) ?_ h
  refine halt (hsome (evalKeyIdx_ascends argv)) <| halt (hsome (xreadKeyIdx_ascends argv)) ?_
  refine halt (hsome (migrateKeyIdx_ascends argv)) <| halt hnumkeys <| halt hnumkeys ?_
  refine halt destNumkeysIdx_ascends <| halt hnumkeys ?_
  refine halt (hsome (hone (by decide) fun h => h.1)) ?_
  refine halt (hsome (hone (by decide) fun h => h)) ?_
  refine halt (hsome (scanMatchIdx_ascends argv)) <| halt (hsome (sortKeyIdx_ascends argv)) ?_
  cases hl : lookup (nameOf argv) with
  | none =>
    have hstore := (storeOptionIdx_ascends argv).mono (by decide : 1 ≤ 2) (Nat.le_refl _)
    exact halt (hsome hstore) (hsome .nil)
  | some m =>
    have htable := indexesBySpec_ascends argv m.keys
    intro hlast
    dsimp only at hlast
    split at hlast
    · next hgeo =>
      -- the keys behind `STORE` come after the one that the table names
      have hkeys : ∀ w ∈ ["GEORADIUS", "GEORADIUSBYMEMBER"], ∀ m ∈ lookup w, m.keys = spec 1 1 1 := by
        decide
      refine hsome (htable.append (storeOptionIdx_ascends argv) ?_ (by decide)) hlast
      intro i hi
      rw [hkeys _ hgeo m hl] at hi
      have hle := (mem_indexesBySpec hi).2.2.2.2 (by decide)
      exact Nat.lt_succ_of_le (Int.ofNat_le.1 hle)
    · exact hsome htable hlast

end RespProxy.Command
