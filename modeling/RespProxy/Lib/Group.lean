import Mathlib.Data.List.Basic

/-! # Grouping by key

The elements of a list in groups of equal key. The groups come in the order in
which their keys are first seen, and the elements of a group in the order of
the list.
-/

namespace Group

variable {α κ : Type} [DecidableEq κ]

/-- The groups of `xs` under the key `f`. -/
def groupBy (f : α → κ) (xs : List α) : List (κ × List α) :=
  (xs.map f).eraseDups.map fun k => (k, xs.filter fun x => f x = k)

theorem nodup_eraseDups (xs : List κ) : xs.eraseDups.Nodup := by
  induction h : xs.length using Nat.strongRecOn generalizing xs with
  | _ n ih =>
    cases xs with
    | nil => simp
    | cons x xs =>
      rw [List.eraseDups_cons, List.nodup_cons]
      have hlen : (xs.filter fun b => !b == x).length < n := by
        rw [← h, List.length_cons]
        exact Nat.lt_succ_of_le (List.length_filter_le _ _)
      refine ⟨?_, ih _ hlen _ rfl⟩
      rw [List.mem_eraseDups]
      simp

/-- Different groups have different keys. -/
theorem nodup_keys (f : α → κ) (xs : List α) : ((groupBy f xs).map Prod.fst).Nodup := by
  rw [groupBy, List.map_map]
  simpa [Function.comp_def] using nodup_eraseDups (xs.map f)

/-- The groups are the classes of elements with one key. -/
theorem mem_groupBy {f : α → κ} {xs : List α} {g : κ × List α} :
    g ∈ groupBy f xs ↔ (∃ x ∈ xs, f x = g.1) ∧ g.2 = xs.filter fun x => f x = g.1 := by
  simp only [groupBy, List.mem_map, List.mem_eraseDups]
  constructor
  · rintro ⟨k, ⟨x, hx, rfl⟩, rfl⟩
    exact ⟨⟨x, hx, rfl⟩, rfl⟩
  · rintro ⟨⟨x, hx, hk⟩, hg⟩
    exact ⟨g.1, ⟨x, hx, hk⟩, by rw [← hg]⟩

theorem exists_group {f : α → κ} {xs : List α} {x : α} (hx : x ∈ xs) :
    ∃ g ∈ groupBy f xs, g.1 = f x :=
  ⟨(f x, xs.filter fun y => f y = f x), mem_groupBy.2 ⟨⟨x, hx, rfl⟩, rfl⟩, rfl⟩

theorem perm_filter_mem (f : α → κ) (xs : List α) {ks : List κ} (hks : ks.Nodup) :
    (ks.flatMap fun k => xs.filter fun x => f x = k).Perm (xs.filter fun x => f x ∈ ks) := by
  induction ks with
  | nil => simp
  | cons k ks ih =>
    rw [List.nodup_cons] at hks
    have hhead : (xs.filter fun x => f x ∈ k :: ks).filter (fun x => f x = k) =
        xs.filter fun x => f x = k := by
      rw [List.filter_filter]
      refine List.filter_congr fun x _ => ?_
      grind
    have htail : (xs.filter fun x => f x ∈ k :: ks).filter (fun x => !decide (f x = k)) =
        xs.filter fun x => f x ∈ ks := by
      rw [List.filter_filter]
      refine List.filter_congr fun x _ => ?_
      grind
    have hsplit := List.filter_append_perm (fun x => decide (f x = k))
      (xs.filter fun x => f x ∈ k :: ks)
    rw [hhead, htail] at hsplit
    rw [List.flatMap_cons]
    exact ((ih hks.2).append_left _).trans hsplit

/-- The groups together are the list. -/
theorem flatMap_groupBy_perm (f : α → κ) (xs : List α) :
    ((groupBy f xs).flatMap Prod.snd).Perm xs := by
  rw [groupBy, List.flatMap_map]
  refine (perm_filter_mem f xs (nodup_eraseDups _)).trans ?_
  rw [List.filter_eq_self.2]
  intro x hx
  simpa using ⟨x, hx, rfl⟩

/-- A key that occurs is found, with one of its values. -/
theorem exists_lookup_of_mem {β : Type} {l : List (κ × β)} {k : κ} {v : β} (h : (k, v) ∈ l) :
    ∃ w, l.lookup k = some w ∧ (k, w) ∈ l := by
  induction l with
  | nil => cases h
  | cons x l ih =>
    obtain ⟨k', v'⟩ := x
    rw [List.lookup_cons]
    by_cases hk : k = k'
    · subst hk
      exact ⟨v', by simp, List.mem_cons_self⟩
    · obtain ⟨w, hw, hmem⟩ := ih ((List.mem_cons.1 h).resolve_left fun he => hk (Prod.ext_iff.1 he).1)
      refine ⟨w, ?_, List.mem_cons_of_mem _ hmem⟩
      rwa [beq_false_of_ne hk]

end Group
