import Mathlib.Data.List.Basic
import Mathlib.Logic.Function.Basic

/-! # Tokens in custody

Tokens that are made once and then handed around: they lie on a shelf, somebody carries
them, or they are gone. `Custody` says that every token is in exactly one of these places;
it is kept by every hand-over of one token. So two carriers never have the same token, and
once the shelf is empty and nobody carries one, all of them are gone.
-/

universe u v

variable {ι : Type u} {κ : Type v}

/-- Every token that was made is on the shelf, with one carrier, or gone, and in only one of
these places. -/
structure Custody (shelf : List κ) (carried : ι → Option κ) (gone made : List κ) : Prop where
  shelf_nodup : shelf.Nodup
  carrier_unique : ∀ {i j c}, carried i = some c → carried j = some c → i = j
  not_carried : ∀ {i c}, c ∈ shelf → carried i ≠ some c
  not_back : ∀ {c}, c ∈ gone → c ∉ shelf ∧ ∀ i, carried i ≠ some c
  mem_made : ∀ {c}, c ∈ made ↔ c ∈ shelf ∨ c ∈ gone ∨ ∃ i, carried i = some c

namespace Custody

variable {shelf shelf' gone made : List κ} {carried : ι → Option κ} {i j : ι} {c : κ}

/-- The tokens on the shelf at first. -/
theorem start (h : (shelf ++ gone).Nodup) :
    Custody shelf (fun _ : ι => none) gone (shelf ++ gone) where
  shelf_nodup := (List.nodup_append.1 h).1
  carrier_unique hi := by cases hi
  not_carried _ hi := by cases hi
  not_back hc := ⟨fun hs => (List.nodup_append.1 h).2.2 _ hs _ hc rfl, fun _ hi => by cases hi⟩
  mem_made := by simp

/-- All tokens are gone. -/
theorem all_gone (h : Custody shelf carried gone made) (hshelf : shelf = [])
    (hcarried : ∀ i, carried i = none) (hc : c ∈ made) : c ∈ gone := by
  rcases h.mem_made.1 hc with hs | hg | ⟨i, hi⟩
  · rw [hshelf] at hs
    cases hs
  · exact hg
  · rw [hcarried i] at hi
    cases hi

/-- The order on the shelf does not matter. -/
theorem perm (h : Custody shelf carried gone made) (hperm : shelf.Perm shelf') :
    Custody shelf' carried gone made where
  shelf_nodup := hperm.nodup h.shelf_nodup
  carrier_unique := h.carrier_unique
  not_carried hc := h.not_carried (hperm.mem_iff.2 hc)
  not_back hc := ⟨fun hs => (h.not_back hc).1 (hperm.mem_iff.2 hs), (h.not_back hc).2⟩
  mem_made := by
    intro c
    rw [h.mem_made, hperm.mem_iff]

/-- A new token is laid on the shelf. -/
theorem make (h : Custody shelf carried gone made) (hc : c ∉ made) :
    Custody (c :: shelf) carried gone (c :: made) := by
  rw [h.mem_made, not_or, not_or, not_exists] at hc
  obtain ⟨hshelf, hgone, hfree⟩ := hc
  constructor
  · exact List.nodup_cons.2 ⟨hshelf, h.shelf_nodup⟩
  · exact h.carrier_unique
  · grind [h.not_carried]
  · grind [h.not_back]
  · grind [h.mem_made]

/-- From the shelf to where no token comes back from. -/
theorem clear (h : Custody (c :: shelf) carried gone made) :
    Custody shelf carried (c :: gone) made := by
  constructor
  · exact (List.nodup_cons.1 h.shelf_nodup).2
  · exact h.carrier_unique
  · grind [h.not_carried]
  · -- it was on the shelf once and nowhere else
    grind [h.not_back, h.not_carried, List.nodup_cons.1 h.shelf_nodup]
  · grind [h.mem_made]

variable [DecidableEq ι]

/-- Who carries a token behind a hand-over. -/
theorem update_eq_some {o : Option κ} : Function.update carried i o j = some c ↔
    (j = i ∧ o = some c) ∨ (j ≠ i ∧ carried j = some c) := by
  by_cases hj : j = i
  · subst hj
    simp
  · simp [hj]

theorem exists_update {o : Option κ} : (∃ j, Function.update carried i o j = some c) ↔
    o = some c ∨ ∃ j, j ≠ i ∧ carried j = some c := by
  simp only [update_eq_some, exists_or, exists_eq_left]

/-- From the shelf to a carrier. -/
theorem take (h : Custody (c :: shelf) carried gone made) (hi : carried i = none) :
    Custody shelf (Function.update carried i (some c)) gone made := by
  have hnodup := List.nodup_cons.1 h.shelf_nodup
  constructor
  · exact hnodup.2
  · grind [update_eq_some, h.carrier_unique, h.not_carried]
  · grind [update_eq_some, h.not_carried]
  · grind [update_eq_some, h.not_back]
  · intro c'
    rw [exists_update]
    grind [h.mem_made]

/-- From a carrier to the shelf. -/
theorem lay (h : Custody shelf carried gone made) (hi : carried i = some c) :
    Custody (c :: shelf) (Function.update carried i none) gone made := by
  constructor
  · exact List.nodup_cons.2 ⟨fun hs => h.not_carried hs hi, h.shelf_nodup⟩
  · grind [update_eq_some, h.carrier_unique]
  · grind [update_eq_some, h.not_carried, h.carrier_unique]
  · grind [update_eq_some, h.not_back]
  · intro c'
    rw [exists_update]
    grind [h.mem_made]

/-- From one carrier to another. -/
theorem pass (h : Custody shelf carried gone made) (hi : carried i = some c)
    (hj : Function.update carried i none j = none) :
    Custody shelf (Function.update (Function.update carried i none) j (some c)) gone made :=
  (h.lay hi).take hj

/-- From a carrier to where no token comes back from. -/
theorem discard (h : Custody shelf carried gone made) (hi : carried i = some c) :
    Custody shelf (Function.update carried i none) (c :: gone) made :=
  (h.lay hi).clear

end Custody
