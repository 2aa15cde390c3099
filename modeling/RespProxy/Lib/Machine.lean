import Mathlib.Data.List.Induction

/-! # Machines with labelled steps

A machine is a function that fires a label in a state, or refuses it. The runs
of concurrent code are the sequences of labels that fire one after the other
(`exec`); the scheduler's choices are in the labels.

* `invariant`: what holds at first and is kept by every step holds at the end of
  every run, also if it speaks of the labels so far;
* `Meets`: the runs in which every step meets a condition in the state it is
  fired in.
-/

namespace Machine

universe u v

variable {σ : Type u} {ℓ : Type v} {next : σ → ℓ → Option σ} {s₀ s s' : σ} {l : ℓ} {tr tr' : List ℓ}

/-- Fire the labels one after the other. -/
def exec (next : σ → ℓ → Option σ) (s : σ) (tr : List ℓ) : Option σ := tr.foldlM next s

@[simp] theorem exec_nil : exec next s [] = some s := rfl

theorem exec_cons : exec next s (l :: tr) = some s' ↔
    ∃ s₁, next s l = some s₁ ∧ exec next s₁ tr = some s' := by
  rw [exec, List.foldlM_cons]
  exact Option.bind_eq_some_iff

theorem exec_append : exec next s (tr ++ tr') = some s' ↔
    ∃ s₁, exec next s tr = some s₁ ∧ exec next s₁ tr' = some s' := by
  rw [exec, List.foldlM_append]
  exact Option.bind_eq_some_iff

theorem exec_snoc : exec next s (tr ++ [l]) = some s' ↔
    ∃ s₁, exec next s tr = some s₁ ∧ next s₁ l = some s' := by
  simp [exec_append, exec_cons]

/-- A machine that runs another one under a projection. -/
theorem exec_map {τ : Type*} {next' : τ → ℓ → Option τ} {f : τ → σ}
    (h : ∀ x l, (next' x l).map f = next (f x) l) (x : τ) (tr : List ℓ) :
    (exec next' x tr).map f = exec next (f x) tr := by
  induction tr generalizing x with
  | nil => rfl
  | cons l tr ih =>
    rw [exec, exec, List.foldlM_cons, List.foldlM_cons, ← h x l]
    cases next' x l with
    | none => rfl
    | some y => exact ih y

/-- Every step of the run meets the condition. -/
def Meets (next : σ → ℓ → Option σ) (C : σ → ℓ → Prop) (s₀ : σ) (tr : List ℓ) : Prop :=
  ∀ pre l post s, tr = pre ++ l :: post → exec next s₀ pre = some s → C s l

variable {C : σ → ℓ → Prop}

theorem Meets.init (h : Meets next C s₀ (tr ++ tr')) : Meets next C s₀ tr := by
  intro pre l post s htr hs
  exact h pre l (post ++ tr') s (by simp [htr]) hs

theorem Meets.last (h : Meets next C s₀ (tr ++ [l])) (hs : exec next s₀ tr = some s) : C s l :=
  h tr l [] s rfl hs

/-- The steps behind the first one. -/
theorem Meets.tail (h : Meets next C s₀ (l :: tr)) (hl : next s₀ l = some s) :
    Meets next C s tr := by
  intro pre l' post s' htr hs
  exact h (l :: pre) l' post s' (by simp [htr]) (exec_cons.2 ⟨s, hl, hs⟩)

/-- The steps behind a part of the run. -/
theorem Meets.rest (h : Meets next C s₀ (tr ++ tr')) (hs : exec next s₀ tr = some s) :
    Meets next C s tr' := by
  intro pre l post s' htr' hs'
  exact h (tr ++ pre) l post s' (by simp [htr']) (exec_append.2 ⟨s, hs, hs'⟩)

theorem meets_nil : Meets next C s₀ [] := fun _ _ _ _ htr _ => by simp at htr

/-- The first step meets the condition, and so do those behind it. -/
theorem meets_cons (hl : C s₀ l) (h : ∀ s, next s₀ l = some s → Meets next C s tr) :
    Meets next C s₀ (l :: tr) := by
  intro pre l' post s htr hs
  cases pre with
  | nil =>
    cases htr
    cases hs
    exact hl
  | cons l₁ pre =>
    obtain ⟨rfl, htail⟩ := List.cons.inj htr
    obtain ⟨s₁, h₁, hrest⟩ := exec_cons.1 hs
    exact h s₁ h₁ pre l' post s htail hrest

/-- Fire the labels, as long as they meet the condition. -/
def checked (next : σ → ℓ → Option σ) (C : σ → ℓ → Prop) [∀ s l, Decidable (C s l)] (s : σ) :
    List ℓ → Bool
  | [] => true
  | l :: tr => decide (C s l) && (next s l).all fun s' => checked next C s' tr

theorem meets_of_checked [∀ s l, Decidable (C s l)] (h : checked next C s₀ tr = true) :
    Meets next C s₀ tr := by
  induction tr generalizing s₀ with
  | nil => exact meets_nil
  | cons l tr ih =>
    rw [checked, Bool.and_eq_true, decide_eq_true_eq] at h
    refine meets_cons h.1 fun s hs => ih ?_
    rw [hs] at h
    exact h.2

/-- The rule of invariants, for runs that meet a condition. -/
theorem invariant_of_meets {I : List ℓ → σ → Prop} (hinit : I [] s₀)
    (hstep : ∀ tr s l s', exec next s₀ tr = some s → I tr s → C s l → next s l = some s' →
      I (tr ++ [l]) s') (hC : Meets next C s₀ tr) (h : exec next s₀ tr = some s) : I tr s := by
  induction tr using List.reverseRecOn generalizing s with
  | nil =>
    cases h
    exact hinit
  | append_singleton tr l ih =>
    obtain ⟨s₁, h₁, hl⟩ := exec_snoc.1 h
    exact hstep tr s₁ l s h₁ (ih hC.init h₁) (hC.last h₁) hl

/-- The rule of invariants. -/
theorem invariant {I : List ℓ → σ → Prop} (hinit : I [] s₀)
    (hstep : ∀ tr s l s', exec next s₀ tr = some s → I tr s → next s l = some s' →
      I (tr ++ [l]) s') (h : exec next s₀ tr = some s) : I tr s :=
  invariant_of_meets (C := fun _ _ => True) hinit
    (fun tr s l s' hs hI _ hl => hstep tr s l s' hs hI hl) (fun _ _ _ _ _ _ => trivial) h

/-- What the steps from some point on keep. -/
theorem preserved {I : σ → Prop} (hs : exec next s₀ tr = some s) (hinit : I s)
    (hstep : ∀ mid l rest s s', tr' = mid ++ l :: rest → exec next s₀ (tr ++ mid) = some s → I s →
      next s l = some s' → I s') (h : exec next s₀ (tr ++ tr') = some s') : I s' := by
  induction tr' using List.reverseRecOn generalizing s' with
  | nil =>
    rw [List.append_nil, hs] at h
    cases h
    exact hinit
  | append_singleton tr' l ih =>
    rw [← List.append_assoc] at h
    obtain ⟨s₁, h₁, hl⟩ := exec_snoc.1 h
    refine hstep tr' l [] s₁ s' rfl h₁ (ih ?_ h₁) hl
    intro mid l' rest s s' htr'
    exact hstep mid l' (rest ++ [l]) s s' (by simp [htr'])

end Machine
