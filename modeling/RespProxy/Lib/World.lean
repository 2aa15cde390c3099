import Mathlib.Data.List.Nodup
import Mathlib.Logic.Relation
import RespProxy.Lib.Interact

/-! # Programs in a world

The requests of a program act on a world. `own w e w'` says that the answered request
`e` may take the world from `w` to `w'`, and `rely w w'` what others may do to it ahead of
a request. The paths of the world are its histories for a trace (`Path`), and a triple
speaks of all runs of a program along them.

The rules follow the shape of programs. Where others may interfere, a precondition has to
be stable. A program that only makes requests without an effect keeps what it finds
(`triple_idle`). In a parallel section each thread relies on what the requests of the
others do (`triple_parList`). `exec_path` is for environments that answer from a state of
their own.
-/

namespace Interact

variable {Op : Type} {Res : Op → Type} {α β : Type} {W : Type}
variable {σ : Type} {tr : List (Event Res)} {A G E : Event Res → Prop} {w w' : W} {o : Op}
  {k : Res o → Prog Res α}

/-- The world goes from one state to another along a trace. -/
inductive Path (rely : W → W → Prop) (own : W → Event Res → W → Prop) :
    W → List (Event Res) → W → Prop where
  | nil (w : W) : Path rely own w [] w
  | cons {w w₁ w₂ w' : W} {e : Event Res} {tr : List (Event Res)} (hrely : rely w w₁)
      (hown : own w₁ e w₂) (h : Path rely own w₂ tr w') : Path rely own w (e :: tr) w'

section

variable {rely : W → W → Prop} {own : W → Event Res → W → Prop}

theorem path_append {tr tr' : List (Event Res)} :
    Path rely own w (tr ++ tr') w' ↔ ∃ w₁, Path rely own w tr w₁ ∧ Path rely own w₁ tr' w' := by
  induction tr generalizing w with
  | nil =>
    constructor
    · exact fun h => ⟨w, .nil w, h⟩
    · rintro ⟨w₁, h, h'⟩
      cases h
      exact h'
  | cons e tr ih =>
    constructor
    · rintro (_ | ⟨hrely, hown, h⟩)
      obtain ⟨w₁, h, h'⟩ := ih.1 h
      exact ⟨w₁, .cons hrely hown h, h'⟩
    · rintro ⟨w₁, _ | ⟨hrely, hown, h⟩, h'⟩
      exact .cons hrely hown (ih.2 ⟨w₁, h, h'⟩)

/-- Others do not make the assertion false. -/
def Stable (rely : W → W → Prop) (P : W → Prop) : Prop := ∀ w w', rely w w' → P w → P w'

theorem stable_eq (P : W → Prop) : Stable Eq P := by
  rintro w _ rfl h
  exact h

/-- What every event keeps, a path keeps. -/
theorem Path.keeps {P : W → Prop} (h : Path rely own w tr w')
    (hstable : Stable rely P) (hown : ∀ e ∈ tr, ∀ w w', P w → own w e w' → P w') (hP : P w) :
    P w' := by
  induction h with
  | nil => exact hP
  | cons hrely hstep _ ih =>
    refine ih (fun e he => hown e (List.mem_cons_of_mem _ he)) ?_
    exact hown _ List.mem_cons_self _ _ (hstable _ _ hrely hP) hstep

/-- Every run of `p` that starts in a world with `P` ends with `Q`. -/
def Triple (rely : W → W → Prop) (own : W → Event Res → W → Prop) (P : W → Prop)
    (p : Prog Res α) (Q : α → W → Prop) : Prop :=
  ∀ w tr a w', P w → p.Runs tr a → Path rely own w tr w' → Q a w'

variable {P P' : W → Prop} {p : Prog Res α} {Q Q' : α → W → Prop}

theorem triple_ret {a : α} (h : ∀ w, P w → Q a w) : Triple rely own P (.ret a) Q := by
  rintro w tr b w' hP ⟨rfl, rfl⟩ hpath
  cases hpath
  exact h w hP

theorem triple_call {R : Res o → W → Prop}
    (hstable : Stable rely P) (hown : ∀ r w w', P w → own w ⟨o, r⟩ w' → R r w')
    (hk : ∀ r, Triple rely own (R r) (k r) Q) : Triple rely own P (.call o k) Q := by
  rintro w tr a w' hP ⟨r, tr', rfl, h⟩ (_ | ⟨hrely, hstep, hpath⟩)
  exact hk r _ _ _ _ (hown r _ _ (hstable _ _ hrely hP) hstep) h hpath

/-- A request with only one answer. -/
theorem triple_answer {r₀ : Res o} {R : W → Prop}
    (hstable : Stable rely P) (hown : ∀ r w w', P w → own w ⟨o, r⟩ w' → r = r₀ ∧ R w')
    (hk : Triple rely own R (k r₀) Q) : Triple rely own P (.call o k) Q := by
  refine triple_call (R := fun r w => r = r₀ ∧ R w) hstable hown fun r => ?_
  rintro w tr a w' ⟨rfl, hw⟩
  exact hk w tr a w' hw

/-- A request without an effect. -/
theorem triple_skip (hstable : Stable rely P)
    (hown : ∀ r w w', own w ⟨o, r⟩ w' → w' = w) (hk : ∀ r, Triple rely own P (k r) Q) :
    Triple rely own P (.call o k) Q := by
  refine triple_call hstable (fun r w w' hP h => ?_) hk
  rw [hown r w w' h]
  exact hP

theorem Triple.bind {R : α → W → Prop} {f : α → Prog Res β} {Q : β → W → Prop}
    (hp : Triple rely own P p R) (hf : ∀ a, Triple rely own (R a) (f a) Q) :
    Triple rely own P (p.bind f) Q := by
  intro w tr b w' hP hrun hpath
  obtain ⟨t₁, a, t₂, h₁, h₂, rfl⟩ := Prog.runs_bind.1 hrun
  obtain ⟨w₁, hpath₁, hpath₂⟩ := path_append.1 hpath
  exact hf a w₁ t₂ b w' (hp w t₁ a w₁ hP h₁ hpath₁) h₂ hpath₂

theorem Triple.mono (h : Triple rely own P p Q) (hP : ∀ w, P' w → P w)
    (hQ : ∀ a w, Q a w → Q' a w) : Triple rely own P' p Q' :=
  fun w tr a w' hw hrun hpath => hQ a w' (h w tr a w' (hP w hw) hrun hpath)

/-- A part of the precondition that does not speak of the world. -/
theorem triple_pure {φ : Prop} (hφ : ∀ w, P' w → φ ∧ P w) (h : φ → Triple rely own P p Q) :
    Triple rely own P' p Q :=
  fun w tr a w' hw hrun hpath => h (hφ w hw).1 w tr a w' (hφ w hw).2 hrun hpath

theorem triple_exists {ι : Type} {P : ι → W → Prop} (h : ∀ i, Triple rely own (P i) p Q) :
    Triple rely own (fun w => ∃ i, P i w) p Q := by
  rintro w tr a w' ⟨i, hw⟩ hrun hpath
  exact h i w tr a w' hw hrun hpath

/-- The events of a path are such that the world allows them. -/
theorem Path.allows
    (h : Path rely own w tr w') (hA : ∀ w e w', own w e w' → A e) : ∀ e ∈ tr, A e := by
  induction h with
  | nil =>
    intro e he
    cases he
  | cons _ hown _ ih =>
    intro e he
    rcases List.mem_cons.1 he with rfl | he
    · exact hA _ _ _ hown
    · exact ih e he

/-- A program whose requests all keep `P`, as long as they are answered as in `A`. -/
theorem triple_idle {A Idle : Event Res → Prop} {R : α → Prop} (hp : p.Ensures A Idle R)
    (hA : ∀ w e w', own w e w' → A e) (hstable : Stable rely P)
    (hown : ∀ e w w', Idle e → P w → own w e w' → P w') :
    Triple rely own P p fun a w => P w ∧ R a := by
  intro w tr a w' hP hrun hpath
  obtain ⟨hidle, hR⟩ := hp.runs hrun (hpath.allows hA)
  exact ⟨hpath.keeps hstable (fun e he w w' => hown e w w' (hidle e he)) hP, hR⟩

/-- Two descriptions of one program hold together. -/
theorem Triple.and (h : Triple rely own P p Q) (h' : Triple rely own P p Q') :
    Triple rely own P p fun a w => Q a w ∧ Q' a w :=
  fun w tr a w' hw hrun hpath => ⟨h w tr a w' hw hrun hpath, h' w tr a w' hw hrun hpath⟩

end

/-! ## Threads -/

section

variable {own : W → Event Res → W → Prop}

/-- Requests in `G`, one after the other. -/
def Steps (own : W → Event Res → W → Prop) (G : Event Res → Prop) : W → W → Prop :=
  Relation.ReflTransGen fun w w' => ∃ e, G e ∧ own w e w'

theorem stable_steps {P : W → Prop}
    (h : ∀ e w w', G e → P w → own w e w' → P w') : Stable (Steps own G) P := by
  intro w w' hsteps hw
  induction hsteps with
  | refl => exact hw
  | tail _ hstep ih =>
    obtain ⟨e, he, hown⟩ := hstep
    exact h e _ _ he ih hown

/-- The path of one thread, with the requests of the others in between. -/
theorem Path.thread {ls : List (List (Event Res))} {tr l : List (Event Res)} {i : Nat}
    (hs : Shuffle ls tr) (hpath : Path Eq own w tr w')
    (hi : ls[i]? = some l) (hG : ∀ j l', j ≠ i → ls[j]? = some l' → ∀ e ∈ l', G e) :
    ∃ w₁, Path (Steps own G) own w l w₁ ∧ Steps own G w₁ w' := by
  induction hs generalizing w l with
  | nil h =>
    cases hpath
    rw [h l (List.mem_of_getElem? hi)]
    exact ⟨_, .nil _, .refl⟩
  | @cons ls tr e m j hj _ ih =>
    obtain _ | ⟨rfl, hown, hpath⟩ := hpath
    have hlt : j < ls.length := (List.getElem?_eq_some_iff.1 hj).1
    have hothers : ∀ j' l', j' ≠ i → (ls.set j m)[j']? = some l' → ∀ e ∈ l', G e := by
      intro j' l' hne hl' e he
      by_cases hjj : j = j'
      · subst hjj
        rw [List.getElem?_set_self hlt] at hl'
        cases hl'
        exact hG j _ hne hj e (List.mem_cons_of_mem _ he)
      · rw [List.getElem?_set_ne hjj] at hl'
        exact hG j' l' hne hl' e he
    by_cases hji : j = i
    · -- the thread itself
      subst hji
      cases hi.symm.trans hj
      obtain ⟨w₁, hl, hrest⟩ := ih hpath (List.getElem?_set_self hlt) hothers
      exact ⟨w₁, .cons .refl hown hl, hrest⟩
    · obtain ⟨w₁, hl, hrest⟩ := ih hpath ((List.getElem?_set_ne hji).trans hi) hothers
      have hstep : Steps own G _ _ := .single ⟨e, hG j _ hji hj e List.mem_cons_self, hown⟩
      obtain _ | ⟨hrely, hown', hl⟩ := hl
      · exact ⟨_, .nil _, hstep.trans hrest⟩
      · exact ⟨w₁, .cons (hstep.trans hrely) hown' hl, hrest⟩

/-- Threads that each rely on the requests of the others. -/
theorem triple_parList {γ : Type} {F : γ → Prog Res β}
    {G : γ → Event Res → Prop} {P : W → Prop} {R : γ → β → W → Prop} {gs : List γ}
    (hnodup : gs.Nodup) (hA : ∀ w e w', own w e w' → A e)
    (hG : ∀ g ∈ gs, (F g).Ensures A (G g) fun _ => True)
    (hF : ∀ g ∈ gs, Triple (Steps own fun e => ∃ g' ∈ gs, g' ≠ g ∧ G g' e) own P (F g) (R g))
    (hR : ∀ g ∈ gs, ∀ b, Stable (Steps own fun e => ∃ g' ∈ gs, g' ≠ g ∧ G g' e) (R g b)) :
    Triple Eq own P (Prog.parList (gs.map F)) fun rs w =>
      List.Forall₂ (fun g b => R g b w) gs rs := by
  intro w tr rs w' hP hrun hpath
  have hthread : ∀ g ∈ gs, (F g).Sat fun l b => (F g).Runs l b := fun _ _ _ _ h => h
  obtain ⟨trs, hs, htrs, hrs, hthreads⟩ := Prog.sat_parList hthread tr rs hrun
  refine List.forall₂_iff_get.2 ⟨hrs.symm, fun i hi hi' => ?_⟩
  have hl : trs[i]? = some (trs[i]) := List.getElem?_eq_getElem (htrs ▸ hi)
  have hrun := hthreads i _ _ _ (List.getElem?_eq_getElem hi) hl (List.getElem?_eq_getElem hi')
  have hothers : ∀ j l', j ≠ i → trs[j]? = some l' → ∀ e ∈ l', ∃ g' ∈ gs, g' ≠ gs[i] ∧ G g' e := by
    intro j l' hne hl' e he
    have hj : j < gs.length := htrs ▸ (List.getElem?_eq_some_iff.1 hl').1
    have hrun' := hthreads j _ _ _ (List.getElem?_eq_getElem hj) hl'
      (List.getElem?_eq_getElem (hrs ▸ hj))
    refine ⟨gs[j], List.getElem_mem hj, fun h => hne ((List.Nodup.getElem_inj_iff hnodup).1 h), ?_⟩
    refine ((hG _ (List.getElem_mem hj)).runs hrun' fun e he => ?_).1 e he
    exact hpath.allows hA e ((hs.mem_iff e).2 ⟨l', List.mem_of_getElem? hl', he⟩)
  obtain ⟨w₁, hthread, hrest⟩ := Path.thread hs hpath hl hothers
  have hmem := List.getElem_mem hi
  exact hR _ hmem _ _ _ hrest (hF _ hmem w _ _ w₁ hP hrun hthread)

end

/-! ## Environments with a state -/

variable {rely : W → W → Prop} {own : W → Event Res → W → Prop}

theorem execFin_path {view : σ → W} {n : Nat} {f : Fin n → σ → (β × List (Event Res)) × σ}
    (hf : ∀ i s, (∀ e ∈ (f i s).1.2, E e) →
      Path rely own (view s) (f i s).1.2 (view (f i s).2)) (s : σ)
    (hE : ∀ e ∈ (List.ofFn (Prog.execFin n f s).1.2).flatten, E e) :
    Path rely own (view s) (List.ofFn (Prog.execFin n f s).1.2).flatten
      (view (Prog.execFin n f s).2) := by
  induction n generalizing s with
  | zero => exact .nil _
  | succ n ih =>
    simp only [Prog.execFin, List.ofFn_succ, Fin.cons_zero, Fin.cons_succ, List.flatten_cons,
      List.forall_mem_append] at hE ⊢
    have hrest := ih (f := fun i => f i.succ) (fun i s => hf i.succ s) (f 0 s).2 hE.2
    exact path_append.2 ⟨_, hf 0 s hE.1, hrest⟩

/-- Running against an environment whose answers the world allows follows a path. Only the
answers in `E` need to be allowed if no others are given. -/
theorem exec_path (view : σ → W) {h : σ → (o : Op) → Res o × σ} (hh : ∀ s o, E ⟨o, (h s o).1⟩ →
      ∃ w, rely (view s) w ∧ own w ⟨o, (h s o).1⟩ (view (h s o).2))
    (p : Prog Res α) (s : σ) (hE : ∀ e ∈ (p.exec h s).1.2, E e) :
    Path rely own (view s) (p.exec h s).1.2 (view (p.exec h s).2) := by
  induction p generalizing s with
  | ret a => exact .nil _
  | call o k ih =>
    obtain ⟨w, hrely, hown⟩ := hh s o (hE _ List.mem_cons_self)
    exact .cons hrely hown (ih _ _ fun e he => hE e (List.mem_cons_of_mem _ he))
  | par n ts k iht ih =>
    obtain ⟨hthreads, hrest⟩ := List.forall_mem_append.1 hE
    exact path_append.2 ⟨_, execFin_path iht s hthreads, ih _ _ hrest⟩

end Interact
