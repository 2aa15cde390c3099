import Mathlib.Data.List.OfFn
import Mathlib.Data.List.Forall2

/-! # Interaction programs

A small library for code that talks to an environment it does not control.
A program is a tree of *requests*: each request `o : Op` is answered by some
`r : Res o`, and the rest of the program may depend on the answer. Sections
in which several threads run at once are part of the tree (`par`).

* `Prog.Runs p tr a`: `p` can produce the trace `tr` of answered requests and
  return `a`. Nothing is assumed about the answers, so a statement about all
  runs holds whatever the environment does, and whatever other threads do to
  the state behind the requests;
* `Shuffle`: the interleavings of a list of traces, used for `par`;
* `Prog.Ensures`: as long as the answers meet an assumption, every request of
  every run satisfies a predicate, and every result another one;
* `Prog.Sat`: every run satisfies a postcondition on trace and result;
* `Prog.exec`: the run against one given environment.

Programs are finite trees and every partial run extends to a complete one as
soon as all answer types are inhabited, so a prefix-closed property of all
complete runs also holds of a run that is cut short.
-/

namespace Interact

/-- An answered request. -/
structure Event {Op : Type} (Res : Op → Type) where
  op : Op
  res : Res op

/-- Programs over the requests `Op`, answered in `Res`. -/
inductive Prog {Op : Type} (Res : Op → Type) : Type → Type 1 where
  | ret {α : Type} (a : α) : Prog Res α
  | call {α : Type} (o : Op) (k : Res o → Prog Res α) : Prog Res α
  | par {α β : Type} (n : Nat) (ts : Fin n → Prog Res β) (k : (Fin n → β) → Prog Res α) :
      Prog Res α

/-- `Shuffle ls tr`: `tr` is an interleaving of the lists in `ls`. -/
inductive Shuffle {E : Type} : List (List E) → List E → Prop where
  | nil {ls : List (List E)} (h : ∀ l ∈ ls, l = []) : Shuffle ls []
  | cons {ls : List (List E)} {tr : List E} {e : E} {l : List E} (i : Nat)
      (hi : ls[i]? = some (e :: l)) (h : Shuffle (ls.set i l) tr) : Shuffle ls (e :: tr)

/-- An interleaving contains the elements of its lists and no others. -/
theorem Shuffle.mem_iff {E : Type} {ls : List (List E)} {tr : List E} (h : Shuffle ls tr)
    (e : E) : e ∈ tr ↔ ∃ l ∈ ls, e ∈ l := by
  induction h with
  | nil h =>
    constructor
    · intro he
      cases he
    · rintro ⟨l, hl, he⟩
      rw [h l hl] at he
      exact he
  | @cons ls tr x l i hi _ ih =>
    have hlt : i < ls.length := (List.getElem?_eq_some_iff.1 hi).1
    have hget : ls[i] = x :: l := (List.getElem?_eq_some_iff.1 hi).2
    rw [List.mem_cons, ih]
    constructor
    · rintro (rfl | ⟨m, hm, he⟩)
      · exact ⟨_, List.mem_of_getElem? hi, List.mem_cons_self⟩
      · rcases List.mem_or_eq_of_mem_set hm with hm | rfl
        · exact ⟨m, hm, he⟩
        · exact ⟨_, List.mem_of_getElem? hi, List.mem_cons_of_mem _ he⟩
    · rintro ⟨m, hm, he⟩
      obtain ⟨j, hj, rfl⟩ := List.mem_iff_getElem.1 hm
      by_cases hij : i = j
      · -- the list that loses its head
        subst hij
        rw [hget, List.mem_cons] at he
        rcases he with rfl | he
        · exact Or.inl rfl
        · exact Or.inr ⟨l, List.mem_set hlt l, he⟩
      · have hj' : (ls.set i l)[j]? = some ls[j] := by
          rw [List.getElem?_set_ne hij, List.getElem?_eq_getElem hj]
        exact Or.inr ⟨ls[j], List.mem_of_getElem? hj', he⟩

/-- The lists one after the other are an interleaving of them. -/
theorem Shuffle.flatten {E : Type} (ls : List (List E)) : Shuffle ls ls.flatten := by
  -- generalised to a block of emptied lists in front, on which the induction works
  have aux : ∀ (n : Nat) (ls : List (List E)),
      Shuffle (List.replicate n [] ++ ls) ls.flatten := by
    intro n ls
    induction ls generalizing n with
    | nil =>
      refine Shuffle.nil ?_
      intro l hl
      simp only [List.append_nil] at hl
      exact (List.mem_replicate.1 hl).2
    | cons l ls ih =>
      induction l with
      | nil =>
        have := ih (n + 1)
        rwa [List.replicate_succ', List.append_assoc] at this
      | cons e l ihl =>
        refine Shuffle.cons (l := l) n ?_ ?_
        · simp
        · have hset : (List.replicate n [] ++ (e :: l) :: ls).set n l =
              List.replicate n [] ++ l :: ls := by
            rw [List.set_append_right _ _ (by simp)]
            simp
          rw [hset]
          exact ihl
  exact aux 0 ls

namespace Prog

variable {Op : Type} {Res : Op → Type} {α β γ : Type}
variable {σ E : Type} {tr : List (Event Res)} {F : γ → Prog Res β} {gs : List γ} {n : Nat} {b : β}
  {a : α} {f : Fin n → σ → (β × List (Event Res)) × σ}

/-- Sequencing. -/
def bind : {α β : Type} → Prog Res α → (α → Prog Res β) → Prog Res β
  | _, _, .ret a, f => f a
  | _, _, .call o k, f => .call o fun r => (k r).bind f
  | _, _, .par n ts k, f => .par n ts fun rs => (k rs).bind f

instance : Monad (Prog Res) where
  pure := .ret
  bind := bind

/-- The program that makes one request and returns its answer. -/
def req (o : Op) : Prog Res (Res o) := .call o .ret

/-- Run all programs of a list at once and collect their results in order. -/
def parList (ts : List (Prog Res β)) : Prog Res (List β) :=
  .par ts.length (fun i => ts.get i) fun rs => .ret (List.ofFn rs)

@[simp] theorem pure_eq (a : α) : (pure a : Prog Res α) = .ret a := rfl

@[simp] theorem bind_eq (p : Prog Res α) (f : α → Prog Res β) : (p >>= f) = p.bind f := rfl

@[simp] theorem ret_bind (a : α) (f : α → Prog Res β) : (ret a).bind f = f a := rfl

@[simp] theorem call_bind (o : Op) (k : Res o → Prog Res α) (f : α → Prog Res β) :
    (call o k).bind f = .call o fun r => (k r).bind f := rfl

@[simp] theorem req_bind (o : Op) (f : Res o → Prog Res β) : (req o).bind f = .call o f := rfl

@[simp] theorem bind_ret (p : Prog Res α) : p.bind .ret = p := by
  induction p with
  | ret a => rfl
  | call o k ih => simp only [bind, ih]
  | par n ts k _ ih => simp only [bind, ih]

theorem bind_assoc (p : Prog Res α) (f : α → Prog Res β) (g : β → Prog Res γ) :
    (p.bind f).bind g = p.bind fun a => (f a).bind g := by
  induction p with
  | ret a => rfl
  | call o k ih => simp only [bind, ih]
  | par n ts k _ ih => simp only [bind, ih]

/-! ## Runs -/

/-- `Runs p tr a`: some answers make `p` produce the trace `tr` and return `a`. -/
def Runs : {α : Type} → Prog Res α → List (Event Res) → α → Prop
  | _, .ret a, tr, b => tr = [] ∧ a = b
  | _, .call o k, tr, b => ∃ r tr', tr = ⟨o, r⟩ :: tr' ∧ (k r).Runs tr' b
  | _, .par n ts k, tr, b =>
      ∃ (trs : Fin n → List (Event Res)) (rs : Fin n → _) (tr₁ tr₂ : List (Event Res)),
        (∀ i, (ts i).Runs (trs i) (rs i)) ∧ Shuffle (List.ofFn trs) tr₁ ∧
          (k rs).Runs tr₂ b ∧ tr = tr₁ ++ tr₂

theorem runs_bind {p : Prog Res α} {f : α → Prog Res β} :
    (p.bind f).Runs tr b ↔
      ∃ tr₁ a tr₂, p.Runs tr₁ a ∧ (f a).Runs tr₂ b ∧ tr = tr₁ ++ tr₂ := by
  induction p generalizing tr b with
  | ret a => simp [bind, Runs]
  | call o k ih =>
    simp only [bind, Runs]
    constructor
    · rintro ⟨r, tr', rfl, h⟩
      obtain ⟨t₁, a, t₂, h₁, h₂, rfl⟩ := (ih r).1 h
      exact ⟨_, a, t₂, ⟨r, t₁, rfl, h₁⟩, h₂, rfl⟩
    · rintro ⟨_, a, t₂, ⟨r, t₁, rfl, h₁⟩, h₂, rfl⟩
      exact ⟨r, _, rfl, (ih r).2 ⟨t₁, a, t₂, h₁, h₂, rfl⟩⟩
  | par n ts k _ ih =>
    simp only [bind, Runs]
    constructor
    · rintro ⟨trs, rs, t₁, t₂, hts, hs, h, rfl⟩
      obtain ⟨u₁, a, u₂, h₁, h₂, rfl⟩ := (ih rs).1 h
      exact ⟨_, a, u₂, ⟨trs, rs, t₁, u₁, hts, hs, h₁, rfl⟩, h₂, by simp⟩
    · rintro ⟨_, a, u₂, ⟨trs, rs, t₁, u₁, hts, hs, h₁, rfl⟩, h₂, rfl⟩
      exact ⟨trs, rs, t₁, u₁ ++ u₂, hts, hs, (ih rs).2 ⟨u₁, a, u₂, h₁, h₂, rfl⟩, by simp⟩

theorem runs_req_bind {o : Op} {f : Res o → Prog Res β} :
    ((req o).bind f).Runs tr b ↔ ∃ r tr', tr = ⟨o, r⟩ :: tr' ∧ (f r).Runs tr' b := Iff.rfl

/-! ## Requests and results -/

/-- As long as the environment's answers satisfy `A`, every answered request
satisfies `P` and every result satisfies `Q`. The threads of a parallel section
are described by postconditions of their own. -/
def Ensures (A P : Event Res → Prop) : {α : Type} → (α → Prop) → Prog Res α → Prop
  | _, Q, .ret a => Q a
  | _, Q, .call o k => ∀ r, A ⟨o, r⟩ → P ⟨o, r⟩ ∧ (k r).Ensures A P Q
  | _, Q, .par _ ts k => ∃ R : _ → _ → Prop, (∀ i, (ts i).Ensures A P (R i)) ∧
      ∀ rs, (∀ i, R i (rs i)) → (k rs).Ensures A P Q

section Ensures

variable {A P P' : Event Res → Prop} {Q Q' : α → Prop} {p : Prog Res α}

theorem Ensures.bind {Q : β → Prop} {R : α → Prop} {f : α → Prog Res β}
    (hp : p.Ensures A P R) (hf : ∀ a, R a → (f a).Ensures A P Q) :
    (p.bind f).Ensures A P Q := by
  induction p with
  | ret a => exact hf a hp
  | call o k ih => exact fun r hr => ⟨(hp r hr).1, ih r (hp r hr).2 hf⟩
  | par n ts k _ ih =>
    obtain ⟨S, hts, hk⟩ := hp
    exact ⟨S, hts, fun rs hrs => ih rs (hk rs hrs) hf⟩

/-- `Ensures.bind` for a program that may fail. -/
theorem Ensures.bindOk {ε : Type} {Q : β → Prop} {R : Except ε α → Prop}
    {p : Prog Res (Except ε α)} {f : Except ε α → Prog Res β} (hp : p.Ensures A P R)
    (herror : ∀ e, (f (.error e)).Ensures A P Q)
    (hok : ∀ a, R (.ok a) → (f (.ok a)).Ensures A P Q) : (p.bind f).Ensures A P Q := by
  refine hp.bind fun r hr => ?_
  cases r with
  | error e => exact herror e
  | ok a => exact hok a hr

theorem Ensures.mono (hp : p.Ensures A P Q) (hP : ∀ e, A e → P e → P' e)
    (hQ : ∀ a, Q a → Q' a) : p.Ensures A P' Q' := by
  induction p with
  | ret a => exact hQ a hp
  | call o k ih => exact fun r hr => ⟨hP _ hr (hp r hr).1, ih r (hp r hr).2 hQ⟩
  | par n ts k iht ih =>
    obtain ⟨S, hts, hk⟩ := hp
    exact ⟨S, fun i => iht i (hts i) fun _ h => h, fun rs hrs => ih rs (hk rs hrs) hQ⟩

/-- Nothing is asked. -/
theorem ensures_true (p : Prog Res α) : p.Ensures A (fun _ => True) fun _ => True := by
  induction p with
  | ret a => trivial
  | call o k ih => exact fun r _ => ⟨trivial, ih r⟩
  | par n ts k iht ih => exact ⟨fun _ _ => True, iht, fun rs _ => ih rs⟩

/-- The threads of a list, each with a description of its own. -/
theorem ensures_parList {R : γ → β → Prop} (h : ∀ g ∈ gs, (F g).Ensures A P (R g)) :
    (parList (gs.map F)).Ensures A P fun rs => List.Forall₂ R gs rs := by
  have hlen : (gs.map F).length = gs.length := List.length_map F
  refine ⟨fun i => R (gs.get (i.cast hlen)), fun i => ?_, fun rs hrs => ?_⟩
  · have hi := h _ (List.get_mem gs (i.cast hlen))
    simpa only [List.get_eq_getElem, List.getElem_map, Fin.val_cast] using hi
  · refine List.forall₂_iff_get.2 ⟨by simp, ?_⟩
    intro i h₁ h₂
    have hr := hrs ⟨i, by omega⟩
    simpa using hr

/-- What a program ensures holds of its runs. -/
theorem Ensures.runs (hp : p.Ensures A P Q) (h : p.Runs tr a)
    (hA : ∀ e ∈ tr, A e) : (∀ e ∈ tr, P e) ∧ Q a := by
  induction p generalizing tr with
  | ret b =>
    obtain ⟨rfl, rfl⟩ := h
    refine ⟨?_, hp⟩
    intro e he
    cases he
  | call o k ih =>
    obtain ⟨r, tr', rfl, h⟩ := h
    have hr := hp r (hA _ List.mem_cons_self)
    obtain ⟨htr, hQ⟩ := ih r hr.2 h fun e he => hA e (List.mem_cons_of_mem _ he)
    refine ⟨?_, hQ⟩
    intro e he
    rcases List.mem_cons.1 he with rfl | he
    · exact hr.1
    · exact htr e he
  | par n ts k iht ih =>
    obtain ⟨trs, rs, tr₁, tr₂, hts, hs, h, rfl⟩ := h
    obtain ⟨S, hthreads, hk⟩ := hp
    have hthread : ∀ i, (∀ e ∈ trs i, P e) ∧ S i (rs i) := by
      intro i
      refine iht i (hthreads i) (hts i) fun e he => hA e (List.mem_append_left _ ?_)
      exact (hs.mem_iff e).2 ⟨trs i, List.mem_ofFn.2 ⟨i, rfl⟩, he⟩
    obtain ⟨htr, hQ⟩ := ih rs (hk rs fun i => (hthread i).2) h
      fun e he => hA e (List.mem_append_right _ he)
    refine ⟨?_, hQ⟩
    intro e he
    rcases List.mem_append.1 he with he | he
    · obtain ⟨l, hl, he⟩ := (hs.mem_iff e).1 he
      obtain ⟨i, rfl⟩ := List.mem_ofFn.1 hl
      exact (hthread i).1 e he
    · exact htr e he

end Ensures

/-! ## Postconditions -/

/-- Every run of `p` ends with a trace and a result that satisfy `Q`. -/
def Sat (p : Prog Res α) (Q : List (Event Res) → α → Prop) : Prop :=
  ∀ tr a, p.Runs tr a → Q tr a

theorem sat_ret {Q : List (Event Res) → α → Prop} : (ret a).Sat Q ↔ Q [] a := by
  constructor
  · intro h
    exact h [] a ⟨rfl, rfl⟩
  · rintro h tr b ⟨rfl, rfl⟩
    exact h

theorem sat_bind {p : Prog Res α} {f : α → Prog Res β} {Q : List (Event Res) → β → Prop} :
    (p.bind f).Sat Q ↔ p.Sat fun tr a => (f a).Sat fun tr' b => Q (tr ++ tr') b := by
  constructor
  · intro h tr a hp tr' b hf
    exact h _ _ (runs_bind.2 ⟨tr, a, tr', hp, hf, rfl⟩)
  · intro h tr b hr
    obtain ⟨t₁, a, t₂, hp, hf, rfl⟩ := runs_bind.1 hr
    exact h t₁ a hp t₂ b hf

/-- The threads of a list run interleaved, each with a postcondition of its own. -/
theorem sat_parList {R : γ → List (Event Res) → β → Prop} (h : ∀ g ∈ gs, (F g).Sat (R g)) :
    (parList (gs.map F)).Sat fun tr rs => ∃ trs, Shuffle trs tr ∧ trs.length = gs.length ∧
      rs.length = gs.length ∧ ∀ (i : Nat) (g : γ) (l : List (Event Res)) (r : β),
        gs[i]? = some g → trs[i]? = some l → rs[i]? = some r → R g l r := by
  rintro tr rs' ⟨trs, rs, tr₁, tr₂, hts, hs, ⟨rfl, rfl⟩, rfl⟩
  refine ⟨List.ofFn trs, by simpa using hs, by simp, by simp, ?_⟩
  intro i g l r hg hl hr
  obtain ⟨hi, rfl⟩ := List.getElem?_eq_some_iff.1 hg
  obtain ⟨hl', rfl⟩ := List.getElem?_eq_some_iff.1 hl
  obtain ⟨hr', rfl⟩ := List.getElem?_eq_some_iff.1 hr
  have hrun := hts ⟨i, by simpa using hi⟩
  dsimp only at hrun
  rw [List.get_eq_getElem, List.getElem_map] at hrun
  simpa using h _ (List.getElem_mem hi) _ _ hrun

/-! ## Running against one environment -/

/-- Run the programs `ts 0, ts 1, …` one after the other. -/
def execFin {σ : Type} : (n : Nat) → (Fin n → σ → (β × List (Event Res)) × σ) → σ →
    ((Fin n → β) × (Fin n → List (Event Res))) × σ
  | 0, _, s => ((Fin.elim0, Fin.elim0), s)
  | n + 1, f, s =>
      let x := f 0 s
      let rest := execFin n (fun i => f i.succ) x.2
      ((Fin.cons x.1.1 rest.1.1, Fin.cons x.1.2 rest.1.2), rest.2)

/-- Run `p` against the environment `h`, which answers from a state of its own.
The threads of a parallel section take their turns in order. -/
def exec {σ : Type} (h : σ → (o : Op) → Res o × σ) :
    {α : Type} → Prog Res α → σ → (α × List (Event Res)) × σ
  | _, .ret a, s => ((a, []), s)
  | _, .call o k, s =>
      let x := h s o
      let y := (k x.1).exec h x.2
      ((y.1.1, ⟨o, x.1⟩ :: y.1.2), y.2)
  | _, .par n ts k, s =>
      let x := execFin n (fun i => (ts i).exec h) s
      let y := (k x.1.1).exec h x.2
      ((y.1.1, (List.ofFn x.1.2).flatten ++ y.1.2), y.2)

theorem execFin_runs {ts : Fin n → Prog Res β}
    (hf : ∀ i s, (ts i).Runs (f i s).1.2 (f i s).1.1) (s : σ) (i : Fin n) :
    (ts i).Runs ((execFin n f s).1.2 i) ((execFin n f s).1.1 i) := by
  induction n generalizing s with
  | zero => exact i.elim0
  | succ n ih =>
    refine Fin.cases ?_ (fun j => ?_) i
    · exact hf 0 s
    · exact ih (fun j s => hf j.succ s) (f 0 s).2 j

/-- Running against an environment gives a run. -/
theorem exec_runs (h : σ → (o : Op) → Res o × σ) (p : Prog Res α) (s : σ) :
    p.Runs (p.exec h s).1.2 (p.exec h s).1.1 := by
  induction p generalizing s with
  | ret a => exact ⟨rfl, rfl⟩
  | call o k ih => exact ⟨(h s o).1, _, rfl, ih _ _⟩
  | par n ts k iht ih =>
    refine ⟨_, _, _, _, execFin_runs (fun i s => iht i s) s, Shuffle.flatten _, ih _ _, rfl⟩

theorem execFin_events {P : Event Res → Prop} (hf : ∀ i s, ∀ e ∈ (f i s).1.2, P e)
    (s : σ) (i : Fin n) : ∀ e ∈ (execFin n f s).1.2 i, P e := by
  induction n generalizing s with
  | zero => exact i.elim0
  | succ n ih =>
    refine Fin.cases ?_ (fun j => ?_) i
    · exact hf 0 s
    · exact ih (fun j s => hf j.succ s) (f 0 s).2 j

/-- The events of a run against an environment are what that environment answers. -/
theorem exec_events {h : σ → (o : Op) → Res o × σ} {P : Event Res → Prop}
    (hP : ∀ s o, P ⟨o, (h s o).1⟩) (p : Prog Res α) (s : σ) : ∀ e ∈ (p.exec h s).1.2, P e := by
  induction p generalizing s with
  | ret a =>
    intro e he
    cases he
  | call o k ih =>
    intro e he
    rcases List.mem_cons.1 he with rfl | he
    · exact hP s o
    · exact ih _ _ e he
  | par n ts k iht ih =>
    intro e he
    rcases List.mem_append.1 he with he | he
    · obtain ⟨l, hl, he⟩ := List.mem_flatten.1 he
      obtain ⟨i, rfl⟩ := List.mem_ofFn.1 hl
      exact execFin_events (fun i s => iht i s) s i e he
    · exact ih _ _ e he

end Prog

end Interact
