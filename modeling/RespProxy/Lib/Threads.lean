import RespProxy.Lib.Interact
import RespProxy.Lib.Machine

/-! # Programs inside a machine

The environment of a program can be a machine: some of its labels are answered
requests of the program (`ev`), the others are steps of its own. A history of the
machine contains a run of the program if its requests, in order, are the trace of one.

`threads_invariant` is the rule of invariants for several programs that run in such a
machine at once. The invariant speaks of the state of the machine and of what is left
of each program, so it is shown for the steps of the machine and for the answer to the
next request of each program.
-/

namespace Interact

universe u v

variable {Op : Type} {Res : Op → Type} {α : Type} {σ : Type u} {ℓ : Type v}
variable {next : σ → ℓ → Option σ} {ev : ℓ → Option (Event Res)} {C : σ → ℓ → Prop}

/-- The program forks next. -/
def Prog.forks : {α : Type} → Prog Res α → Bool
  | _, .par _ _ _ => true
  | _, _ => false

/-- What is left of a program that has a trace to go. -/
theorem Prog.runs_cons {p : Prog Res α} {e : Event Res} {tr : List (Event Res)} {a : α}
    (h : p.Runs (e :: tr) a) (hp : p.forks = false) :
    ∃ k : Res e.op → Prog Res α, p = .call e.op k ∧ (k e.res).Runs tr a := by
  cases p with
  | ret b => cases h.1
  | call o k =>
    obtain ⟨r, tr', htr, h⟩ := h
    obtain ⟨rfl, rfl⟩ := List.cons.inj htr
    exact ⟨k, rfl, h⟩
  | par n ts k => cases hp

/-- The rule of invariants for programs in a machine. -/
theorem threads_invariant {I : σ → List (Prog Res α) → Prop}
    (hforks : ∀ s ps, I s ps → ∀ p ∈ ps, p.forks = false)
    (henv : ∀ s l s' ps, I s ps → C s l → ev l = none → next s l = some s' → I s' ps)
    (hthread : ∀ s l s' ps (i : Nat) o r (k : Res o → Prog Res α), I s ps → C s l →
      ps[i]? = some (.call o k) → ev l = some ⟨o, r⟩ → next s l = some s' → I s' (ps.set i (k r)))
    {hs : List ℓ} {s s' : σ} {ps : List (Prog Res α)} {trs : List (List (Event Res))}
    (hmeets : Machine.Meets next C s hs) (hrun : Machine.exec next s hs = some s') (hI : I s ps)
    (hshuffle : Shuffle trs (hs.filterMap ev)) (hlen : trs.length = ps.length)
    (hruns : ∀ (i : Nat) (p : Prog Res α) tr, ps[i]? = some p → trs[i]? = some tr → ∃ a, p.Runs tr a) :
    ∃ ps', I s' ps' := by
  -- over the history; what is left of the programs goes with what is left of their traces
  induction hs generalizing s ps trs with
  | nil =>
    cases hrun
    exact ⟨ps, hI⟩
  | cons l hs ih =>
    obtain ⟨s₁, hl, hrest⟩ := Machine.exec_cons.1 hrun
    have hC : C s l := hmeets [] l hs s rfl rfl
    cases he : ev l with
    | none =>
      rw [List.filterMap_cons_none he] at hshuffle
      exact ih (hmeets.tail hl) hrest (henv s l s₁ ps hI hC he hl) hshuffle hlen hruns
    | some e =>
      rw [List.filterMap_cons_some he] at hshuffle
      generalize htr : e :: hs.filterMap ev = tr at hshuffle
      cases hshuffle with
      | nil => cases htr
      | cons i hi hshuffle =>
        obtain ⟨rfl, rfl⟩ := List.cons.inj htr
        have hlt : i < ps.length := hlen ▸ (List.getElem?_eq_some_iff.1 hi).1
        obtain ⟨a, ha⟩ := hruns i ps[i] _ (List.getElem?_eq_getElem hlt) hi
        obtain ⟨k, hk, ha⟩ := Prog.runs_cons ha (hforks s ps hI _ (List.getElem_mem hlt))
        have hcall : ps[i]? = some (.call e.op k) := by rw [List.getElem?_eq_getElem hlt, hk]
        refine ih (hmeets.tail hl) hrest (hthread s l s₁ ps i e.op e.res k hI hC hcall he hl)
          hshuffle (by simp [hlen]) ?_
        intro j p tr hp htr
        rcases eq_or_ne i j with rfl | hij
        · rw [List.getElem?_set_self hlt] at hp
          rw [List.getElem?_set_self (hlen ▸ hlt)] at htr
          cases hp
          cases htr
          exact ⟨a, ha⟩
        · rw [List.getElem?_set_ne hij] at hp htr
          exact hruns j p tr hp htr

end Interact
