import RespProxy.Proxy.Batch

/-! # Runs of a session

The runs of `handleSeq`, `handleBatch` and the run loop as relations, with one
case for each way a step can go (`SeqRun`, `BatchRun`, `LoopRun`).

Two kinds of runs are of interest: those in which every batch meets a condition
in the state it arrives in (`RunsWhile`), and those in which every command meets
one in the state it is translated in (`RunsStepwise`). Without a condition these
are all runs. `StepRule` is the rule for what such runs write.
-/

namespace RespProxy.Proxy

open Cluster Command Resp Interact

variable {cfg : Config}
variable {bs : List (List ClientCmd)} {r : Session × Outcome} {tr : Trace}
variable {cs b : List ClientCmd} {A : Event → Prop} {B B' : BatchRel}

/-- The events write nothing to backends or to the client. -/
def Quiet (tr : Trace) : Prop := ∀ e ∈ tr, Foot (fun _ => False) (fun _ _ => False) e

/-- Every answer is possible. -/
abbrev anyAnswer : Event → Prop := fun _ => True

theorem Silent.quiet {α : Type} {Q : α → Prop} {p : Prog α} {a : α}
    (hp : Silent anyAnswer Q p) (h : p.Runs tr a) : Quiet tr ∧ Q a :=
  Prog.Ensures.runs hp h fun _ _ => trivial

/-- The events read the topology or close connections. -/
def IdleTrace (tr : Trace) : Prop := ∀ e ∈ tr, IdleEvent e

theorem IdleTrace.quiet (h : IdleTrace tr) : Quiet tr := fun e he => (h e he).foot

/-! ## Commands one after the other -/

/-- A condition on a command, on the state it is translated in and on what happens. -/
abbrev StepCond := Session → ClientCmd → Trace → Prop

/-- No condition. -/
abbrev anyStep : StepCond := fun _ _ _ => True

/-- The runs of `handleSeq` in which every command meets `D`. -/
inductive SeqRun (cfg : Config) (D : StepCond) :
    Session → List ClientCmd → Trace → Session × Outcome → Prop where
  | nil {s : Session} : SeqRun cfg D s [] [] (s, .ok)
  | stop {s s' : Session} {c : ClientCmd} {cs : List ClientCmd} {tr : Trace} {o : Outcome}
      (hD : D s c tr) (h : (handle cfg s c).Runs tr (s', o)) (ho : o ≠ .ok) :
      SeqRun cfg D s (c :: cs) tr (s', o)
  | step {s s' : Session} {c : ClientCmd} {cs : List ClientCmd} {tr tr' : Trace}
      {r : Session × Outcome} (hD : D s c tr) (h : (handle cfg s c).Runs tr (s', .ok))
      (hs : SeqRun cfg D s' cs tr' r) : SeqRun cfg D s (c :: cs) (tr ++ tr') r

theorem handleSeq_runs {s : Session} :
    (handleSeq cfg s cs).Runs tr r ↔ SeqRun cfg anyStep s cs tr r := by
  induction cs generalizing s tr with
  | nil =>
    constructor
    · rintro ⟨rfl, rfl⟩
      exact .nil
    · rintro ⟨⟩
      exact ⟨rfl, rfl⟩
  | cons c cs ih =>
    constructor
    · intro h
      obtain ⟨t₁, ⟨s', o⟩, t₂, h₁, h₂, rfl⟩ := Prog.runs_bind.1 h
      cases o with
      | ok => exact .step trivial h₁ (ih.1 h₂)
      | err e | panic | running =>
        obtain ⟨rfl, rfl⟩ := h₂
        rw [List.append_nil]
        exact .stop trivial h₁ (by simp)
    · intro h
      refine Prog.runs_bind.2 ?_
      cases h with
      | @stop _ s' _ _ _ o _ h ho =>
        refine ⟨tr, (s', o), [], h, ?_, by simp⟩
        cases o with
        | ok => exact absurd rfl ho
        | err e | panic | running => exact ⟨rfl, rfl⟩
      | step _ h hs => exact ⟨_, _, _, h, ih.2 hs, rfl⟩

/-! ## One batch -/

/-- The runs of `handleBatch`: one command, a panic of the classification, a slow
batch or a fast one. Every command meets `D` in the state it is translated in. -/
inductive BatchRun (cfg : Config) (D : StepCond) (s : Session) :
    List ClientCmd → Trace → Session × Outcome → Prop where
  | one {c : ClientCmd} {tr : Trace} {r : Session × Outcome} (hD : D s c tr)
      (h : (handle cfg s c).Runs tr r) : BatchRun cfg D s [c] tr r
  | panic {b : List ClientCmd} {tr : Trace} {s' : Session} (hb : b.length ≠ 1)
      (hq : IdleTrace tr) : BatchRun cfg D s b tr (s', .panic)
  | slow {b : List ClientCmd} {tr tr' : Trace} {r : Session × Outcome} (hb : b.length ≠ 1)
      (hs : batchSlow cfg s b = true) (hq : IdleTrace tr)
      (h : SeqRun cfg D (batchState cfg s b) b tr' r) : BatchRun cfg D s b (tr ++ tr') r
  | fast {b : List ClientCmd} {ks : List Classified} {tr tr' : Trace} {r : Session × Outcome}
      (hb : b.length ≠ 1) (hs : batchSlow cfg s b = false) (hq : IdleTrace tr)
      (hk : ClassifiesAll cfg s b ks)
      (hD : ∀ pre c post, b = pre ++ c :: post → D (batchState cfg s pre) c tr')
      (h : (execFastPipeline cfg (batchState cfg s b) b ks).Runs tr' r) :
      BatchRun cfg D s b (tr ++ tr') r

theorem handleBatch_runs {s : Session}
    (h : (handleBatch cfg s b).Runs tr r) : BatchRun cfg anyStep s b tr r := by
  by_cases hb : b.length = 1
  · obtain ⟨c, rfl⟩ := List.length_eq_one_iff.1 hb
    exact .one trivial h
  · unfold handleBatch at h
    split at h
    · simp at hb
    obtain ⟨t₁, ⟨s', ks⟩, t₂, h₁, h₂, rfl⟩ := Prog.runs_bind.1 h
    obtain ⟨hquiet, hpost⟩ := (classifyAll_idle (A := anyAnswer) s b).runs h₁ fun _ _ => trivial
    cases ks with
    | none =>
      obtain ⟨rfl, rfl⟩ := h₂
      rw [List.append_nil]
      exact .panic hb hquiet
    | some ks =>
      obtain ⟨rfl, hk⟩ := hpost ks rfl
      dsimp only at h₂
      rw [hk.slow_eq] at h₂
      split at h₂
      · rename_i hslow
        exact .slow hb hslow hquiet (handleSeq_runs.1 h₂)
      · rename_i hslow
        exact .fast hb (by simpa using hslow) hquiet hk (fun _ _ _ _ => trivial) h₂

/-! ## The loop -/

/-- A relation for one batch: state, batch, trace, result. -/
abbrev BatchRel := Session → List ClientCmd → Trace → Session × Outcome → Prop

/-- The runs of the loop whose batches go as `B` says. -/
inductive LoopRun (B : BatchRel) :
    Session → List (List ClientCmd) → Trace → Session × Outcome → Prop where
  | nil {s : Session} : LoopRun B s [] [] (s, .ok)
  | quit {s : Session} {b : List ClientCmd} {bs : List (List ClientCmd)} (hq : s.quit = true) :
      LoopRun B s (b :: bs) [] (s, .ok)
  | cancelled {s : Session} {b : List ClientCmd} {bs : List (List ClientCmd)} {e : Err}
      (hq : s.quit = false) : LoopRun B s (b :: bs) [⟨.ctxErr, some e⟩] (s, .err e)
  | stop {s s' : Session} {b : List ClientCmd} {bs : List (List ClientCmd)} {tr : Trace}
      {o : Outcome} (hq : s.quit = false) (h : B s b tr (s', o)) (ho : o ≠ .ok) :
      LoopRun B s (b :: bs) (⟨.ctxErr, none⟩ :: tr) (s', o)
  | step {s s' : Session} {b : List ClientCmd} {bs : List (List ClientCmd)} {tr tr' : Trace}
      {r : Session × Outcome} (hq : s.quit = false) (h : B s b tr (s', .ok))
      (hs : LoopRun B s' bs tr' r) :
      LoopRun B s (b :: bs) (⟨.ctxErr, none⟩ :: tr ++ tr') r

theorem LoopRun.mono {s : Session} (h : LoopRun B s bs tr r)
    (hB : ∀ b ∈ bs, ∀ s tr r, B s b tr r → B' s b tr r) : LoopRun B' s bs tr r := by
  induction h with
  | nil => exact .nil
  | quit hq => exact .quit hq
  | cancelled hq => exact .cancelled hq
  | stop hq h ho => exact .stop hq (hB _ List.mem_cons_self _ _ _ h) ho
  | step hq h _ ih =>
    exact .step hq (hB _ List.mem_cons_self _ _ _ h)
      (ih fun b hb => hB b (List.mem_cons_of_mem _ hb))

/-- The runs of `handleBatch`. -/
abbrev Handles (cfg : Config) : BatchRel := fun s b tr r => (handleBatch cfg s b).Runs tr r

/-- Without a condition these are the runs of `runLoop`. -/
theorem runLoop_runs {s : Session} : (runLoop cfg s bs).Runs tr r ↔ LoopRun (Handles cfg) s bs tr r := by
  induction bs generalizing s tr with
  | nil =>
    constructor
    · rintro ⟨rfl, rfl⟩
      exact .nil
    · rintro ⟨⟩
      exact ⟨rfl, rfl⟩
  | cons b bs ih =>
    -- `s.quit` is looked at before the next batch is read
    cases hq : s.quit with
    | true =>
      have hend : runLoop cfg s (b :: bs) = pure (s, .ok) := by
        simp only [runLoop, hq, if_true]
      rw [hend]
      constructor
      · rintro ⟨rfl, rfl⟩
        exact .quit hq
      · intro h
        cases h with
        | quit => exact ⟨rfl, rfl⟩
        | cancelled hq' | stop hq' | step hq' => simp [hq] at hq'
    | false =>
      rw [runLoop, if_neg (by simp [hq])]
      refine Prog.runs_req_bind.trans ?_
      constructor
      · rintro ⟨x, t, rfl, h⟩
        cases x with
        | some e =>
          obtain ⟨rfl, rfl⟩ := h
          exact .cancelled hq
        | none =>
          obtain ⟨t₁, ⟨s', o⟩, t₂, h₁, h₂, rfl⟩ := Prog.runs_bind.1 h
          cases o with
          | ok => exact .step hq h₁ (ih.1 h₂)
          | err e | panic | running =>
            obtain ⟨rfl, rfl⟩ := h₂
            rw [List.append_nil]
            exact .stop hq h₁ (by simp)
      · intro h
        cases h with
        | quit hq' => simp [hq] at hq'
        | cancelled => exact ⟨some _, [], rfl, rfl, rfl⟩
        | @stop _ s' _ _ t o _ h ho =>
          refine ⟨none, t, rfl, Prog.runs_bind.2 ⟨t, (s', o), [], h, ?_, by simp⟩⟩
          cases o with
          | ok => exact absurd rfl ho
          | err e | panic | running => exact ⟨rfl, rfl⟩
        | step _ h hs =>
          exact ⟨none, _, rfl, Prog.runs_bind.2 ⟨_, _, _, h, ih.2 hs, rfl⟩⟩

/-! ## Whole runs -/

/-- The runs of a new session whose batches go as `B` says. -/
def RunsBy (cfg : Config) (B : BatchRel) (bs : List (List ClientCmd)) (tr : Trace)
    (r : Session × Outcome) : Prop :=
  ∃ tr₁ tr₂, LoopRun B (newSession cfg) bs tr₁ r ∧ (closeDown r).Runs tr₂ r ∧ tr = tr₁ ++ tr₂

/-- The runs of a new session in which every batch meets `C`. -/
def RunsWhile (cfg : Config) (C : Session → List ClientCmd → Prop) :=
  RunsBy cfg fun s b tr r => C s b ∧ Handles cfg s b tr r

/-- The runs of a new session in which every command meets `D`. -/
def RunsStepwise (cfg : Config) (D : StepCond) := RunsBy cfg (BatchRun cfg D)

theorem RunsBy.mono (h : RunsBy cfg B bs tr r)
    (hB : ∀ b ∈ bs, ∀ s tr r, B s b tr r → B' s b tr r) : RunsBy cfg B' bs tr r := by
  obtain ⟨tr₁, tr₂, hloop, hclose, rfl⟩ := h
  exact ⟨tr₁, tr₂, hloop.mono hB, hclose, rfl⟩

theorem dropAll_silent (cs : List ConnId) :
    Silent A (fun _ => True) (dropAll cs) := by
  induction cs with
  | nil => trivial
  | cons c cs ih => exact fun _ _ => ⟨trivial, ih⟩

theorem closeDown_silent (r : Session × Outcome) :
    Silent A (fun r' => r' = r) (closeDown r) := by
  unfold closeDown
  split
  · rfl
  · have hclean : Silent A (fun _ => True) (cleanup r.1) := by
      refine (dropPin_silent r.1).bind ?_
      intro _ _
      cases r.1.sub with
      | none => trivial
      | some mode => exact fun cs _ => ⟨trivial, dropAll_silent cs⟩
    exact hclean.bind fun _ _ => rfl

/-- The runs of `run` from a new session. -/
theorem run_runs : (run cfg (newSession cfg) bs).Runs tr r ↔ RunsBy cfg (Handles cfg) bs tr r := by
  constructor
  · intro h
    obtain ⟨t₁, r', t₂, h₁, h₂, rfl⟩ := Prog.runs_bind.1 h
    obtain ⟨-, rfl⟩ := Silent.quiet (closeDown_silent r') h₂
    exact ⟨t₁, t₂, runLoop_runs.1 h₁, h₂, rfl⟩
  · rintro ⟨t₁, t₂, h₁, h₂, rfl⟩
    exact Prog.runs_bind.2 ⟨t₁, r, t₂, runLoop_runs.2 h₁, h₂, rfl⟩

/-- Without a condition all runs go step by step. -/
theorem runsStepwise_of_runs
    (h : (run cfg (newSession cfg) bs).Runs tr r) : RunsStepwise cfg anyStep bs tr r :=
  (run_runs.1 h).mono fun _ _ _ _ _ => handleBatch_runs

/-! ## What runs write -/

/-- Frames in `S` and, to each of the commands `cs`, replies that satisfy `G`. -/
def Writes (S : Frame → Prop) (G : ClientCmd → Value → Prop) (cs : List ClientCmd) (e : Event) :
    Prop :=
  Foot S (fun id v => ∀ i, id = some i → ∃ c ∈ cs, i = c.id ∧ G c v) e

/-- The obligations for `Writes` along a run: the invariant is kept by `handle` and by
the classification pass, and from it `handle` and the fast path write what they may. -/
structure StepRule (cfg : Config) (D : StepCond) (Inv : Session → Prop) (S : Frame → Prop)
    (G : ClientCmd → Value → Prop) : Prop where
  init : Inv (newSession cfg)
  handled : ∀ {s c tr r}, Inv s → D s c tr → (handle cfg s c).Runs tr r →
    Inv r.1 ∧ ∀ e ∈ tr, Foot S (fun id v => id = some c.id ∧ G c v) e
  classified : ∀ {s c}, Inv s → Inv (classifyState cfg s c)
  piped : ∀ {s c tr f}, Inv s → D s c tr → FastFrame cfg s c f → S f
  answered : ∀ {c}, pipelineSlow c = false → ∀ v, G c v

section

variable {D : StepCond} {Inv : Session → Prop} {S : Frame → Prop} {G : ClientCmd → Value → Prop}
variable {s : Session} {tr : Trace} {r : Session × Outcome}

theorem Writes.mono {cs ds : List ClientCmd} {e : Event} (h : Writes S G cs e) (hsub : cs ⊆ ds) :
    Writes S G ds e := by
  refine Foot.mono h (fun _ hf => hf) fun id v hr i hi => ?_
  obtain ⟨c, hc, hid, hG⟩ := hr i hi
  exact ⟨c, hsub hc, hid, hG⟩

theorem Quiet.writes (h : Quiet tr) (cs : List ClientCmd) : ∀ e ∈ tr, Writes S G cs e :=
  fun e he => (h e he).mono (fun _ hf => hf.elim) fun _ _ hr => hr.elim

theorem quiet_ctxErr (x : Option Err) : Quiet [⟨.ctxErr, x⟩] := by
  intro e he
  rw [List.mem_singleton.1 he]
  trivial

theorem StepRule.handle (hrule : StepRule cfg D Inv S G) {c : ClientCmd} (hs : Inv s)
    (hD : D s c tr) (h : (Proxy.handle cfg s c).Runs tr r) :
    Inv r.1 ∧ ∀ e ∈ tr, Writes S G [c] e := by
  obtain ⟨hInv, htr⟩ := hrule.handled hs hD h
  refine ⟨hInv, fun e he => (htr e he).mono (fun _ hf => hf) ?_⟩
  rintro id v ⟨rfl, hG⟩ i hi
  cases hi
  exact ⟨c, by simp, rfl, hG⟩

theorem StepRule.seq (hrule : StepRule cfg D Inv S G) (hs : Inv s)
    (h : SeqRun cfg D s cs tr r) : Inv r.1 ∧ ∀ e ∈ tr, Writes S G cs e := by
  induction h with
  | nil => exact ⟨hs, fun e he => (List.not_mem_nil he).elim⟩
  | stop hD h =>
    obtain ⟨hInv, htr⟩ := hrule.handle hs hD h
    exact ⟨hInv, fun e he => (htr e he).mono (by simp)⟩
  | step hD h _ ih =>
    obtain ⟨hInv, htr⟩ := hrule.handle hs hD h
    obtain ⟨hInv', htr'⟩ := ih hInv
    refine ⟨hInv', fun e he => ?_⟩
    rcases List.mem_append.1 he with he | he
    · exact (htr e he).mono (by simp)
    · exact (htr' e he).mono (by simp)

theorem StepRule.pass (hrule : StepRule cfg D Inv S G) (hs : Inv s) (b : List ClientCmd) :
    Inv (batchState cfg s b) := by
  induction b generalizing s with
  | nil => exact hs
  | cons c cs ih => exact ih (hrule.classified hs)

theorem StepRule.batch (hrule : StepRule cfg D Inv S G) (hs : Inv s)
    (h : BatchRun cfg D s b tr r) : (r.2 ≠ .panic → Inv r.1) ∧ ∀ e ∈ tr, Writes S G b e := by
  cases h with
  | one hD h =>
    obtain ⟨hInv, htr⟩ := hrule.handle hs hD h
    exact ⟨fun _ => hInv, htr⟩
  | panic _ hq => exact ⟨fun h => absurd rfl h, hq.quiet.writes b⟩
  | slow _ _ hq h =>
    obtain ⟨hInv, htr⟩ := hrule.seq (hrule.pass hs b) h
    refine ⟨fun _ => hInv, fun e he => ?_⟩
    rcases List.mem_append.1 he with he | he
    · exact hq.quiet.writes b e he
    · exact htr e he
  | fast _ hslow hq hk hD h =>
    obtain ⟨htr, hr⟩ := (execFastPipeline_sends (A := anyAnswer) hk).runs h fun _ _ => trivial
    refine ⟨fun _ => hr ▸ hrule.pass hs b, fun e he => ?_⟩
    rcases List.mem_append.1 he with he | he
    · exact hq.quiet.writes b e he
    · refine (htr e he).mono ?_ ?_
      · rintro f ⟨pre, c, post, rfl, hf⟩
        exact hrule.piped (hrule.pass hs pre) (hD pre c post rfl) hf
      · rintro id v (rfl | ⟨c, hc, rfl⟩) i hi
        · cases hi
        · cases hi
          exact ⟨c, hc, rfl, hrule.answered (not_slow_of_mem hslow hc) v⟩

theorem StepRule.loop (hrule : StepRule cfg D Inv S G) (hs : Inv s)
    (h : LoopRun (BatchRun cfg D) s bs tr r) : ∀ e ∈ tr, Writes S G bs.flatten e := by
  induction h with
  | nil => exact fun e he => (List.not_mem_nil he).elim
  | quit => exact fun e he => (List.not_mem_nil he).elim
  | cancelled => exact (quiet_ctxErr _).writes _
  | stop _ h =>
    intro e he
    rw [← List.singleton_append] at he
    rcases List.mem_append.1 he with he | he
    · exact (quiet_ctxErr none).writes _ e he
    · exact ((hrule.batch hs h).2 e he).mono (by simp)
  | step _ h _ ih =>
    obtain ⟨hInv, htr⟩ := hrule.batch hs h
    intro e he
    rw [← List.singleton_append, List.append_assoc] at he
    rcases List.mem_append.1 he with he | he
    · exact (quiet_ctxErr none).writes _ e he
    rcases List.mem_append.1 he with he | he
    · exact (htr e he).mono (by simp)
    · exact (ih (hInv (by simp)) e he).mono (by simp)

/-- **What the rule promises holds of every run whose steps meet `D`.** -/
theorem StepRule.runs (hrule : StepRule cfg D Inv S G)
    (h : RunsStepwise cfg D bs tr r) : ∀ e ∈ tr, Writes S G bs.flatten e := by
  obtain ⟨tr₁, tr₂, hloop, hclose, rfl⟩ := h
  have hquiet : Quiet tr₂ := (Silent.quiet (closeDown_silent r) hclose).1
  intro e he
  rcases List.mem_append.1 he with he | he
  · exact hrule.loop hrule.init hloop e he
  · exact hquiet.writes _ e he

end

end RespProxy.Proxy
