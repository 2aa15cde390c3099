import Mathlib.Data.List.Nodup
import RespProxy.Proxy.Names
import RespProxy.Proxy.Replies

/-! # Commands that are refused

`FLUSHALL` and `SWAPDB` would reach into every virtual database, and `handle`
refuses them. The check stands behind the queueing of `MULTI`, though, and
`EXEC` sends what was queued without looking at it again.

* `Refuses`: no such command reaches a backend, and the client gets an error for it;
* `NotQueued`: the condition on a step, that none of them comes inside `MULTI`.
-/

namespace RespProxy.Proxy

open Cluster Command Resp

variable {cfg : Config}
variable {c : ClientCmd} {s : Session} {r : Session × Outcome}
variable {tr : Trace} {D : StepCond}

def refusedNames : List String := ["FLUSHALL", "SWAPDB"]

/-- The error `handle` has for a refused command. -/
def rejection (c : ClientCmd) : Value := if c.name = "SWAPDB" then errSwapDB else errFlushAll

/-- A refused command is answered with its error, or with the one for clients that
are not authenticated or that are subscribed. -/
def Rejected (c : ClientCmd) (v : Value) : Prop :=
  c.name ∈ refusedNames → v ∈ [rejection c, errNoAuth, errSubMode]

/-- No refused command is sent, and each is answered with an error. -/
structure Refuses (bs : List (List ClientCmd)) (tr : Trace) (r : Session × Outcome) : Prop where
  frames : ∀ conn f, (conn, f) ∈ written tr → nameOf f.argv ∉ refusedNames
  replies : ∀ c ∈ bs.flatten, ∀ v x, (some c.id, v, x) ∈ replies tr → Rejected c v
  answered : r.2 = .ok → r.1.quit = false → ∀ c ∈ bs.flatten, c.name ∈ refusedNames →
    ∃ v x, (some c.id, v, x) ∈ RespProxy.replies tr

/-- The command is not a refused one that `MULTI` would queue. -/
def NotQueued : StepCond := fun s c _ => s.multi = true → c.name ∉ refusedNames

/-- Nothing in the queue is refused. -/
def QueueClean (s : Session) : Prop := ∀ q ∈ s.queued, nameOf q.argv ∉ refusedNames

/-! ## One command -/

theorem unsent_refusedNames : Unsent refusedNames := ⟨by decide, by decide, by decide⟩

/-- A refused command is refused wherever it is not queued. -/
theorem answerHere_refused (cfg : Config) (hn : c.name ∈ refusedNames) (hm : s.multi = false) :
    ∃ v ∈ [rejection c, errNoAuth, errSubMode], answerHere cfg s c = some v := by
  have hcases : c.name = "FLUSHALL" ∨ c.name = "SWAPDB" := by simpa [refusedNames] using hn
  by_cases hsub : s.sub = none
  · have hsel : c.name ≠ "SELECT" := by rcases hcases with h | h <;> simp [h]
    have hargv : c.argv ≠ [] := by
      refine ClientCmd.argv_ne_nil ?_
      rcases hcases with h | h <;> simp [h]
    have hname : nameOf c.argv ∉ localNames := by
      rw [← ClientCmd.name_of_ne hargv]
      rcases hcases with h | h <;> (rw [h]; decide)
    cases hl : (localStep cfg s c.argv).2 with
    | none =>
      refine ⟨rejection c, by simp, ?_⟩
      rw [answerHere_remote hsub hsel hl]
      rcases hcases with h | h <;> simp [h, hm, rejection]
    | some v =>
      have hlocal := localStep_local cfg s c.argv
      refine ⟨errNoAuth, by simp, ?_⟩
      have hv : v = errNoAuth := by
        generalize localStep cfg s c.argv = r at hlocal hl
        cases hlocal with
        | pass => cases hl
        | noAuth =>
          cases hl
          rfl
        | answer hn => exact absurd hn hname
        | auth hn => exact absurd (by revert hn; simp +contextual [localNames]; grind) hname
        | quit hn => exact absurd (by simp [hn, localNames]) hname
        | reset _ hn => exact absurd (by simp [hn, localNames]) hname
      simp [answerHere, hsub, hsel, hl, hv]
  · refine ⟨errSubMode, by simp, ?_⟩
    rw [answerHere_sub cfg c hsub, if_pos]
    rcases hcases with h | h <;> (rw [h]; decide)

/-- In subscribe mode the error is the whole answer. -/
theorem handleSub_refused {mode : Mode} (hn : c.name ∈ refusedNames)
    (hargv : c.argv ≠ []) : handleSub cfg s mode c = replyAll s c.id [errSubMode] := by
  have hcases : c.name = "FLUSHALL" ∨ c.name = "SWAPDB" := by simpa [refusedNames] using hn
  unfold handleSub handleClientCmd
  rw [← ClientCmd.name_of_ne hargv]
  rcases hcases with h | h <;> (rw [h]; rfl)

/-- Unless it ends the session, `handle` writes a reply to a refused command. -/
theorem handle_replies
    (h : (handle cfg s c).Runs tr r) (hn : c.name ∈ refusedNames) (hok : r.2 = .ok) :
    ∃ v x, (some c.id, v, x) ∈ replies tr := by
  have hcases : c.name = "FLUSHALL" ∨ c.name = "SWAPDB" := by simpa [refusedNames] using hn
  have hargv : c.argv ≠ [] := by
    refine ClientCmd.argv_ne_nil ?_
    rcases hcases with h | h <;> simp [h]
  cases hs : s.sub with
  | none =>
    have hone := handle_oneReply hs (by rcases hcases with h | h <;> simp [h]) tr r h hok
    obtain ⟨⟨id, v, x⟩, hx, hid⟩ := List.map_eq_singleton_iff.1 hone
    cases hid
    exact ⟨v, x, by simp [hx]⟩
  | some mode =>
    have hprog : handle cfg s c = replyAll s c.id [errSubMode] := by
      unfold handle
      rw [hs]
      dsimp only
      rw [if_neg hargv, handleSub_refused hn hargv]
    rw [hprog] at h
    obtain ⟨t₁, o, t₂, h₁, h₂, rfl⟩ := Interact.Prog.runs_bind.1 h
    cases o with
    | ok =>
      have hreply := reply_sat _ _ t₁ .ok h₁ rfl
      exact ⟨errSubMode, none, by simp [replies_append, hreply]⟩
    | err e | panic | running =>
      obtain ⟨-, rfl⟩ := h₂
      cases hok

/-! ## Runs -/

theorem stepRule_refuses (cfg : Config) :
    StepRule cfg NotQueued QueueClean (fun f => nameOf f.argv ∉ refusedNames) Rejected where
  init := fun q hq => (List.not_mem_nil hq).elim
  handled := by
    intro s c tr r hs hD h
    obtain ⟨htr, hafter⟩ := (handle_sends anyAnswer cfg s c).runs h fun _ _ => trivial
    have hqueue := hafter.queueSpares hs unsent_refusedNames.empty fun hm _ => hD hm
    refine ⟨hqueue, fun e he => (htr e he).mono ?_ ?_⟩
    · exact fun f hf => hf.unsent unsent_refusedNames hs fun _ => by decide
    · rintro id v ⟨rfl, hv⟩
      refine ⟨rfl, fun hn => ?_⟩
      have hm : s.multi = false := by
        by_contra hm
        exact hD (by simpa using hm) hn
      obtain ⟨w, hw, hhere⟩ := answerHere_refused cfg hn hm
      rwa [hv w hhere]
  classified := fun hs => classifyState_queueSpares hs _
  piped := fun _ _ hf => hf.unsent unsent_refusedNames
  answered := by
    intro c hslow v hn
    have hall : ∀ w ∈ refusedNames, w ∈ slowNames := by decide
    exact absurd rfl (name_ne_of_not_slow hslow (hall _ hn))

theorem seqRun_answered {cs : List ClientCmd} (h : SeqRun cfg D s cs tr r) (hok : r.2 = .ok)
    (hc : c ∈ cs) (hn : c.name ∈ refusedNames) : ∃ v x, (some c.id, v, x) ∈ replies tr := by
  induction h with
  | nil => cases hc
  | stop _ _ ho => exact absurd hok ho
  | step _ h _ ih =>
    rcases List.mem_cons.1 hc with rfl | hc
    · obtain ⟨v, x, hx⟩ := handle_replies h hn rfl
      exact ⟨v, x, by simp [replies_append, hx]⟩
    · obtain ⟨v, x, hx⟩ := ih hok hc
      exact ⟨v, x, by simp [replies_append, hx]⟩

theorem batchRun_answered {b : List ClientCmd} (h : BatchRun cfg D s b tr r) (hok : r.2 = .ok)
    (hc : c ∈ b) (hn : c.name ∈ refusedNames) : ∃ v x, (some c.id, v, x) ∈ replies tr := by
  cases h with
  | one _ h =>
    rw [List.mem_singleton.1 hc] at hn ⊢
    exact handle_replies h hn hok
  | panic => cases hok
  | slow _ _ _ h =>
    obtain ⟨v, x, hx⟩ := seqRun_answered h hok hc hn
    exact ⟨v, x, by simp [replies_append, hx]⟩
  | fast _ hslow =>
    have hall : ∀ w ∈ refusedNames, w ∈ slowNames := by decide
    exact absurd rfl (name_ne_of_not_slow (not_slow_of_mem hslow hc) (hall _ hn))

theorem loopRun_answered {bs : List (List ClientCmd)}
    (h : LoopRun (BatchRun cfg D) s bs tr r) (hok : r.2 = .ok)
    (hq : r.1.quit = false) (hc : c ∈ bs.flatten) (hn : c.name ∈ refusedNames) :
    ∃ v x, (some c.id, v, x) ∈ replies tr := by
  induction h with
  | nil => simp at hc
  | quit hquit => simp [hquit] at hq
  | cancelled => cases hok
  | stop _ _ ho => exact absurd hok ho
  | step _ h _ ih =>
    rw [List.flatten_cons, List.mem_append] at hc
    rcases hc with hc | hc
    · obtain ⟨v, x, hx⟩ := batchRun_answered h rfl hc hn
      refine ⟨v, x, mem_replies.2 (List.mem_append_left _ (List.mem_cons_of_mem _ ?_))⟩
      exact mem_replies.1 hx
    · obtain ⟨v, x, hx⟩ := ih hok hq hc
      exact ⟨v, x, mem_replies.2 (List.mem_append_right _ (mem_replies.1 hx))⟩

/-- **In a run in which no `FLUSHALL` or `SWAPDB` comes inside `MULTI`, none of them is
sent to a backend, and each is answered with an error.** -/
theorem refuses_of_notQueued {bs : List (List ClientCmd)} {tr : Trace} {r : Session × Outcome}
    (hids : (bs.flatten.map ClientCmd.id).Nodup) (hrun : RunsStepwise cfg NotQueued bs tr r) :
    Refuses bs tr r := by
  have hwrites := (stepRule_refuses cfg).runs hrun
  refine ⟨?_, ?_, ?_⟩
  · intro conn f hf
    obtain ⟨fs, x, he, hf⟩ := mem_written.1 hf
    exact hwrites _ he f hf
  · intro c hc v x hx
    obtain ⟨d, hd, hid, hG⟩ := hwrites _ (mem_replies.1 hx) c.id rfl
    rwa [List.inj_on_of_nodup_map hids hc hd hid]
  · intro hok hq c hc hn
    obtain ⟨tr₁, tr₂, hloop, -, rfl⟩ := hrun
    obtain ⟨v, x, hx⟩ := loopRun_answered hloop hok hq hc hn
    exact ⟨v, x, by simp [replies_append, hx]⟩

/-- A client that tries to flush everything. -/
def flushAll : List (List ClientCmd) := [[command 0 ["flushall"]]]

theorem refuses_of_notQueued_flushAll : ∃ tr r,
    RunsStepwise seeded NotQueued flushAll tr r ∧ Refuses flushAll tr r := by
  have hrun := scripted_runs (fun _ => calm fun _ => plusOK)
    (handle seeded (newSession seeded) (command 0 ["flushall"]))
  have hr : (scripted (fun _ => calm fun _ => plusOK)
      (handle seeded (newSession seeded) (command 0 ["flushall"]))).1 =
        (newSession seeded, .ok) := by decide +kernel
  rw [hr] at hrun
  have hsteps : RunsStepwise seeded NotQueued flushAll _ (newSession seeded, .ok) :=
    ⟨_, [], .step rfl (.one (fun hm => by cases hm) hrun) .nil, ⟨rfl, rfl⟩, rfl⟩
  exact ⟨_, _, hsteps, refuses_of_notQueued (by decide) hsteps⟩

/-- The same inside a transaction. -/
def flushAllInMulti : List (List ClientCmd) :=
  [[command 0 ["MULTI"]], [command 1 ["flushall"]], [command 2 ["EXEC"]]]

/-- `EXEC` sends a queued `FLUSHALL`. -/
theorem exec_sends_flushAll :
    ¬ ∀ tr r, (run seeded (newSession seeded) flushAllInMulti).Runs tr r →
      Refuses flushAllInMulti tr r := by
  intro h
  have hrefuses := h _ _ (scripted_runs (fun _ => calm fun _ => plusOK)
    (run seeded (newSession seeded) flushAllInMulti))
  have hsent : (0, { argv := (command 1 ["flushall"]).argv,
                     src := .client (command 1 ["flushall"]).id (command 1 ["flushall"]).argv 0 true }) ∈
      written (scripted (fun _ => calm fun _ => plusOK)
        (run seeded (newSession seeded) flushAllInMulti)).2 := by decide +kernel
  exact hrefuses.frames _ _ hsent (by decide +kernel)

end RespProxy.Proxy
