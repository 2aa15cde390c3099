import RespProxy.Proxy.Conclude

/-! # Redirects and the client

The forwarding paths of the proxy hide `-MOVED` and `-ASK` from the client. The
commands of `Relays` do not, and neither does `writePushes` with what the
goroutines of a subscribed session read.

* `Followed`: the steps after which no redirect is left to show;
* `HidesRedirects`: neither a reply nor a push is a redirect.
-/

namespace RespProxy.Proxy

open Cluster Command Resp

variable {cfg : Config} {s : Session} {c : ClientCmd}
variable {r : Session × Outcome} {tr : Trace} {v : Value}

/-! ## Steps -/

/-- The commands whose last reply is passed on show the redirects among these, and no
others do. -/
theorem handle_redirects (h : (handle cfg s c).Runs tr r) (hack : ∀ e ∈ tr, AckEvent e) :
    (∃ x ∈ replies tr, redirects x.2.1 = true) ↔ Relays s c ∧ Redirected (lastReply tr) :=
  (handle_concludes (P := True) (fun _ => trivial) (fun _ _ _ _ => trivial)
    (fun _ _ _ _ _ _ _ => trivial) tr r h).shows hack

/-! ## Batches -/

/-- The step does not pass on a redirect: it follows it, hides it or does not get one. -/
def Followed : StepCond := fun s c tr => ¬ (Relays s c ∧ Redirected (lastReply tr))

/-- No reply in the trace is a redirect. -/
def NoRedirect (tr : Trace) : Prop := ∀ x ∈ replies tr, redirects x.2.1 = false

theorem noRedirect_append {tr' : Trace} :
    NoRedirect (tr ++ tr') ↔ NoRedirect tr ∧ NoRedirect tr' := by
  unfold NoRedirect
  rw [replies_append]
  exact List.forall_mem_append

theorem Quiet.noRedirect (h : Quiet tr) : NoRedirect tr := by
  intro x hx
  rw [Quiet.replies h] at hx
  cases hx

theorem handle_noRedirect (h : (handle cfg s c).Runs tr r)
    (hack : ∀ e ∈ tr, AckEvent e) : NoRedirect tr ↔ Followed s c tr := by
  rw [Followed, ← handle_redirects h hack]
  simp [NoRedirect]

theorem SeqRun.followed {b : List ClientCmd}
    (h : SeqRun cfg anyStep s b tr r) (hack : ∀ e ∈ tr, AckEvent e) (hno : NoRedirect tr) :
    SeqRun cfg Followed s b tr r := by
  induction h with
  | nil => exact .nil
  | stop _ h ho => exact .stop ((handle_noRedirect h hack).1 hno) h ho
  | step _ h _ ih =>
    obtain ⟨hack₁, hack₂⟩ := List.forall_mem_append.1 hack
    obtain ⟨hno₁, hno₂⟩ := noRedirect_append.1 hno
    exact .step ((handle_noRedirect h hack₁).1 hno₁) h (ih hack₂ hno₂)

theorem SeqRun.noRedirect {b : List ClientCmd}
    (h : SeqRun cfg Followed s b tr r) (hack : ∀ e ∈ tr, AckEvent e) : NoRedirect tr := by
  induction h with
  | nil => exact fun x hx => (List.not_mem_nil hx).elim
  | stop hD h => exact (handle_noRedirect h hack).2 hD
  | step hD h _ ih =>
    obtain ⟨hack₁, hack₂⟩ := List.forall_mem_append.1 hack
    exact noRedirect_append.2 ⟨(handle_noRedirect h hack₁).2 hD, ih hack₂⟩

/-- A fast batch hides every redirect. -/
theorem execFastPipeline_hides (s : Session) (b : List ClientCmd) (ks : List Classified) :
    Hides (fun _ => True) (execFastPipeline cfg s b ks) := by
  refine (Interact.Prog.ensures_parList (R := fun _ _ => True) fun g _ =>
    Sends.any (flushGroup_sends fun _ _ => ⟨trivial, trivial, trivial⟩)).bind ?_
  intro rs _
  split
  · refine (pickErr_inner _).sends.bind ?_
    intro e _
    exact (reply_sends (redirects_errOf e)).bind fun _ _ => trivial
  · refine fun x _ => ⟨trivial, ?_⟩
    cases x with
    | some e => trivial
    | none =>
      refine (writeReplies_sends ?_).bind fun _ _ => trivial
      intro y hy
      obtain ⟨z, -, rfl⟩ := List.mem_map.1 hy
      exact redirects_clientReply _ _ _

theorem not_relays_of_not_slow (h : pipelineSlow c = false) : ¬ Relays s c := by
  rintro ⟨-, hn⟩
  have hslow : c.name ∉ slowNames := by
    simp only [pipelineSlow, Bool.or_eq_false_iff, decide_eq_false_iff_not] at h
    exact h.2
  have hall : ∀ w ∈ ["WATCH", "EXEC", "PUBLISH", "SPUBLISH", "RANDOMKEY", "FLUSHDB"],
      w ∈ slowNames := by decide
  refine hslow (hall _ ?_)
  rcases hn with hn | ⟨hn, -⟩
  · exact List.mem_append_left ["FLUSHDB"] hn
  · simp [hn]

/-- A batch shows no redirect if and only if none of its steps passes one on. -/
theorem handleBatch_noRedirect {b : List ClientCmd}
    (h : (handleBatch cfg s b).Runs tr r) (hack : ∀ e ∈ tr, AckEvent e) :
    NoRedirect tr ↔ BatchRun cfg Followed s b tr r := by
  constructor
  · intro hno
    cases handleBatch_runs h with
    | one _ h => exact .one ((handle_noRedirect h hack).1 hno) h
    | panic hb hq => exact .panic hb hq
    | slow hb hs hq h =>
      exact .slow hb hs hq (h.followed (List.forall_mem_append.1 hack).2 (noRedirect_append.1 hno).2)
    | fast hb hs hq hk _ h =>
      refine .fast hb hs hq hk ?_ h
      rintro pre c post rfl ⟨hr, -⟩
      exact not_relays_of_not_slow (not_slow_of_mem hs (by simp)) hr
  · intro h
    cases h with
    | one hD h => exact (handle_noRedirect h hack).2 hD
    | panic _ hq => exact Quiet.noRedirect hq.quiet
    | slow _ _ hq h =>
      obtain ⟨-, hack⟩ := List.forall_mem_append.1 hack
      exact noRedirect_append.2 ⟨Quiet.noRedirect hq.quiet, h.noRedirect hack⟩
    | fast _ _ hq _ _ h =>
      obtain ⟨-, hack⟩ := List.forall_mem_append.1 hack
      refine noRedirect_append.2 ⟨Quiet.noRedirect hq.quiet, ?_⟩
      have hfoot := ((execFastPipeline_hides _ _ _).runs h hack).1
      rintro ⟨id, v, x⟩ hx
      exact hfoot _ (mem_replies.1 hx)

/-! ## Pushes -/

/-- What `writePushes` sends the client of the values that were read. -/
def pushes (mode : Mode) (reads : List Value) : List Value :=
  reads.filterMap fun v => match incoming mode v with
    | .push w => some w
    | .ack _ => none

/-- What `waitAck` returns is an acknowledgement one of the goroutines has read. -/
def Acknowledged (mode : Mode) (reads : List Value) (tr : Trace) : Prop :=
  ∀ conn v, (⟨.waitAck conn, .ok v⟩ : Event) ∈ tr → ∃ w ∈ reads, incoming mode w = .ack v

/-- Neither a reply nor a push is a redirect. -/
def HidesRedirects (tr : Trace) (mode : Mode) (reads : List Value) : Prop :=
  NoRedirect tr ∧ ∀ v ∈ pushes mode reads, redirects v = false

/-- Only the elements of an array are renamed. -/
theorem rewriteIncoming_same (v : Value) :
    (rewriteIncoming v).type = v.type ∧ (rewriteIncoming v).str = v.str := by
  unfold rewriteIncoming
  split
  · exact ⟨rfl, rfl⟩
  · dsimp only
    split_ifs <;> exact ⟨rfl, rfl⟩

/-- What is handed on is a redirect if what was read is one. -/
theorem incoming_redirects (mode : Mode) (v : Value) :
    ∃ w, redirects w = redirects v ∧ w.isError = v.isError ∧
      incoming mode v = if isAck v then .ack w else .push w := by
  refine ⟨if mode = .shardedRewrite then rewriteIncoming v else v, ?_, ?_, rfl⟩
  all_goals
    obtain ⟨htype, hstr⟩ := rewriteIncoming_same v
    split
    · simp [redirects, Value.equalKind, Value.errorKind, Value.isError, htype, hstr]
    · rfl

theorem not_error_of_isAck (h : isAck v = true) : v.isError = false := by
  unfold isAck at h
  split at h
  · cases h
  · rw [Bool.and_eq_true, decide_eq_true_eq] at h
    rcases h.1 with ht | ht <;> simp [Value.isError, ht]

theorem pushes_redirect (mode : Mode) (reads : List Value) :
    (∀ v ∈ pushes mode reads, redirects v = false) ↔ ∀ v ∈ reads, redirects v = false := by
  constructor
  · intro h v hv
    obtain ⟨w, hw, -, hin⟩ := incoming_redirects mode v
    cases hack : isAck v with
    | true => exact redirects_of_not_error (not_error_of_isAck hack)
    | false =>
      rw [← hw]
      refine h w (List.mem_filterMap.2 ⟨v, hv, ?_⟩)
      rw [hin, hack]
      rfl
  · intro h w hw
    obtain ⟨v, hv, hvw⟩ := List.mem_filterMap.1 hw
    obtain ⟨w', hw', -, hin⟩ := incoming_redirects mode v
    rw [hin] at hvw
    split at hvw
    · rename_i hpush
      split at hpush
      · cases hpush
      · cases hpush
        cases hvw
        rw [hw', h v hv]
    · cases hvw

theorem Acknowledged.ackEvent {mode : Mode} {reads : List Value}
    (h : Acknowledged mode reads tr) : ∀ e ∈ tr, AckEvent e := by
  rintro _ he conn v rfl
  obtain ⟨w, -, hw⟩ := h conn v he
  obtain ⟨w', -, herr, hin⟩ := incoming_redirects mode w
  rw [hin] at hw
  split at hw
  · rename_i hack
    cases hw
    rw [herr, not_error_of_isAck hack]
  · cases hw

/-- **A batch and the pushes beside it show the client no redirect if and only if no step
passes on a last reply that is one, and the reading goroutines get none.** -/
theorem hidesRedirects_iff_followed {b : List ClientCmd} {tr : Trace} {r : Session × Outcome}
    {mode : Mode} {reads : List Value} (h : (handleBatch cfg s b).Runs tr r)
    (hack : Acknowledged mode reads tr) :
    HidesRedirects tr mode reads ↔
      BatchRun cfg Followed s b tr r ∧ ∀ v ∈ reads, redirects v = false := by
  rw [HidesRedirects, handleBatch_noRedirect h hack.ackEvent, pushes_redirect]

/-- An answer of a node that does not own the slot. -/
def moved : Value := error "MOVED 1 10.0.0.2:6379"

/-- A `GET` that meets `MOVED` on every hop is answered without it. -/
theorem hidesRedirects_iff_followed_get :
    ∃ tr r, (handleBatch seeded (newSession seeded) [command 0 ["GET", "k"]]).Runs tr r ∧
      Acknowledged .passthrough [] tr ∧ (HidesRedirects tr .passthrough [] ↔
        BatchRun seeded Followed (newSession seeded) [command 0 ["GET", "k"]] tr r ∧
          ∀ v ∈ ([] : List Value), redirects v = false) := by
  have hrun := scripted_runs (fun _ => calm fun _ => moved)
    (handleBatch seeded (newSession seeded) [command 0 ["GET", "k"]])
  have hack : Acknowledged .passthrough [] (scripted (fun _ => calm fun _ => moved)
      (handleBatch seeded (newSession seeded) [command 0 ["GET", "k"]])).2 := by
    intro conn v hv
    have hnone : ∀ e ∈ (scripted (fun _ => calm fun _ => moved)
        (handleBatch seeded (newSession seeded) [command 0 ["GET", "k"]])).2,
        (match e.op with | .waitAck _ => false | _ => true) = true :=
      List.all_eq_true.1 (by decide +kernel)
    cases hnone _ hv
  exact ⟨_, _, hrun, hack, hidesRedirects_iff_followed hrun hack⟩

/-- `WATCH` shows the client the `MOVED` of its node. -/
theorem watch_shows_moved :
    ¬ ∀ tr r, (handleBatch seeded (newSession seeded) [command 0 ["WATCH", "k"]]).Runs tr r →
      HidesRedirects tr .passthrough [] := by
  intro h
  have hhides := h _ _ (scripted_runs (fun _ => calm fun _ => moved)
    (handleBatch seeded (newSession seeded) [command 0 ["WATCH", "k"]]))
  have hreply : (some (command 0 ["WATCH", "k"]).id, moved, none) ∈ replies
      (scripted (fun _ => calm fun _ => moved)
        (handleBatch seeded (newSession seeded) [command 0 ["WATCH", "k"]])).2 := by
    decide +kernel
  exact absurd (hhides.1 _ hreply) (by decide)

end RespProxy.Proxy
