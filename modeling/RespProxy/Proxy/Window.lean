import RespProxy.Proxy.Run

/-! # The window of a transaction

From an acknowledged `MULTI` up to `EXEC`, `DISCARD` or `RESET` the commands of
a session should only be queued. `handle` keeps to that; `classifyPipe` does
not look at `s.multi`, so a fast batch that arrives inside the window is sent
at once, and the classification pass runs a `RESET` ahead of its turn.

* `Window`: the window is open behind a list of commands;
* `WindowRun`: the commands of a run inside the window are only queued, and the
  session is inside `MULTI` where the window is open. It holds of one `handle`
  and composes (`WindowRun.step`);
* `KeepsWindow`: the batches that are harmless inside the window.
-/

namespace RespProxy.Proxy

open Cluster Command Resp

variable {cfg : Config}
variable {c : ClientCmd} {cs : List ClientCmd} {s : Session} {r : Session × Outcome} {tr : Trace}

/-! ## Windows -/

/-- The commands that close the window. -/
def closers : List String := ["EXEC", "DISCARD", "RESET"]

/-- A command that is neither part of the transaction protocol nor answered by
the proxy itself. -/
def DataCommand (c : ClientCmd) : Prop :=
  c.name ∉ ["MULTI", "EXEC", "DISCARD", "WATCH", "UNWATCH", "SELECT"] ∧ c.name ∉ localNames

/-- The window is open behind the commands, if it was (`w`) ahead of them. -/
def Window (acked : ClientCmd → Prop) (w : Prop) : List ClientCmd → Prop
  | [] => w
  | c :: cs => Window acked ((w ∨ c.name = "MULTI" ∧ acked c) ∧ c.name ∉ closers) cs

/-- The command was answered with `+OK`. -/
def Acked (tr : Trace) (c : ClientCmd) : Prop := (⟨.cwrite (some c.id) plusOK, none⟩ : Event) ∈ tr

/-- The frames for `c` were sent by `EXEC`, from the queue. -/
def FromExec (c : ClientCmd) (f : Frame) : Prop :=
  ∀ argv db queued, f.src = .client c.id argv db queued → queued = true

/-- The replies to `c` are `+QUEUED`. -/
def RepliesQueued (c : ClientCmd) (id : Option CmdId) (v : Value) : Prop :=
  id = some c.id → v = queuedReply

/-- All that happened to `c` is that it was queued. -/
def QueuedOnly (tr : Trace) (c : ClientCmd) : Prop :=
  ∀ e ∈ tr, Foot (FromExec c) (RepliesQueued c) e

section

variable {acked acked' : ClientCmd → Prop} {w w' : Prop}

theorem window_append {ds : List ClientCmd} :
    Window acked w (cs ++ ds) ↔ Window acked (Window acked w cs) ds := by
  induction cs generalizing w with
  | nil => rfl
  | cons c cs ih => exact ih

theorem Window.mono (h : Window acked w cs) (hw : w → w')
    (ha : ∀ c ∈ cs, acked c → acked' c) : Window acked' w' cs := by
  induction cs generalizing w w' with
  | nil => exact hw h
  | cons c cs ih =>
    refine ih h ?_ fun d hd => ha d (List.mem_cons_of_mem c hd)
    rintro ⟨hor, hc⟩
    refine ⟨?_, hc⟩
    rcases hor with h | ⟨hn, h⟩
    · exact .inl (hw h)
    · exact .inr ⟨hn, ha c List.mem_cons_self h⟩

/-- Without a `MULTI` the window was open all along. -/
theorem Window.of_no_multi (h : Window acked w cs)
    (hn : ∀ c ∈ cs, c.name ≠ "MULTI") : w ∧ ∀ c ∈ cs, c.name ∉ closers := by
  induction cs generalizing w with
  | nil =>
    refine ⟨h, ?_⟩
    intro c hc
    cases hc
  | cons c cs ih =>
    obtain ⟨⟨hor, hc⟩, hcs⟩ := ih h fun d hd => hn d (List.mem_cons_of_mem c hd)
    refine ⟨?_, ?_⟩
    · rcases hor with h | ⟨h, -⟩
      · exact h
      · exact absurd h (hn c List.mem_cons_self)
    · intro d hd
      rcases List.mem_cons.1 hd with rfl | hd
      · exact hc
      · exact hcs d hd

theorem Window.of_no_closer (h : w) (hc : ∀ c ∈ cs, c.name ∉ closers) :
    Window acked w cs := by
  induction cs generalizing w with
  | nil => exact h
  | cons c cs ih =>
    exact ih ⟨.inl h, hc c List.mem_cons_self⟩ fun d hd => hc d (List.mem_cons_of_mem c hd)

/-- An acknowledged `MULTI` opens the window up to the next closing command. -/
theorem window_of_multi {pre mid : List ClientCmd} {m : ClientCmd} (hm : m.name = "MULTI")
    (ha : acked m) (hmid : ∀ c ∈ mid, c.name ∉ closers) : Window acked w (pre ++ m :: mid) := by
  have hopen : (Window acked w pre ∨ m.name = "MULTI" ∧ acked m) ∧ m.name ∉ closers :=
    ⟨.inr ⟨hm, ha⟩, by rw [hm]; decide⟩
  rw [window_append]
  exact Window.of_no_closer (w := _ ∧ _) hopen hmid

end

/-! ## What a run owes its commands -/

/-- The frames belong to the given commands, unless `EXEC` sent them. -/
def FrameOf (ids : List CmdId) (f : Frame) : Prop :=
  ∀ id argv db queued, f.src = .client id argv db queued → queued = true ∨ id ∈ ids

/-- The replies belong to the given commands. -/
def ReplyOf (ids : List CmdId) (id : Option CmdId) (_ : Value) : Prop := ∀ i, id = some i → i ∈ ids

/-- Frames and replies of a trace belong to the given commands. -/
def Owned (cs : List ClientCmd) (tr : Trace) : Prop :=
  ∀ e ∈ tr, Foot (FrameOf (cs.map ClientCmd.id)) (ReplyOf (cs.map ClientCmd.id)) e

theorem Owned.mono {ds : List ClientCmd} (h : Owned cs tr)
    (hsub : ∀ id ∈ cs.map ClientCmd.id, id ∈ ds.map ClientCmd.id) : Owned ds tr := by
  intro e he
  refine (h e he).mono ?_ ?_
  · intro f hf id argv db queued hsrc
    exact (hf id argv db queued hsrc).imp_right (hsub id)
  · intro id v hr i hi
    exact hsub i (hr i hi)

theorem Quiet.owned (h : Quiet tr) (cs : List ClientCmd) : Owned cs tr :=
  fun e he => (h e he).mono (fun _ hf => hf.elim) fun _ _ hr => hr.elim

/-- A trace of other commands has no part in `c`. -/
theorem Owned.queuedOnly (h : Owned cs tr) (hc : c.id ∉ cs.map ClientCmd.id) : QueuedOnly tr c := by
  intro e he
  refine (h e he).mono ?_ ?_
  · intro f hf argv db queued hsrc
    exact (hf c.id argv db queued hsrc).resolve_right hc
  · intro id v hr hid
    exact absurd (hr c.id hid) hc

theorem Owned.mem_of_acked (h : Owned cs tr) (ha : Acked tr c) : c.id ∈ cs.map ClientCmd.id :=
  h _ ha c.id rfl

/-- The session is inside `MULTI`, and its commands are not refused. -/
structure Open (cfg : Config) (s : Session) : Prop where
  multi : s.multi = true
  sub : s.sub = none
  authed : (requireAuth cfg && !s.authed) = false

/-- Inside the window the data commands of a run are only queued. -/
structure Guarded (cfg : Config) (s : Session) (cs : List ClientCmd) (tr : Trace) : Prop where
  owned : Owned cs tr
  safe : ∀ pre c post, cs = pre ++ c :: post → DataCommand c →
    Window (Acked tr) (Open cfg s) pre → QueuedOnly tr c

/-- Besides, where the window is open behind the run, the session is inside `MULTI`. -/
structure WindowRun (cfg : Config) (s : Session) (cs : List ClientCmd) (tr : Trace)
    (r : Session × Outcome) : Prop extends Guarded cfg s cs tr where
  opens : r.2 = .ok → Window (Acked tr) (Open cfg s) cs → Open cfg r.1

section

variable {s s' : Session} {cs ds : List ClientCmd} {tr tr' : Trace} {r : Session × Outcome}

theorem queuedOnly_append :
    QueuedOnly (tr ++ tr') c ↔ QueuedOnly tr c ∧ QueuedOnly tr' c := by
  simp only [QueuedOnly, List.mem_append, or_imp, forall_and]

theorem owned_append : Owned cs (tr ++ tr') ↔ Owned cs tr ∧ Owned cs tr' := by
  simp only [Owned, List.mem_append, or_imp, forall_and]

/-- An element behind the first list of two belongs to the second. -/
theorem id_not_mem_left (hn : ((cs ++ ds).map ClientCmd.id).Nodup) (hc : c ∈ ds) :
    c.id ∉ cs.map ClientCmd.id := by
  rw [List.map_append] at hn
  intro hmem
  exact (List.nodup_append.1 hn).2.2 _ hmem _ (List.mem_map_of_mem hc) rfl

theorem id_not_mem_right (hn : ((cs ++ ds).map ClientCmd.id).Nodup) (hc : c ∈ cs) :
    c.id ∉ ds.map ClientCmd.id := by
  rw [List.map_append] at hn
  intro hmem
  exact (List.nodup_append.1 hn).2.2 _ (List.mem_map_of_mem hc) _ hmem rfl

theorem Quiet.guarded (h : Quiet tr) (s : Session) (cs : List ClientCmd) :
    Guarded cfg s cs tr :=
  ⟨h.owned cs, fun _ _ _ _ _ _ => (h.owned []).queuedOnly (by simp)⟩

/-- A run that ends early owes nothing to the commands behind. -/
theorem Guarded.stop (h : Guarded cfg s cs tr) (hn : ((cs ++ ds).map ClientCmd.id).Nodup) :
    Guarded cfg s (cs ++ ds) tr := by
  refine ⟨h.owned.mono (by simp +contextual), ?_⟩
  intro pre c post heq hc hw
  by_cases hmem : c ∈ ds
  · exact h.owned.queuedOnly (id_not_mem_left hn hmem)
  · rcases List.append_eq_append_iff.1 heq with ⟨as, -, hds⟩ | ⟨bs, hcs, hbs⟩
    · exact absurd (hds ▸ by simp) hmem
    · cases bs with
      | nil =>
        rw [List.nil_append] at hbs
        exact absurd (hbs ▸ List.mem_cons_self) hmem
      | cons b bs =>
        obtain ⟨rfl, -⟩ := List.cons_eq_cons.1 hbs
        exact h.safe pre c bs hcs hc hw

theorem acked_of_quiet (hq : Quiet tr') (h : Acked (tr' ++ tr) c) : Acked tr c := by
  rcases List.mem_append.1 h with h | h
  · exact (hq _ h).elim
  · exact h

/-- Requests that write nothing change nothing. -/
theorem Guarded.quiet (h : Guarded cfg s cs tr) (hq : Quiet tr') : Guarded cfg s cs (tr' ++ tr) := by
  refine ⟨owned_append.2 ⟨hq.owned cs, h.owned⟩, ?_⟩
  intro pre c post heq hc hw
  refine queuedOnly_append.2 ⟨(hq.owned []).queuedOnly (by simp), ?_⟩
  exact h.safe pre c post heq hc (hw.mono id fun _ _ => acked_of_quiet hq)

theorem WindowRun.quiet (h : WindowRun cfg s cs tr r) (hq : Quiet tr') :
    WindowRun cfg s cs (tr' ++ tr) r :=
  ⟨h.toGuarded.quiet hq,
    fun hr hw => h.opens hr (hw.mono id fun _ _ => acked_of_quiet hq)⟩

theorem acked_left (hds : Owned ds tr') (hn : ((cs ++ ds).map ClientCmd.id).Nodup)
    (hc : c ∈ cs) (ha : Acked (tr ++ tr') c) : Acked tr c := by
  rcases List.mem_append.1 ha with ha | ha
  · exact ha
  · exact absurd (hds.mem_of_acked ha) (id_not_mem_right hn hc)

/-- The window over the second of two runs starts from the state between them. -/
theorem WindowRun.window (h : WindowRun cfg s cs tr (s', .ok)) (hds : Owned ds tr')
    (hn : ((cs ++ ds).map ClientCmd.id).Nodup) {es : List ClientCmd} (hes : es ⊆ ds)
    (hw : Window (Acked (tr ++ tr')) (Open cfg s) (cs ++ es)) :
    Window (Acked tr') (Open cfg s') es := by
  refine (window_append.1 hw).mono ?_ ?_
  · intro hcs
    exact h.opens rfl (hcs.mono id fun _ hc => acked_left hds hn hc)
  · intro c hc ha
    rcases List.mem_append.1 ha with ha | ha
    · exact absurd (h.owned.mem_of_acked ha) (id_not_mem_left hn (hes hc))
    · exact ha

/-- The two runs of consecutive lists of commands make one. -/
theorem WindowRun.guarded_append (h : WindowRun cfg s cs tr (s', .ok)) (h' : Guarded cfg s' ds tr')
    (hn : ((cs ++ ds).map ClientCmd.id).Nodup) : Guarded cfg s (cs ++ ds) (tr ++ tr') := by
  have hsecond : ∀ as c post, ds = as ++ c :: post → DataCommand c →
      Window (Acked (tr ++ tr')) (Open cfg s) (cs ++ as) → QueuedOnly (tr ++ tr') c := by
    rintro as c post rfl hc hw
    refine queuedOnly_append.2 ⟨h.owned.queuedOnly (id_not_mem_left hn (by simp)), ?_⟩
    exact h'.safe as c post rfl hc (h.window h'.owned hn (by simp) hw)
  refine ⟨owned_append.2 ⟨h.owned.mono (by simp +contextual), h'.owned.mono ?_⟩, ?_⟩
  · simp +contextual
  · intro pre c post heq hc hw
    rcases List.append_eq_append_iff.1 heq with ⟨as, rfl, hds⟩ | ⟨bs, hcs, hbs⟩
    · exact hsecond as c post hds hc hw
    · cases bs with
      | nil =>
        rw [List.append_nil] at hcs
        subst hcs
        exact hsecond [] c post hbs.symm hc (by simpa using hw)
      | cons b bs =>
        obtain ⟨rfl, rfl⟩ := List.cons_eq_cons.1 hbs
        subst hcs
        refine queuedOnly_append.2 ⟨?_, h'.owned.queuedOnly (id_not_mem_right hn (by simp))⟩
        exact h.safe pre c bs rfl hc
          (hw.mono id fun d hd => acked_left h'.owned hn (by simp [hd]))

theorem WindowRun.step (h : WindowRun cfg s cs tr (s', .ok)) (h' : WindowRun cfg s' ds tr' r)
    (hn : ((cs ++ ds).map ClientCmd.id).Nodup) : WindowRun cfg s (cs ++ ds) (tr ++ tr') r :=
  ⟨h.guarded_append h'.toGuarded hn,
    fun hr hw => h'.opens hr (h.window h'.owned hn (List.Subset.refl ds) hw)⟩

end

/-! ## One command -/

theorem selectStep_open (h : Open cfg s) (c : ClientCmd) :
    Open cfg (selectStep cfg s c).1 := by
  unfold selectStep
  split
  · exact h
  · split
    · exact h
    · rw [if_pos h.multi]
      exact ⟨h.multi, h.sub, h.authed⟩

theorem localStep_open (h : Open cfg s) {argv : Argv}
    (hn : argv ≠ [] → nameOf argv ≠ "RESET") : Open cfg (localStep cfg s argv).1 := by
  have hl := localStep_local cfg s argv
  generalize localStep cfg s argv = r at hl
  cases hl with
  | pass | answer | noAuth => exact h
  | auth => exact ⟨h.multi, h.sub, by simp⟩
  | quit => exact ⟨h.multi, h.sub, h.authed⟩
  | reset hc hr => exact absurd hr (hn hc)

/-- Inside `MULTI`, only a closing command leaves it. -/
theorem After.open {s' : Session} (h : After cfg s c s') (hs : Open cfg s)
    (hc : c.name ∉ closers) : Open cfg s' := by
  simp only [closers, List.mem_cons, List.not_mem_nil, or_false, not_or] at hc
  obtain ⟨hexec, hdiscard, hreset⟩ := hc
  have hnext : Open cfg (nextState cfg s c) := by
    unfold nextState
    rw [if_neg (by simp [hs.sub])]
    split
    · exact selectStep_open hs c
    split
    · refine localStep_open hs fun hargv => ?_
      rwa [← ClientCmd.name_of_ne hargv]
    split
    · rw [multiStep, if_pos hs.multi]
      exact hs
    rw [if_neg (by simp [hexec, hdiscard])]
    split
    · exact hs
    · rw [if_pos hs.multi]
      exact ⟨hs.multi, hs.sub, hs.authed⟩
  refine ⟨h.multi.trans hnext.multi, ?_, by rw [h.authed, hnext.authed]⟩
  rcases h.sub with hsub | ⟨-, hm, -⟩
  · exact hsub.trans hs.sub
  · simp [hs.multi] at hm

/-- A `MULTI` that is answered with `+OK` opens the window. -/
theorem After.open_of_multi {s' : Session} (h : After cfg s c s')
    (hn : c.name = "MULTI") (ha : Answers cfg s c (some c.id) plusOK) : Open cfg s' := by
  have hans := ha.2
  have hsub : s.sub = none := by
    by_contra hsub
    rw [answerHere_sub cfg c hsub, if_pos (by rw [hn]; decide)] at hans
    exact plusOK_ne_error _ (hans _ rfl)
  have hargv : c.argv ≠ [] := by
    intro hargv
    rw [ClientCmd.name, if_pos hargv] at hn
    exact absurd hn (by decide)
  have hname : nameOf c.argv = "MULTI" := by rw [← ClientCmd.name_of_ne hargv, hn]
  have hsel : c.name ≠ "SELECT" := by simp [hn]
  -- the command passes `handleLocal`, which would have answered `-NOAUTH`
  have hlocal : (localStep cfg s c.argv).2 = none ∧ (requireAuth cfg && !s.authed) = false := by
    have hl := localStep_local cfg s c.argv
    have hhere : ∀ v, (localStep cfg s c.argv).2 = some v → v = plusOK := by
      intro v hv
      exact (hans v (by simp [answerHere, hsub, hsel, hv])).symm
    generalize localStep cfg s c.argv = r at hl hhere
    cases hl with
    | pass _ ha => exact ⟨rfl, by simpa [hargv, hname] using ha⟩
    | noAuth => exact absurd (hhere _ rfl).symm (plusOK_ne_error _)
    | answer hl => simp [hname, localNames] at hl
    | auth hl => simp [hname] at hl
    | quit hl => simp [hname] at hl
    | reset _ hl => simp [hname] at hl
  have hmulti : s.multi = false := by
    rw [answerHere_remote hsub hsel hlocal.1, if_pos hn, multiStep] at hans
    cases hm : s.multi with
    | false => rfl
    | true =>
      rw [hm, if_pos rfl] at hans
      exact absurd (hans _ rfl) (plusOK_ne_error _)
  have hnext : nextState cfg s c = { s with multi := true, queued := [] } := by
    rw [nextState_remote hsub hsel hlocal.1, if_pos hn, multiStep, if_neg (by simp [hmulti])]
  refine ⟨by rw [h.multi, hnext], ?_, by rw [h.authed, hnext, hlocal.2]⟩
  rcases h.sub with hs | ⟨-, -, hs⟩
  · exact hs.trans hsub
  · simp [hn] at hs

/-- A data command inside `MULTI` is answered with `+QUEUED`. -/
theorem answerHere_queued (hs : Open cfg s) (hc : DataCommand c) :
    answerHere cfg s c = some queuedReply := by
  obtain ⟨htxn, hlocal⟩ := hc
  simp only [List.mem_cons, List.not_mem_nil, or_false, not_or] at htxn
  obtain ⟨hmulti, hexec, hdiscard, hwatch, hunwatch, hsel⟩ := htxn
  have hl : (localStep cfg s c.argv).2 = none := by
    have hl := localStep_local cfg s c.argv
    have hname : c.argv ≠ [] → nameOf c.argv ∉ localNames :=
      fun hargv => ClientCmd.name_of_ne hargv ▸ hlocal
    by_cases hargv : c.argv = []
    · simp [localStep, hargv]
    · have hn := hname hargv
      have hauth := hs.authed
      simp only [localNames, List.mem_cons, List.not_mem_nil, or_false, not_or] at hn
      simp [localStep, hargv, hn, hauth]
  rw [answerHere_remote hs.sub hsel hl, if_neg hmulti, if_neg hdiscard,
    if_neg (by simp [hexec, hwatch, hunwatch]), if_pos hs.multi]

theorem handle_windowRun (h : (handle cfg s c).Runs tr r) : WindowRun cfg s [c] tr r := by
  obtain ⟨htr, hafter⟩ := (handle_sends anyAnswer cfg s c).runs h fun _ _ => trivial
  refine ⟨⟨?_, ?_⟩, ?_⟩
  · intro e he
    refine (htr e he).mono ?_ ?_
    · intro f hf id argv db queued hsrc
      cases hf with
      | queued _ _ _ hp hf =>
        obtain ⟨q, -, argv', db', -, rfl⟩ := mem_execPlan_backend cfg hp hf
        cases hsrc
        exact .inl rfl
      | _ =>
        cases hsrc
        exact .inr (by simp)
    · rintro id v ⟨rfl, -⟩ i hi
      cases hi
      simp
  · intro pre d post heq hd hw
    obtain ⟨rfl, rfl⟩ : pre = [] ∧ d = c := by
      cases pre with
      | nil => exact ⟨rfl, (List.cons_eq_cons.1 heq).1.symm⟩
      | cons _ _ => simp at heq
    intro e he
    refine (htr e he).mono ?_ ?_
    · -- the window is open, so nothing is sent for a data command
      intro f hf argv db queued _
      obtain ⟨htxn, -⟩ := hd
      cases hf with
      | direct hm | raw hm => simp [hw.multi] at hm
      | subscribed hs => exact absurd hw.sub hs
      | control _ hn => grind
      | queued hn => grind
    · rintro id v ⟨rfl, hv⟩ -
      exact hv _ (answerHere_queued hw hd)
  · rintro - ⟨hor, hc⟩
    rcases hor with hs | ⟨hn, ha⟩
    · exact hafter.open hs hc
    · exact hafter.open_of_multi hn (htr _ ha)

/-! ## Batches -/

theorem seqRun_windowRun {D : StepCond}
    (h : SeqRun cfg D s cs tr r) (hn : (cs.map ClientCmd.id).Nodup) :
    WindowRun cfg s cs tr r := by
  induction h with
  | nil =>
    exact ⟨Quiet.guarded (fun e he => (List.not_mem_nil he).elim) _ _, fun _ hw => hw⟩
  | stop _ h ho =>
    have hc := (handle_windowRun h).toGuarded.stop hn
    exact ⟨hc, fun hok => absurd hok ho⟩
  | step _ h _ ih =>
    have hc := (handle_windowRun h).step (ih (List.nodup_cons.1 hn).2) hn
    exact hc

/-- Inside the window, a batch is harmless if it is one command, if it is slow and
resets nothing, or if the proxy answers all of it. -/
def KeepsWindow (cfg : Config) (s : Session) (b : List ClientCmd) : Prop :=
  s.multi = true → b.length = 1 ∨
    (batchSlow cfg s b = true ∧ ∀ c ∈ b, c.name ≠ "RESET") ∨
    ∀ c ∈ b, c.name ∈ "SELECT" :: localNames

theorem classifyState_open (h : Open cfg s)
    (hn : c.name ≠ "RESET") : Open cfg (classifyState cfg s c) := by
  unfold classifyState
  split
  · exact h
  split
  · unfold classifySelect
    split
    · exact h
    · split
      · exact h
      · exact ⟨h.multi, h.sub, h.authed⟩
  · refine localStep_open h fun hargv => ?_
    rwa [← ClientCmd.name_of_ne hargv]

theorem batchState_open (h : Open cfg s) {b : List ClientCmd}
    (hn : ∀ c ∈ b, c.name ≠ "RESET") : Open cfg (batchState cfg s b) := by
  induction b generalizing s with
  | nil => exact h
  | cons c cs ih =>
    exact ih (classifyState_open h (hn c List.mem_cons_self))
      fun d hd => hn d (List.mem_cons_of_mem c hd)

/-- A fast batch without data commands, or outside `MULTI`, is harmless. -/
theorem fast_windowRun {b : List ClientCmd} {ks : List Classified}
    (hb : b.length ≠ 1) (hslow : batchSlow cfg s b = false)
    (hkeep : KeepsWindow cfg s b) (hk : ClassifiesAll cfg s b ks)
    (h : (execFastPipeline cfg (batchState cfg s b) b ks).Runs tr r) : WindowRun cfg s b tr r := by
  obtain ⟨htr, hr⟩ := (execFastPipeline_sends (A := anyAnswer) hk).runs h fun _ _ => trivial
  have hmulti : ∀ c ∈ b, c.name ≠ "MULTI" :=
    fun c hc => name_ne_of_not_slow (not_slow_of_mem hslow hc) (by decide)
  have hlocal : Open cfg s → ∀ c ∈ b, c.name ∈ "SELECT" :: localNames := by
    intro hs
    rcases hkeep hs.multi with h | ⟨h, -⟩ | h
    · exact absurd h hb
    · simp [hslow] at h
    · exact h
  refine ⟨⟨?_, ?_⟩, ?_⟩
  · intro e he
    refine (htr e he).mono ?_ ?_
    · rintro f ⟨pre, c, post, rfl, hf⟩ id argv db queued hsrc
      refine .inr ?_
      cases hf <;> (cases hsrc; simp)
    · rintro id v (rfl | ⟨c, hc, rfl⟩) i hi
      · cases hi
      · cases hi
        exact List.mem_map_of_mem hc
  · rintro pre c post rfl hc hw
    obtain ⟨hs, -⟩ := hw.of_no_multi fun d hd => hmulti d (by simp [hd])
    rcases List.mem_cons.1 (hlocal hs c (by simp)) with hsel | hl
    · exact absurd (by simp [hsel]) hc.1
    · exact absurd hl hc.2
  · intro _ hw
    obtain ⟨hs, hclose⟩ := hw.of_no_multi hmulti
    rw [hr]
    exact batchState_open hs fun c hc hn => hclose c hc (by simp [hn, closers])

theorem batch_windowRun {b : List ClientCmd}
    (hkeep : KeepsWindow cfg s b) (hn : (b.map ClientCmd.id).Nodup)
    (h : (handleBatch cfg s b).Runs tr r) : WindowRun cfg s b tr r := by
  cases handleBatch_runs h with
  | one _ h => exact handle_windowRun h
  | panic _ hq => exact ⟨hq.quiet.guarded s b, fun hok => by cases hok⟩
  | fast hb hs hq hk _ h => exact (fast_windowRun hb hs hkeep hk h).quiet hq.quiet
  | @slow _ tr tr' _ hb hs hq h =>
    refine WindowRun.quiet ?_ hq.quiet
    have hrun := seqRun_windowRun h hn
    -- the pass keeps the window open unless it resets the session
    have hpass : (∀ c ∈ b, c.name ≠ "RESET") → Open cfg s → Open cfg (batchState cfg s b) :=
      fun hreset hs => batchState_open hs hreset
    refine ⟨⟨hrun.owned, ?_⟩, ?_⟩
    · rintro pre c post rfl hc hw
      by_cases hopen : Open cfg s → Open cfg (batchState cfg s (pre ++ c :: post))
      · exact hrun.safe pre c post rfl hc (hw.mono hopen fun _ _ ha => ha)
      · obtain ⟨hs', hclosed⟩ := Classical.not_imp.1 hopen
        rcases hkeep hs'.multi with h | ⟨-, h⟩ | h
        · exact absurd h hb
        · exact absurd (hpass h hs') hclosed
        · rcases List.mem_cons.1 (h c (by simp)) with hsel | hl
          · exact absurd (by simp [hsel]) hc.1
          · exact absurd hl hc.2
    · intro hok hw
      refine hrun.opens hok ?_
      by_cases hs' : Open cfg s
      · rcases hkeep hs'.multi with h | ⟨-, h⟩ | h
        · exact absurd h hb
        · exact hw.mono (hpass h) fun _ _ ha => ha
        · -- all commands are local ones, so that none of them opens the window again
          obtain ⟨-, hclose⟩ := hw.of_no_multi fun c hc hn => by
            have := h c hc
            simp [hn, localNames] at this
          exact hw.mono (hpass fun c hc hn => hclose c hc (by simp [hn, closers]))
            fun _ _ ha => ha
      · exact hw.mono (fun h => absurd h hs') fun _ _ ha => ha

/-! ## Runs -/

theorem loopRun_guarded {bs : List (List ClientCmd)}
    (h : LoopRun (fun s b tr r => KeepsWindow cfg s b ∧ Handles cfg s b tr r) s bs tr r)
    (hn : (bs.flatten.map ClientCmd.id).Nodup) : Guarded cfg s bs.flatten tr := by
  have hnil : Quiet [] := fun e he => (List.not_mem_nil he).elim
  induction h with
  | nil => exact hnil.guarded _ _
  | quit => exact hnil.guarded _ _
  | cancelled => exact (quiet_ctxErr _).guarded _ _
  | stop _ h =>
    obtain ⟨hC, h⟩ := h
    rw [List.flatten_cons] at hn ⊢
    have hb := List.nodup_append.1 (List.map_append ▸ hn)
    exact ((batch_windowRun hC hb.1 h).toGuarded.stop hn).quiet (quiet_ctxErr none)
  | step _ h _ ih =>
    obtain ⟨hC, h⟩ := h
    rw [List.flatten_cons] at hn ⊢
    have hb := List.nodup_append.1 (List.map_append ▸ hn)
    have hrun := batch_windowRun hC hb.1 h
    exact (hrun.guarded_append (ih hb.2.1) hn).quiet (quiet_ctxErr none)

/-- Every data command between an acknowledged `MULTI` and the next `EXEC`, `DISCARD`
or `RESET` is only queued: what is sent for it is sent by an `EXEC`, and it is
answered with `+QUEUED`. -/
def QueuesWindows (bs : List (List ClientCmd)) (tr : Trace) : Prop :=
  ∀ pre m mid c post, bs.flatten = pre ++ m :: mid ++ c :: post → m.name = "MULTI" →
    Acked tr m → (∀ d ∈ mid, d.name ∉ closers) → DataCommand c → QueuedOnly tr c

/-- **In a run whose batches all keep the window, transactions are only queued.** -/
theorem queuesWindows_of_keepsWindow {bs : List (List ClientCmd)} {tr : Trace}
    {r : Session × Outcome} (hids : (bs.flatten.map ClientCmd.id).Nodup)
    (hrun : RunsWhile cfg (KeepsWindow cfg) bs tr r) : QueuesWindows bs tr := by
  intro pre m mid c post hcmds hm hack hmid hc
  obtain ⟨tr₁, tr₂, hloop, hclose, rfl⟩ := hrun
  have hquiet : Quiet tr₂ := (Silent.quiet (closeDown_silent r) hclose).1
  have hguard := loopRun_guarded hloop hids
  have hack₁ : Acked tr₁ m := by
    rcases List.mem_append.1 hack with h | h
    · exact h
    · exact (hquiet _ h).elim
  refine queuedOnly_append.2 ⟨?_, (hquiet.owned []).queuedOnly (by simp)⟩
  exact hguard.safe (pre ++ m :: mid) c post hcmds hc (window_of_multi hm hack₁ hmid)

/-- A transaction whose commands arrive one by one. -/
def multiOneByOne : List (List ClientCmd) :=
  [[command 0 ["MULTI"]], [command 1 ["SET", "a", "1"]], [command 2 ["EXEC"]]]

theorem queuesWindows_oneByOne : ∃ tr r,
    RunsWhile seeded (KeepsWindow seeded) multiOneByOne tr r ∧ Acked tr (command 0 ["MULTI"]) ∧
      QueuesWindows multiOneByOne tr := by
  have hrun := run_runs.1 (scripted_runs (fun _ => calm fun _ => plusOK)
    (run seeded (newSession seeded) multiOneByOne))
  have hone : ∀ b ∈ multiOneByOne, b.length = 1 := by decide
  have hkeep : RunsWhile seeded (KeepsWindow seeded) multiOneByOne _ _ :=
    hrun.mono fun b hb _ _ _ h => ⟨fun _ => .inl (hone b hb), h⟩
  refine ⟨_, _, hkeep, ?_, queuesWindows_of_keepsWindow (by decide) hkeep⟩
  exact mem_replies.1 (by decide +kernel)

/-- A transaction whose commands arrive as a batch of their own. -/
def multiThenBatch : List (List ClientCmd) :=
  [[command 0 ["MULTI"]], [command 1 ["SET", "a", "1"], command 2 ["SET", "b", "2"]]]

/-- The fast path sends commands of an open transaction at once. -/
theorem batch_escapes_window :
    ¬ ∀ tr r, (run seeded (newSession seeded) multiThenBatch).Runs tr r →
      QueuesWindows multiThenBatch tr := by
  intro h
  have hrun := scripted_runs (fun _ => calm fun _ => plusOK)
    (run seeded (newSession seeded) multiThenBatch)
  have hset := h _ _ hrun [] (command 0 ["MULTI"]) [] (command 1 ["SET", "a", "1"])
    [command 2 ["SET", "b", "2"]] rfl (by decide) (mem_replies.1 (by decide +kernel))
    (by simp) ⟨by decide, by decide⟩
  have hsent : (0, { argv := (command 1 ["SET", "a", "1"]).argv
                     raw := (command 1 ["SET", "a", "1"]).raw
                     src := (command 1 ["SET", "a", "1"]).src (newSession seeded) }) ∈
      written (scripted (fun _ => calm fun _ => plusOK)
        (run seeded (newSession seeded) multiThenBatch)).2 := by decide +kernel
  obtain ⟨fs, r, he, hf⟩ := mem_written.1 hsent
  exact Bool.false_ne_true (hset _ he _ hf _ _ _ rfl)

end RespProxy.Proxy
