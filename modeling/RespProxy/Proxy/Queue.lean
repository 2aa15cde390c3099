import RespProxy.Proxy.Watch

/-! # The replies of a transaction

Between `MULTI` and `EXEC` a client expects `QUEUED` for every command, and then one
array with a reply for each, in order. `handle` looks at `SELECT`, at the local commands
and at `UNWATCH` before it looks at the `multi` flag, so commands of the last two kinds
are carried out at once and have no place in the array.
-/

namespace RespProxy.Proxy

open Cluster Command Resp Interact

variable {cfg : Config} {s s' : Session} {c : ClientCmd} {tr : Trace} {r : Session × Outcome}
variable {v : Value} {conn : ConnId} {p : ExecPlan} {argv : Argv} {id : CmdId} {f : Frame}

/-! ## One command inside `MULTI` -/

/-- The session is inside `MULTI`, as an authenticated client outside subscribe mode. -/
structure InMulti (s : Session) : Prop where
  multi : s.multi = true
  sub : s.sub = none
  authed : s.authed = true

theorem TxnInv.inMulti (h : TxnInv cfg s) (hm : s.multi = true) : InMulti s := by
  refine ⟨hm, ?_, ?_⟩
  · by_contra hsub
    exact absurd (hm.symm.trans (h.mode hsub)) (by simp)
  · by_cases hadm : Admitted cfg s
    · cases hreq : requireAuth cfg with
      | false => exact h.authed hreq
      | true => simpa [Admitted, hreq] using hadm
    · exact absurd (hm.symm.trans (h.guest hadm).1) (by simp)

theorem InMulti.admitted (h : InMulti s) : Admitted cfg s := by simp [Admitted, h.authed]

theorem InMulti.enqueue (h : InMulti s) (c : ClientCmd) : InMulti (s.enqueue c) :=
  ⟨h.multi, h.sub, h.authed⟩

/-- The commands that may stand between `MULTI` and `EXEC`. -/
def between (c : ClientCmd) : Prop :=
  c.name ∉ ["MULTI", "WATCH", "DISCARD", "RESET", "QUIT", "EXEC"]

/-- The command is not rejected. -/
def Accepted (cfg : Config) (s : Session) (c : ClientCmd) : Prop :=
  ∀ v, answerHere cfg s c = some v → v.isError = false

/-- The command waits for `EXEC`. -/
def Waits (c : ClientCmd) : Prop := c.name ∉ localNames ∧ c.name ≠ "UNWATCH"

theorem LocalValue.ne_queuedReply (h : LocalValue v) : v ≠ queuedReply := by
  cases h with
  | ok | pong => decide
  | array vs => exact fun h => by cases congrArg Value.type h
  | bulk b => cases b <;> exact fun h => by cases congrArg Value.type h
  | error h => exact (by decide : ∀ v ∈ _, v ≠ queuedReply) v h

/-- Commands that are not local pass, from an admitted client. -/
theorem localStep_waits (hadm : Admitted cfg s)
    (hn : argv = [] ∨ nameOf argv ∉ localNames) : (localStep cfg s argv).2 = none := by
  by_cases hc : argv = []
  · simp [localStep, hc]
  by_cases hcmd : nameOf argv = "COMMAND"
  · simp [localStep, hc, hcmd]
  · exact (localStep_none_iff hc (hn.resolve_left hc) hcmd).2 hadm

theorem Waits.passes (h : Waits c) (hadm : Admitted cfg s) :
    (localStep cfg s c.argv).2 = none := by
  refine localStep_waits hadm ?_
  by_cases hc : c.argv = []
  · exact .inl hc
  · exact .inr (ClientCmd.name_of_ne hc ▸ h.1)

/-- A `SELECT` that is not rejected names a database. -/
def Selects (cfg : Config) (c : ClientCmd) : Prop :=
  c.name = "SELECT" → ∃ n, selectDB cfg c.argv = .ok n

theorem selectDB_isError (h : selectDB cfg argv = .error v) :
    v.isError = true := by
  unfold selectDB at h
  split at h
  · split at h
    · cases h
    · rename_i e _
      cases h
      cases e <;> rfl
  · cases h
    rfl

theorem Accepted.selects (h : Accepted cfg s c) (hin : InMulti s) : Selects cfg c := by
  intro hn
  have hno := h (selectStep cfg s c).2 (by simp [answerHere, hin.sub, hn])
  cases hdb : selectDB cfg c.argv with
  | ok n => exact ⟨n, rfl⟩
  | error v =>
    have hv : (selectStep cfg s c).2 = v := by simp [selectStep, hin.authed, hdb]
    rw [hv, selectDB_isError hdb] at hno
    cases hno

theorem finish_replies (h : (finish s id v).Runs tr (s', .ok)) :
    s' = s ∧ replies tr = [(some id, v, none)] := by
  refine ⟨finish_state h, ?_⟩
  obtain ⟨t₁, o, t₂, h₁, ⟨rfl, ho⟩, rfl⟩ := Prog.runs_bind.1 h
  rw [List.append_nil]
  exact reply_sat (some id) v t₁ o h₁ (congrArg Prod.snd ho)

theorem cmdUnwatch_replies (h : (cmdUnwatch s c).Runs tr (s', .ok)) :
    s' = { s with pin := none, watched := [] } ∧ replies tr = [(some c.id, plusOK, none)] := by
  unfold cmdUnwatch at h
  cases hpin : s.pin with
  | none =>
    rw [hpin] at h
    exact finish_replies h
  | some pin =>
    rw [hpin] at h
    obtain ⟨t₁, x, t₂, h₁, hrest, rfl⟩ := Prog.runs_bind.1 h
    obtain ⟨t₂, s₁, t₃, h₂, h₃, rfl⟩ := Prog.runs_bind.1 hrest
    have hmute : Mute (fun _ => True) (doFrame pin { argv := [arg "UNWATCH"], src := c.src s }) :=
      Sends.any (doFrame_sends trivial pin)
    obtain ⟨hq, rfl⟩ := Setup.runs (Idle.setup (dropPin_idle s)) h₂
    obtain ⟨hs, hreply⟩ := finish_replies h₃
    refine ⟨hs, ?_⟩
    rw [replies_append, replies_append, (Mute.replies hmute h₁).1, hq.quiet.replies, hreply]
    rfl

/-- Inside `MULTI`, a command that waits joins the queue and is answered with `QUEUED`;
another one is answered with something else. -/
theorem handle_between (hin : InMulti s) (hb : between c) (h : (handle cfg s c).Runs tr (s', .ok)) :
    InMulti s' ∧
      (Waits c → Selects cfg c → s' = s.enqueue c ∧ replies tr = [(some c.id, queuedReply, none)]) ∧
      (¬ Waits c → ∃ v, v ≠ queuedReply ∧ replies tr = [(some c.id, v, none)]) := by
  unfold between at hb
  simp only [List.mem_cons, List.not_mem_nil, or_false, not_or] at hb
  obtain ⟨hmulti, hwatch, hdiscard, hreset, -, hexec⟩ := hb
  -- by where the command is answered: as a `SELECT`, by the local rules, or behind both
  cases handle_runs h with
  | sub hsub => exact absurd (hin.sub.symm.trans hsub) (by simp)
  | select _ hn h =>
    obtain ⟨rfl, hreply⟩ := finish_replies h
    refine ⟨?_, fun _ hsel => ?_, fun hno => absurd ⟨?_, ?_⟩ hno⟩
    · unfold selectStep
      rw [hin.authed, hin.multi]
      split
      · exact hin
      · split
        · exact hin
        · exact hin.enqueue c
    · obtain ⟨n, hdb⟩ := hsel hn
      have hstep : selectStep cfg s c = (s.enqueue c, queuedReply) := by
        simp [selectStep, hin.authed, hin.multi, hdb]
      rw [hreply, hstep]
      exact ⟨rfl, rfl⟩
    · rw [hn]
      decide
    · rw [hn]
      decide
  | @here v _ _ _ _ _ hl hq h =>
    obtain ⟨rfl, hreply⟩ := finish_replies h
    refine ⟨?_, fun hw => ?_, fun _ => ⟨v, (localStep_value s c.argv v hl).ne_queuedReply, ?_⟩⟩
    · have hloc := localStep_local cfg s c.argv
      generalize localStep cfg s c.argv = x at hloc
      cases hloc with
      | pass | answer | noAuth | auth | quit => exact ⟨hin.multi, hin.sub, by simp [hin.authed]⟩
      | reset hc hn => exact absurd ((ClientCmd.name_of_ne hc).trans hn) hreset
    · rw [hw.passes hin.admitted] at hl
      cases hl
    · rw [replies_append, hq.quiet.replies, hreply]
      rfl
  | remote _ _ hl h =>
    have hlocal : c.name ∉ localNames := by
      by_cases hc : c.argv = []
      · rw [ClientCmd.name, if_pos hc]
        decide
      · rw [ClientCmd.name_of_ne hc]
        exact ((localStep_passes hl).resolve_left hc).1
    cases handleRemote_runs h with
    | multi hn => exact absurd hn hmulti
    | discard hn => exact absurd hn hdiscard
    | exec hn => exact absurd hn hexec
    | watch hn => exact absurd hn hwatch
    | unwatch hn h =>
      obtain ⟨rfl, hreply⟩ := cmdUnwatch_replies h
      exact ⟨⟨hin.multi, hin.sub, hin.authed⟩, fun hw => absurd hn hw.2,
        fun _ => ⟨plusOK, by decide, hreply⟩⟩
    | queue hn _ h =>
      obtain ⟨rfl, hreply⟩ := finish_replies h
      refine ⟨hin.enqueue c, fun _ _ => ⟨rfl, hreply⟩, fun hno => absurd ⟨hlocal, ?_⟩ hno⟩
      rintro hn'
      simp [hn'] at hn
    | dispatch _ hm => exact absurd (hin.multi.symm.trans hm) (by simp)

/-- The answers of backends and a client that never fail. -/
abbrev Calm : Event → Prop := fun e => e.res = calm (fun _ => plusOK) e.op

/-- The program returns in a calm environment. -/
abbrev Returns (p : Prog (Session × Outcome)) : Prop :=
  p.Ensures Calm (fun _ => True) fun r => r.2 = .ok

theorem finish_returns (s : Session) (id : CmdId) (v : Value) : Returns (finish s id v) := by
  intro x (hx : x = none)
  subst hx
  refine ⟨trivial, ?_⟩
  intro x (hx : x = none)
  subst hx
  refine ⟨trivial, ?_⟩
  intro x (hx : x = none)
  subst hx
  exact ⟨trivial, rfl⟩

theorem Returns.after {α : Type} (p : Prog α) {f : α → Prog (Session × Outcome)}
    (h : ∀ a, Returns (f a)) : Returns (p.bind f) :=
  (Prog.ensures_true p).bind fun a _ => h a

/-- Inside `MULTI` every command but those that end it can be answered. -/
theorem exists_handle (cfg : Config) (hin : InMulti s) (hb : between c) :
    ∃ tr s', (handle cfg s c).Runs tr (s', .ok) := by
  have hreturns : Returns (handle cfg s c) := by
    unfold between at hb
    simp only [List.mem_cons, List.not_mem_nil, or_false, not_or] at hb
    obtain ⟨hmulti, hwatch, hdiscard, -, -, hexec⟩ := hb
    unfold handle
    rw [hin.sub]
    dsimp only
    split
    · exact finish_returns _ _ _
    have hlocal : (handleLocal cfg s c.argv).Ensures Calm (fun _ => True)
        fun x => x = localStep cfg s c.argv :=
      (handleLocal_idle s c.argv).mono (fun _ _ _ => trivial) fun _ hx => hx
    refine hlocal.bind ?_
    rintro _ rfl
    cases hl : (localStep cfg s c.argv).2 with
    | some v => exact finish_returns _ _ _
    | none =>
      rw [localStep_none hl]
      dsimp only
      unfold handleRemote
      rw [if_neg hmulti, if_neg hdiscard, if_neg hexec, if_neg hwatch, if_pos hin.multi]
      split
      · unfold cmdUnwatch
        split
        · exact Returns.after _ fun _ => Returns.after _ fun _ => finish_returns _ _ _
        · exact finish_returns _ _ _
      · exact finish_returns _ _ _
  have hrun := scripted_runs (fun _ => calm fun _ => plusOK) (handle cfg s c)
  have hevents := scripted_events (fun _ => calm fun _ => plusOK) (P := Calm) (fun _ _ => rfl)
    (handle cfg s c)
  have hok := (hreturns.runs hrun hevents).2
  exact ⟨_, _, by rwa [← hok]⟩

/-! ## The queue -/

/-- A command as it is queued. -/
def ClientCmd.waiting (c : ClientCmd) : QueuedCmd := { id := c.id, argv := cloneArgv c.argv }

/-- Commands that wait are queued in order. -/
theorem seq_waits {cs : List ClientCmd} (hin : InMulti s)
    (hcs : ∀ c ∈ cs, between c ∧ Waits c ∧ Selects cfg c)
    (h : SeqRun cfg anyStep s cs tr (s', .ok)) :
    InMulti s' ∧ s'.queued = s.queued ++ cs.map ClientCmd.waiting ∧
      replies tr = cs.map fun c => (some c.id, queuedReply, none) := by
  induction cs generalizing s tr with
  | nil =>
    cases h
    exact ⟨hin, by simp, rfl⟩
  | cons c cs ih =>
    obtain ⟨hb, hw, hsel⟩ := hcs c List.mem_cons_self
    cases h with
    | stop _ _ ho => exact absurd rfl ho
    | step _ h hs =>
      obtain ⟨hin₁, hwaits, -⟩ := handle_between hin hb h
      obtain ⟨rfl, hreply⟩ := hwaits hw hsel
      obtain ⟨hin', hqueue, hrest⟩ := ih hin₁ (fun d hd => hcs d (List.mem_cons_of_mem c hd)) hs
      refine ⟨hin', ?_, ?_⟩
      · rw [hqueue]
        simp [Session.enqueue, ClientCmd.waiting]
      · rw [replies_append, hreply, hrest]
        rfl

/-- There is a run of any commands that may stand there, and in it those that do not wait
are not answered with `QUEUED`. -/
theorem exists_seq (cfg : Config) {cs : List ClientCmd} (hin : InMulti s)
    (hcs : ∀ c ∈ cs, between c) :
    ∃ tr s', SeqRun cfg anyStep s cs tr (s', .ok) ∧
      ∀ c ∈ cs, ¬ Waits c → ∃ v, v ≠ queuedReply ∧ (some c.id, v, none) ∈ replies tr := by
  induction cs generalizing s with
  | nil => exact ⟨[], s, .nil, by simp⟩
  | cons c cs ih =>
    obtain ⟨hb, hrest⟩ := List.forall_mem_cons.1 hcs
    obtain ⟨t₁, s₁, h₁⟩ := exists_handle cfg hin hb
    obtain ⟨hin₁, -, hother⟩ := handle_between hin hb h₁
    obtain ⟨t₂, s₂, h₂, hall⟩ := ih hin₁ hrest
    refine ⟨t₁ ++ t₂, s₂, .step trivial h₁ h₂, ?_⟩
    rw [replies_append]
    intro d hd hno
    rcases List.mem_cons.1 hd with rfl | hd
    · obtain ⟨v, hv, hreply⟩ := hother hno
      exact ⟨v, hv, by simp [hreply]⟩
    · obtain ⟨v, hv, hreply⟩ := hall d hd hno
      exact ⟨v, hv, List.mem_append_right _ hreply⟩

/-! ## The reply to `EXEC` -/

/-- The elements of the reply: `OK` in the places of the `SELECT`s, and the backend's
replies in the others. -/
def placed : List ClientCmd → List Value → List Value
  | [], _ => []
  | c :: cs, vs =>
    if c.name = "SELECT" then plusOK :: placed cs vs
    else vs.headD (error "ERR EXEC reply missing") :: placed cs vs.tail

theorem length_placed (cs : List ClientCmd) (vs : List Value) :
    (placed cs vs).length = cs.length := by
  induction cs generalizing vs with
  | nil => rfl
  | cons c cs ih =>
    rw [placed]
    split <;> simp [ih]

/-- The queued command a frame carries. -/
def Frame.queuedId (f : Frame) : Option CmdId :=
  match f.src with
  | .client id _ _ true => some id
  | _ => none

theorem ClientCmd.waiting_select (c : ClientCmd) :
    (c.waiting.argv ≠ [] ∧ nameOf c.waiting.argv = "SELECT") ↔ c.name = "SELECT" := by
  have hnil : c.waiting.argv = [] ↔ c.argv = [] := List.map_eq_nil_iff
  rw [ne_eq, hnil, show nameOf c.waiting.argv = nameOf c.argv from nameOf_cloneArgv _]
  by_cases hne : c.argv = []
  · simp [ClientCmd.name, hne]
  · simp [ClientCmd.name_of_ne hne, hne]

/-- What `EXEC` makes of a queue: one item for each command, in order. -/
theorem execPlan_placed {cs : List ClientCmd} {db : Nat} (hsel : ∀ c ∈ cs, Selects cfg c)
    (hp : execPlan cfg db (cs.map ClientCmd.waiting) = some p) :
    (∀ vs, mergeItems p.items vs = placed cs vs) ∧
      p.backend.filterMap Frame.queuedId =
        (cs.filter fun c => decide (c.name ≠ "SELECT")).map ClientCmd.id := by
  induction cs generalizing db p with
  | nil =>
    cases hp
    exact ⟨fun _ => rfl, rfl⟩
  | cons c cs ih =>
    obtain ⟨hc, hcs⟩ := List.forall_mem_cons.1 hsel
    rw [List.map_cons, execPlan] at hp
    split at hp
    · -- a `SELECT` has its reply already
      rename_i hn
      have hn := c.waiting_select.1 hn
      obtain ⟨n, hdb⟩ := hc hn
      rw [show selectDB cfg c.waiting.argv = .ok n from (selectDB_cloneArgv c.argv).trans hdb] at hp
      obtain ⟨p', hp', rfl⟩ := Option.map_eq_some_iff.1 hp
      obtain ⟨hitems, hids⟩ := ih hcs hp'
      refine ⟨fun vs => ?_, ?_⟩
      · rw [mergeItems, hitems, placed, if_pos hn]
      · rw [List.filter_cons_of_neg (by simp [hn])]
        exact hids
    · rename_i hn
      have hn := mt c.waiting_select.2 hn
      obtain ⟨argv, -, hp⟩ := Option.bind_eq_some_iff.1 hp
      obtain ⟨keys, -, hp⟩ := Option.bind_eq_some_iff.1 hp
      obtain ⟨p', hp', hp⟩ := Option.bind_eq_some_iff.1 hp
      cases hp
      obtain ⟨hitems, hids⟩ := ih hcs hp'
      refine ⟨fun vs => ?_, ?_⟩
      · rw [placed, if_neg hn]
        cases vs with
        | nil => rw [mergeItems, hitems]; rfl
        | cons v vs => rw [mergeItems, hitems]; rfl
      · rw [List.filter_cons_of_pos (by simp [hn]), List.map_cons, ← hids]
        rfl

/-- Without backend commands the items have their values already. -/
theorem mergeItems_here (hb : p.backend = []) :
    mergeItems p.items [] = p.items.map ExecItem.value := by
  obtain ⟨items, keys, db⟩ := p
  induction items with
  | nil => rfl
  | cons it items ih =>
    cases it with
    | here v => exact congrArg _ (ih hb)
    | send f => cases hb

theorem written_append (tr tr' : Trace) : written (tr ++ tr') = written tr ++ written tr' :=
  List.flatMap_append

theorem Quiet.written (h : Quiet tr) : written tr = [] := by
  refine List.eq_nil_iff_forall_not_mem.2 ?_
  rintro ⟨conn, f⟩ hmem
  obtain ⟨fs, x, he, hf⟩ := mem_written.1 hmem
  exact h _ he f hf

theorem answered_of_mem (h : (⟨.read conn f, .ok v⟩ : Event) ∈ tr) : answered f tr = true :=
  List.any_eq_true.2 ⟨_, h, by simp⟩

theorem reply_written {id : Option CmdId} {o : Outcome}
    (h : (reply id v).Runs tr o) : written tr = [] := by
  obtain ⟨htr, -⟩ := (reply_sends (A := anyAnswer) (S := fun _ => False) (R := fun _ _ => True)
    trivial).runs h fun _ _ => trivial
  refine List.eq_nil_iff_forall_not_mem.2 ?_
  rintro ⟨conn, f⟩ hmem
  obtain ⟨fs, x, he, hf⟩ := mem_written.1 hmem
  exact htr _ he f hf

theorem finish_written (h : (finish s id v).Runs tr r) :
    written tr = [] := by
  obtain ⟨t₁, o, t₂, h₁, ⟨rfl, -⟩, rfl⟩ := Prog.runs_bind.1 h
  rw [List.append_nil]
  exact reply_written h₁

/-- What a sequence of round trips writes and reads. -/
theorem doFrames_ok {fs : List Frame} {last v : Value} (hf : f ∉ fs)
    (h : (doFrames conn (fs ++ [f]) last).Runs tr (.ok v)) :
    written tr = (fs ++ [f]).map (fun g => (conn, g)) ∧ replies tr = [] ∧
      ∀ conn' w, (⟨.read conn' f, .ok w⟩ : Event) ∈ tr → w = v := by
  induction fs generalizing last tr with
  | nil =>
    obtain ⟨t₁, x, t₂, h₁, h₂, rfl⟩ := Prog.runs_bind.1 h
    cases x with
    | error e =>
      obtain ⟨-, h₂⟩ := h₂
      cases h₂
    | ok w =>
      obtain ⟨rfl, h₂⟩ := h₂
      cases h₂
      cases doFrame_ok h₁
      refine ⟨rfl, rfl, fun conn' w hw => ?_⟩
      obtain ⟨-, hw⟩ : conn' = conn ∧ w = v := by simpa using hw
      exact hw
  | cons g fs ih =>
    obtain ⟨t₁, x, t₂, h₁, h₂, rfl⟩ := Prog.runs_bind.1 h
    obtain ⟨hg, hfs⟩ : f ≠ g ∧ f ∉ fs := by simpa using hf
    cases x with
    | error e =>
      obtain ⟨-, h₂⟩ := h₂
      cases h₂
    | ok w =>
      obtain ⟨hwritten, hreplies, hread⟩ := ih hfs h₂
      cases doFrame_ok h₁
      refine ⟨?_, ?_, fun conn' w hw => ?_⟩
      · rw [written_append, hwritten]
        rfl
      · rw [replies_append, hreplies]
        rfl
      · rcases List.mem_append.1 hw with hw | hw
        · simp [hg] at hw
        · exact hread conn' w hw

/-- The transaction commits: a backend answers `EXEC` with the replies `vs`, or there are
only `SELECT`s and the client is not refused. -/
inductive Commits (s : Session) (e : ClientCmd) (cs : List ClientCmd) (tr : Trace) :
    List Value → Prop where
  | backend {conn : ConnId} {v : Value}
      (hread : (⟨.read conn (execFrame s e), .ok v⟩ : Event) ∈ tr) (ht : v.type = .array)
      (hv : v.null = false) : Commits s e cs tr v.values
  | here (hall : ∀ c ∈ cs, c.name = "SELECT")
      (hno : ∀ x ∈ replies tr, x.2.1.isError = false) : Commits s e cs tr []

/-- A committed `EXEC` is answered with one element for each command of the queue, in
order, and has sent all of them but the `SELECT`s, in order. -/
def RepliedInOrder (e : ClientCmd) (cs : List ClientCmd) (vs : List Value) (tr : Trace) : Prop :=
  replies tr = [(some e.id, array (placed cs vs), none)] ∧
    (placed cs vs).length = cs.length ∧
    (written tr).filterMap (fun x => Frame.queuedId x.2) =
      (cs.filter fun c => decide (c.name ≠ "SELECT")).map ClientCmd.id

section

variable {e : ClientCmd} {cs : List ClientCmd} {vs : List Value}

/-- An `EXEC` that is refused with an error has not committed. -/
theorem Commits.not_refused {tr' : Trace} {msg : String} (h : Commits s e cs (tr ++ tr') vs)
    (hno : answered (execFrame s e) tr = false) (hrun : (finish s' e.id (error msg)).Runs tr' r)
    (hok : r.2 = .ok) : False := by
  obtain ⟨t, o⟩ := r
  cases hok
  cases h with
  | backend hread =>
    have hyes := answered_of_mem hread
    rw [answered_append, hno, finish_answered hrun] at hyes
    cases hyes
  | here _ hall =>
    have hreply := (finish_replies hrun).2
    have herr := hall (some e.id, error msg, none) (by simp [replies_append, hreply])
    cases herr

/-- The exits of `EXEC` that commit. -/
theorem ExecRun.repliedInOrder (hm : s.multi = true) (hq : s.queued = cs.map ClientCmd.waiting)
    (hsel : ∀ c ∈ cs, Selects cfg c) (h : ExecRun cfg s e tr r) (hok : r.2 = .ok)
    (hc : Commits s e cs tr vs) : RepliedInOrder e cs vs tr := by
  cases h with
  | noMulti hm' => exact absurd (hm.symm.trans hm') (by simp)
  | panic => cases hok
  | aborted _ hsetup h => exact (hc.not_refused (hsetup.answered _) h hok).elim
  | failed _ hno h => exact (hc.not_refused hno h hok).elim
  | @here p t₁ t₂ r _ hp hb hsetup h =>
    rw [hq] at hp
    obtain ⟨hitems, hids⟩ := execPlan_placed hsel hp
    obtain ⟨t, o⟩ := r
    cases hok
    have hvs : vs = [] := by
      cases hc with
      | backend hread =>
        have hyes := answered_of_mem hread
        rw [answered_append, hsetup.answered, finish_answered h] at hyes
        cases hyes
      | here => rfl
    subst hvs
    obtain ⟨-, hreply⟩ := finish_replies h
    refine ⟨?_, length_placed cs [], ?_⟩
    · rw [replies_append, hsetup.quiet.replies, hreply, ← hitems [], mergeItems_here hb]
      rfl
    · rw [written_append, hsetup.quiet.written, finish_written h, ← hids, hb]
      rfl
  | @done p conn v t₀ t₁ t₂ o _ hp hb hsetup _ h₁ h₂ =>
    cases hok
    rw [hq] at hp
    obtain ⟨hitems, hids⟩ := execPlan_placed hsel hp
    obtain ⟨hwritten, hsilent, hread⟩ := doFrames_ok (execFrame_not_mem hp) h₁
    have hreply := reply_sat _ _ t₂ .ok h₂ rfl
    cases hc with
    | here hall =>
      -- a queue of `SELECT`s has nothing to send
      have hnil : (cs.filter fun c => decide (c.name ≠ "SELECT")) = [] :=
        List.filter_eq_nil_iff.2 fun c hmem => by simp [hall c hmem]
      rw [hnil] at hids
      obtain ⟨f, hf⟩ := List.exists_mem_of_ne_nil _ hb
      obtain ⟨q, -, argv, db, -, rfl⟩ := mem_execPlan_backend cfg hp hf
      have hid : q.id ∈ p.backend.filterMap Frame.queuedId := List.mem_filterMap.2 ⟨_, hf, rfl⟩
      rw [hids] at hid
      cases hid
    | @backend conn' w hmem ht hv =>
      have hw : w = v := by
        simp only [List.mem_append, List.mem_singleton] at hmem
        rcases hmem with ((hmem | hmem) | hmem) | hmem
        · exact absurd (answered_of_mem hmem) (by simp [hsetup.answered])
        · exact hread conn' w hmem
        · exact absurd (answered_of_mem hmem) (by simp [reply_answered h₂])
        · cases hmem
      subst hw
      refine ⟨?_, length_placed cs w.values, ?_⟩
      · have hvalue : (execDone s.leave.unpin p w).2 = array (placed cs w.values) := by
          simp [execDone, mergeExecReply, ht, hv, hitems]
        rw [replies_append, replies_append, replies_append, hsetup.quiet.replies, hsilent, hreply,
          hvalue]
        rfl
      · rw [written_append, written_append, written_append, hsetup.quiet.written, hwritten,
          reply_written h₂, ← hids]
        have hmulti : Frame.queuedId { argv := [arg "MULTI"], src := e.src s } = none := rfl
        have hexec : Frame.queuedId (execFrame s e) = none := rfl
        simp [execOpening, List.filterMap_map, hmulti, hexec, written]

end

/-- Every run of the commands inside `MULTI` answers each with `QUEUED`, and every `EXEC`
that then commits is answered with one element for each. -/
def Transacts (cfg : Config) (s : Session) (cs : List ClientCmd) : Prop :=
  ∀ tr s', SeqRun cfg anyStep s cs tr (s', .ok) →
    (replies tr = cs.map fun c => (some c.id, queuedReply, none)) ∧
      ∀ e tr' s'' vs, e.name = "EXEC" → (handle cfg s' e).Runs tr' (s'', .ok) →
        Commits s' e cs tr' vs → RepliedInOrder e cs vs tr'

/-- **The replies of a transaction.** After an accepted `MULTI`, commands that may stand
there and are not rejected are all answered with `QUEUED`, and in order by a committed
`EXEC`, exactly if none of them is a command the proxy answers itself or `UNWATCH`. -/
theorem transacts_iff_waits {S : List Subscription} {cs : List ClientCmd}
    (hreach : Reaches cfg anyCond s S) (hm : s.multi = true) (hq : s.queued = [])
    (hcs : ∀ c ∈ cs, between c ∧ Accepted cfg s c) :
    Transacts cfg s cs ↔ ∀ c ∈ cs, c.name ∉ localNames ∧ c.name ≠ "UNWATCH" := by
  have hin := hreach.txnInv.inMulti hm
  constructor
  · intro h
    obtain ⟨tr, s', hrun, hother⟩ := exists_seq cfg hin fun c hc => (hcs c hc).1
    intro c hc
    by_contra hno
    obtain ⟨v, hv, hmem⟩ := hother c hc hno
    rw [(h tr s' hrun).1] at hmem
    obtain ⟨d, -, hd⟩ := List.mem_map.1 hmem
    exact hv (congrArg (fun x => x.2.1) hd).symm
  · intro hw tr s' hrun
    have hsel : ∀ c ∈ cs, Selects cfg c := fun c hc => (hcs c hc).2.selects hin
    obtain ⟨hin', hqueue, hreplies⟩ :=
      seq_waits hin (fun c hc => ⟨(hcs c hc).1, hw c hc, hsel c hc⟩) hrun
    rw [hq, List.nil_append] at hqueue
    refine ⟨hreplies, fun e tr' s'' vs hn h hc => ?_⟩
    cases handle_runs h with
    | sub hsub => exact absurd (hin'.sub.symm.trans hsub) (by simp)
    | select _ hsel' => exact absurd (hn.symm.trans hsel') (by decide)
    | here _ _ hl =>
      have hpass : Waits e := ⟨by rw [hn]; decide, by rw [hn]; decide⟩
      rw [hpass.passes hin'.admitted] at hl
      cases hl
    | remote _ _ _ h =>
      cases handleRemote_runs h with
      | exec _ h => exact (cmdExec_runs h).repliedInOrder hin'.multi hqueue hsel rfl hc
      | multi hn' | discard hn' | watch hn' | unwatch hn' =>
        exact absurd (hn.symm.trans hn') (by decide)
      | queue hn' | dispatch hn' => exact absurd (by simp [hn]) hn'

/-- A client behind its `MULTI`. -/
def multiOnly : List ClientCmd := [command 0 ["MULTI"]]

theorem accepted_of_eq (h : answerHere cfg s c = some v) (hv : v.isError = false) :
    Accepted cfg s c := by
  intro w hw
  rw [h] at hw
  cases hw
  exact hv

theorem transacts_iff_waits_get :
    ∃ s S, Reaches seeded anyCond s S ∧ Transacts seeded s [command 1 ["GET", "k"]] := by
  obtain ⟨S, hreach⟩ := okRun_reaches multiOnly (by decide +kernel)
  have hqueued : answerHere seeded (okRun multiOnly).1.1 (command 1 ["GET", "k"]) =
      some queuedReply := by decide +kernel
  refine ⟨_, S, hreach, ?_⟩
  refine (transacts_iff_waits hreach (by decide +kernel) (by decide +kernel) ?_).2 (by decide)
  intro c hc
  rw [List.mem_singleton.1 hc]
  exact ⟨by unfold between; decide, accepted_of_eq hqueued rfl⟩

/-- `PING` inside `MULTI` is answered at once. -/
theorem ping_not_queued :
    ¬ ∀ s S, Reaches seeded anyCond s S → s.multi = true → s.queued = [] →
      ∀ cs, (∀ c ∈ cs, between c ∧ Accepted seeded s c) → Transacts seeded s cs := by
  intro h
  obtain ⟨S, hreach⟩ := okRun_reaches multiOnly (by decide +kernel)
  have hpong : answerHere seeded (okRun multiOnly).1.1 (command 1 ["PING"]) = some plusPong := by
    decide +kernel
  have htransacts := h _ S hreach (by decide +kernel) (by decide +kernel) [command 1 ["PING"]] (by
    intro c hc
    rw [List.mem_singleton.1 hc]
    exact ⟨by unfold between; decide, accepted_of_eq hpong rfl⟩)
  have hrun := okStep_runs multiOnly (command 1 ["PING"])
  have hok : (okStep multiOnly (command 1 ["PING"])).1.2 = .ok := by decide +kernel
  rw [← Prod.eta (okStep multiOnly (command 1 ["PING"])).1, hok] at hrun
  have hreplies := (htransacts _ _ (.step trivial hrun .nil)).1
  rw [List.append_nil] at hreplies
  exact absurd hreplies (by decide +kernel)

end RespProxy.Proxy
