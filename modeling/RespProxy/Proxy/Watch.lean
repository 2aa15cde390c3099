import RespProxy.Proxy.Subscribe

/-! # Watched keys across transactions

`WATCH` pins a connection and remembers its keys. The state it leaves behind is
taken back by `EXEC`, `UNWATCH` and `RESET`, each in code of its own; `DISCARD`
does not do so. This module gives the ways a command can go (`HandleRun`,
`RemoteRun`), the invariant of the transaction fields that follows from them
(`TxnInv`), and what is left of watched keys after the commands that end a
transaction.
-/

namespace RespProxy.Proxy

open Cluster Command Resp Interact

variable {cfg : Config} {s s' : Session} {c : ClientCmd} {tr : Trace} {r : Session × Outcome}
variable {v : Value} {conn : ConnId} {mode : Mode} {id : CmdId} {S : List Subscription}
  {fs : List Frame} {p : ExecPlan} {argv : Argv} {g f : Frame} {e : Err}

/-! ## The ways of a command -/

/-- The ways of `handle`: in subscribe mode, `SELECT`, a command that is answered
here, and the others. -/
inductive HandleRun (cfg : Config) (s : Session) (c : ClientCmd) :
    Trace → Session × Outcome → Prop where
  | empty (hsub : s.sub ≠ none) (hc : c.argv = []) : HandleRun cfg s c [] (s, .panic)
  | sub {mode : Mode} {tr : Trace} {r : Session × Outcome} (hsub : s.sub = some mode)
      (hc : c.argv ≠ []) (h : (handleSub cfg s mode c).Runs tr r) : HandleRun cfg s c tr r
  | select {tr : Trace} {r : Session × Outcome} (hsub : s.sub = none) (hn : c.name = "SELECT")
      (h : (finish (selectStep cfg s c).1 c.id (selectStep cfg s c).2).Runs tr r) :
      HandleRun cfg s c tr r
  | here {v : Value} {tr tr' : Trace} {r : Session × Outcome} (hsub : s.sub = none)
      (hn : c.name ≠ "SELECT") (hl : (localStep cfg s c.argv).2 = some v) (hq : IdleTrace tr)
      (h : (finish (localStep cfg s c.argv).1 c.id v).Runs tr' r) :
      HandleRun cfg s c (tr ++ tr') r
  | remote {tr : Trace} {r : Session × Outcome} (hsub : s.sub = none) (hn : c.name ≠ "SELECT")
      (hl : (localStep cfg s c.argv).2 = none) (h : (handleRemote cfg s c).Runs tr r) :
      HandleRun cfg s c tr r

/-- What passes the local commands: an empty command, or one that is not local, from a
client that is admitted unless it is `COMMAND`. -/
theorem localStep_passes (h : (localStep cfg s argv).2 = none) :
    argv = [] ∨ nameOf argv ∉ localNames ∧ (nameOf argv = "COMMAND" ∨ Admitted cfg s) := by
  have hl := localStep_local cfg s argv
  generalize localStep cfg s argv = x at hl h
  cases hl with
  | pass hn ha =>
    rcases hn with hc | hn
    · exact .inl hc
    · exact ha.imp_right fun ha => ⟨hn, ha⟩
  | _ => cases h

theorem handle_runs (h : (handle cfg s c).Runs tr r) : HandleRun cfg s c tr r := by
  unfold handle at h
  cases hsub : s.sub with
  | some mode =>
    rw [hsub] at h
    dsimp only at h
    split at h
    · obtain ⟨rfl, rfl⟩ := h
      exact .empty (by simp [hsub]) ‹_›
    · exact .sub hsub ‹_› h
  | none =>
    rw [hsub] at h
    dsimp only at h
    split at h
    · exact .select hsub ‹_› h
    rename_i hn
    obtain ⟨t₁, x, t₂, h₁, h₂, rfl⟩ := Prog.runs_bind.1 h
    obtain ⟨hidle, rfl⟩ := (handleLocal_idle (A := anyAnswer) s c.argv).runs h₁ fun _ _ => trivial
    cases hl : (localStep cfg s c.argv).2 with
    | some v =>
      rw [localStep_eq_some hl] at h₂
      exact .here hsub hn hl hidle h₂
    | none =>
      have hsame : localStep cfg s c.argv = (s, none) := localStep_eq_none hl
      rw [hsame] at h₂
      -- without an answer nothing is dropped either
      have hnil : t₁ = [] := by
        unfold handleLocal at h₁
        split at h₁
        · rename_i hreset
          rcases localStep_passes hl with hc | ⟨hno, -⟩
          · exact absurd hc hreset.1
          · exact absurd (by rw [hreset.2]; decide) hno
        · exact h₁.1
      subst hnil
      exact .remote hsub hn hl h₂

/-- The ways of a command behind the local ones. -/
inductive RemoteRun (cfg : Config) (s : Session) (c : ClientCmd) :
    Trace → Session × Outcome → Prop where
  | multi {tr : Trace} {r : Session × Outcome} (hn : c.name = "MULTI")
      (h : (finish (multiStep s).1 c.id (multiStep s).2).Runs tr r) : RemoteRun cfg s c tr r
  | discard {tr : Trace} {r : Session × Outcome} (hn : c.name = "DISCARD")
      (h : (finish (discardStep s).1 c.id (discardStep s).2).Runs tr r) : RemoteRun cfg s c tr r
  | exec {tr : Trace} {r : Session × Outcome} (hn : c.name = "EXEC")
      (h : (cmdExec cfg s c).Runs tr r) : RemoteRun cfg s c tr r
  | watch {tr : Trace} {r : Session × Outcome} (hn : c.name = "WATCH")
      (h : (cmdWatch cfg s c).Runs tr r) : RemoteRun cfg s c tr r
  | unwatch {tr : Trace} {r : Session × Outcome} (hn : c.name = "UNWATCH")
      (h : (cmdUnwatch s c).Runs tr r) : RemoteRun cfg s c tr r
  | queue {tr : Trace} {r : Session × Outcome}
      (hn : c.name ∉ ["MULTI", "DISCARD", "EXEC", "WATCH", "UNWATCH"]) (hm : s.multi = true)
      (h : (finish (s.enqueue c) c.id queuedReply).Runs tr r) : RemoteRun cfg s c tr r
  | empty (hm : s.multi = false) (hc : c.argv = []) : RemoteRun cfg s c [] (s, .panic)
  | dispatch {tr : Trace} {r : Session × Outcome}
      (hn : c.name ∉ ["MULTI", "DISCARD", "EXEC", "WATCH", "UNWATCH"]) (hm : s.multi = false)
      (hc : c.argv ≠ []) (h : (dispatch cfg s c).Runs tr r) : RemoteRun cfg s c tr r

theorem handleRemote_runs (h : (handleRemote cfg s c).Runs tr r) : RemoteRun cfg s c tr r := by
  unfold handleRemote at h
  split at h
  · exact .multi ‹_› h
  split at h
  · exact .discard ‹_› h
  split at h
  · exact .exec ‹_› h
  split at h
  · exact .watch ‹_› h
  split at h
  · exact .unwatch ‹_› h
  rename_i h₁ h₂ h₃ h₄ h₅
  have hn : c.name ∉ ["MULTI", "DISCARD", "EXEC", "WATCH", "UNWATCH"] := by
    simp [h₁, h₂, h₃, h₄, h₅]
  split at h
  · exact .queue hn ‹_› h
  rename_i hm
  replace hm : s.multi = false := by simpa using hm
  split at h
  · obtain ⟨rfl, rfl⟩ := h
    exact .empty hm ‹_›
  · exact .dispatch hn hm ‹_› h

theorem finish_state (h : (finish s id v).Runs tr r) : r.1 = s :=
  ((finish_sends (S := fun _ => True) (R := fun _ _ => True) trivial).runs h
    fun _ _ => (trivial : anyAnswer _)).2

/-! ## The fields of a transaction -/

/-- No keys are watched and no connection is pinned. -/
def Session.Clear (s : Session) : Prop := s.watched = [] ∧ s.pin = none

/-- The session is not in `MULTI` and nothing is queued. -/
def Session.Outside (s : Session) : Prop := s.multi = false ∧ s.queued = []

instance (s : Session) : Decidable s.Clear := inferInstanceAs (Decidable (_ ∧ _))

instance (s : Session) : Decidable s.Outside := inferInstanceAs (Decidable (_ ∧ _))

/-- The watched keys and the pin are the same. -/
def SameWatch (s s' : Session) : Prop := s'.watched = s.watched ∧ s'.pin = s.pin

/-- What holds between commands: without a password every client is authenticated, the
queue belongs to `MULTI`, a subscribed session is not in it, and a client that is not
admitted has no transaction and watches nothing. -/
structure TxnInv (cfg : Config) (s : Session) : Prop where
  authed : requireAuth cfg = false → s.authed = true
  queue : s.multi = false → s.queued = []
  mode : s.sub ≠ none → s.multi = false
  guest : ¬ Admitted cfg s → s.multi = false ∧ s.Clear

theorem newSession_txnInv : TxnInv cfg (newSession cfg) :=
  ⟨fun h => by simp [newSession, h], fun _ => rfl, fun h => absurd rfl h,
    fun _ => ⟨rfl, rfl, rfl⟩⟩

theorem TxnInv.outside (h : TxnInv cfg s) (hm : s.multi = false) : s.Outside := ⟨hm, h.queue hm⟩

theorem handleSub_watch (h : (handleSub cfg s mode c).Runs tr r) :
    r.1 = s ∨ r.1 = { s with quit := true } := by
  unfold handleSub at h
  split at h
  · exact .inl (finish_state h)
  split at h
  · exact .inr (finish_state h)
  · obtain ⟨_, vs, t₂, -, h₂, -⟩ := Prog.runs_bind.1 h
    exact .inl ((replyAll_sends (S := fun _ => True) (R := fun _ _ => True)
      fun _ _ => trivial).runs h₂ fun _ _ => (trivial : anyAnswer _)).2

theorem dispatch_watch (hc : c.argv ≠ []) (hn : c.name ∉ ["MULTI", "DISCARD", "EXEC", "UNWATCH"])
    (h : (dispatch cfg s c).Runs tr r) : ∃ sub, r.1 = { s with sub := sub } := by
  obtain ⟨-, hr⟩ := (dispatch_sends (A := anyAnswer) (S := fun _ => True) (R := fun _ _ => True)
    hc (fun _ _ => trivial) (fun _ _ => trivial) (fun _ => trivial) (fun _ => trivial) hn
    fun _ _ => trivial).runs h fun _ _ => trivial
  rcases hr with hr | ⟨⟨mode, hr⟩, -⟩
  · exact ⟨s.sub, hr⟩
  · exact ⟨some mode, hr⟩

/-- A local command leaves the session as it is, admits the client, notes `QUIT`, or
resets everything. -/
theorem TxnInv.local (h : TxnInv cfg s) (argv : Argv) : TxnInv cfg (localStep cfg s argv).1 := by
  have hl := localStep_local cfg s argv
  generalize localStep cfg s argv = x at hl
  cases hl with
  | pass | answer | noAuth => exact h
  | auth => exact ⟨fun _ => rfl, h.queue, h.mode, fun hno => absurd (by simp [Admitted]) hno⟩
  | quit => exact ⟨h.authed, h.queue, h.mode, h.guest⟩
  | reset =>
    exact ⟨fun hreq => by simp [hreq], fun _ => rfl, fun _ => rfl, fun _ => ⟨rfl, rfl, rfl⟩⟩

theorem TxnInv.select (h : TxnInv cfg s) : TxnInv cfg (selectStep cfg s c).1 := by
  unfold selectStep
  split
  · exact h
  split
  · exact h
  split
  · rename_i hm
    refine ⟨h.authed, fun hm' => ?_, h.mode, h.guest⟩
    exact absurd (hm.symm.trans hm') (by simp)
  · exact ⟨h.authed, h.queue, h.mode, h.guest⟩

theorem TxnInv.classified (h : TxnInv cfg s) : TxnInv cfg (classifyState cfg s c) := by
  unfold classifyState
  split
  · exact h
  split
  · unfold classifySelect
    split
    · exact h
    split
    · exact h
    · exact ⟨h.authed, h.queue, h.mode, h.guest⟩
  · exact h.local c.argv

/-- Behind the local commands only `EXEC`, `WATCH` and `UNWATCH` change what is watched. -/
theorem RemoteRun.watch_eq (h : RemoteRun cfg s c tr r)
    (hn : c.name ∉ ["EXEC", "WATCH", "UNWATCH"]) : SameWatch s r.1 := by
  cases h with
  | multi _ h =>
    rw [finish_state h, multiStep]
    split <;> exact ⟨rfl, rfl⟩
  | discard _ h =>
    rw [finish_state h, discardStep]
    split <;> exact ⟨rfl, rfl⟩
  | exec hn' => exact absurd (by simp [hn']) hn
  | watch hn' => exact absurd (by simp [hn']) hn
  | unwatch hn' => exact absurd (by simp [hn']) hn
  | queue _ _ h =>
    rw [finish_state h]
    exact ⟨rfl, rfl⟩
  | empty => exact ⟨rfl, rfl⟩
  | dispatch hn' _ hc h =>
    obtain ⟨sub, hr⟩ := dispatch_watch hc (by simp_all) h
    rw [hr]
    exact ⟨rfl, rfl⟩

/-- The commands of transactions are taken from admitted clients only. -/
theorem admitted_of_remote (hl : (localStep cfg s c.argv).2 = none)
    (hn : c.name ∈ ["MULTI", "DISCARD", "EXEC", "WATCH", "UNWATCH"]) : Admitted cfg s := by
  have hne := c.argv_ne_of_mem hn (by decide)
  rcases localStep_passes hl with hc | ⟨-, hcmd | hadm⟩
  · exact absurd hc hne
  · rw [ClientCmd.name_of_ne hne, hcmd] at hn
    exact absurd hn (by decide)
  · exact hadm

theorem TxnInv.remote (h : TxnInv cfg s) (hsub : s.sub = none)
    (hl : (localStep cfg s c.argv).2 = none) (hrun : RemoteRun cfg s c tr r) :
    TxnInv cfg r.1 := by
  have hadm := admitted_of_remote hl
  -- the states of an admitted client that is not subscribed
  have admitted : ∀ {t : Session}, (t.multi = false → t.queued = []) → t.sub = s.sub →
      t.authed = s.authed → Admitted cfg s → TxnInv cfg t := by
    intro t hq ht hauth ha
    refine ⟨fun hreq => hauth.trans (h.authed hreq), hq, fun hne => absurd (ht.trans hsub) hne,
      fun hno => absurd ?_ hno⟩
    rwa [Admitted, hauth]
  cases hrun with
  | multi hn hrun =>
    rw [finish_state hrun, multiStep]
    split
    · exact h
    · exact admitted (fun _ => rfl) rfl rfl (hadm (by simp [hn]))
  | discard hn hrun =>
    rw [finish_state hrun, discardStep]
    split
    · exact admitted (fun _ => rfl) rfl rfl (hadm (by simp [hn]))
    · exact h
  | exec hn hrun =>
    obtain ⟨-, hr⟩ := (cmdExec_sends (A := anyAnswer) (S := fun _ => True) (R := fun _ _ => True)
      (fun _ => trivial) (fun _ _ _ _ _ => trivial) fun _ _ => trivial).runs hrun fun _ _ => trivial
    rcases hr with ⟨hr, -⟩ | ⟨-, pin, w, db, hr⟩
    · rwa [hr]
    · rw [hr]
      exact admitted (fun _ => rfl) rfl rfl (hadm (by simp [hn]))
  | watch hn hrun =>
    obtain ⟨-, pin, gen, w, hr⟩ := (cmdWatch_sends (A := anyAnswer) (S := fun _ => True)
      (R := fun _ _ => True) (fun _ => trivial) fun _ _ _ => trivial).runs hrun fun _ _ => trivial
    rw [hr]
    exact admitted h.queue rfl rfl (hadm (by simp [hn]))
  | unwatch hn hrun =>
    obtain ⟨-, pin, gen, w, hr⟩ := (cmdUnwatch_sends (A := anyAnswer) (S := fun _ => True)
      (R := fun _ _ => True) (fun _ => trivial) trivial).runs hrun fun _ _ => trivial
    rw [hr]
    exact admitted h.queue rfl rfl (hadm (by simp [hn]))
  | queue _ hm hrun =>
    rw [finish_state hrun]
    refine admitted (fun hm' => absurd (hm.symm.trans hm') (by simp)) rfl rfl ?_
    by_contra hno
    exact absurd (hm.symm.trans (h.guest hno).1) (by simp)
  | empty => exact h
  | dispatch hn hm hc hrun =>
    obtain ⟨sub, hr⟩ := dispatch_watch hc (by simp_all) hrun
    rw [hr]
    exact ⟨h.authed, h.queue, fun _ => hm, h.guest⟩

theorem TxnInv.handled (h : TxnInv cfg s) (hrun : (handle cfg s c).Runs tr r) :
    TxnInv cfg r.1 := by
  cases handle_runs hrun with
  | empty => exact h
  | sub _ _ hrun =>
    rcases handleSub_watch hrun with hr | hr <;> rw [hr]
    · exact h
    · exact ⟨h.authed, h.queue, h.mode, h.guest⟩
  | select _ _ hrun =>
    rw [finish_state hrun]
    exact h.select
  | here _ _ _ _ hrun =>
    rw [finish_state hrun]
    exact h.local c.argv
  | remote hsub _ hl hrun => exact h.remote hsub hl (handleRemote_runs hrun)

/-- What `handle` and the classification pass keep holds in every reachable state. -/
theorem Reaches.invariant {I : Session → Prop} (hnew : I (newSession cfg))
    (hhandle : ∀ {s c tr r}, I s → (handle cfg s c).Runs tr r → I r.1)
    (hclassify : ∀ {s c}, I s → I (classifyState cfg s c))
    (h : Reaches cfg anyCond s S) : I s := by
  have hpass : ∀ (b : List ClientCmd) {s}, I s → I (batchState cfg s b) := by
    intro b
    induction b with
    | nil => exact id
    | cons c cs ih => exact fun hs => ih (hclassify hs)
  induction h with
  | new => exact hnew
  | handled _ _ hrun ih => exact hhandle ih hrun
  | passed b _ _ ih => exact hpass b ih
  | @piped s s' S b ks tr _ _ hk hrun ih =>
    obtain ⟨-, hr⟩ := (execFastPipeline_sends (A := anyAnswer) hk).runs hrun fun _ _ => trivial
    rw [show s' = _ from hr]
    exact hpass b ih

theorem Reaches.txnInv (h : Reaches cfg anyCond s S) : TxnInv cfg s :=
  h.invariant newSession_txnInv TxnInv.handled TxnInv.classified

theorem selectDB_lt (hcfg : cfg.Valid) {n : Nat} (h : selectDB cfg argv = .ok n) :
    n < cfg.maxDatabases := by
  have hmax := hcfg.databases
  unfold selectDB parseDBIndex at h
  grind

theorem localStep_db_lt (hcfg : cfg.Valid) (hs : s.db < cfg.maxDatabases) (argv : Argv) :
    (localStep cfg s argv).1.db < cfg.maxDatabases := by
  rcases @localStep_db cfg s argv with h | h <;> rw [h]
  · exact hs
  · exact hcfg.databases

theorem handle_db_lt (hcfg : cfg.Valid) (hs : s.db < cfg.maxDatabases)
    (hrun : (handle cfg s c).Runs tr r) : r.1.db < cfg.maxDatabases := by
  by_cases hn : c.name = "EXEC"
  · cases handle_runs hrun with
    | empty => exact hs
    | sub _ _ hrun => rcases handleSub_watch hrun with hr | hr <;> rw [hr] <;> exact hs
    | select _ hsel => exact absurd (hn.symm.trans hsel) (by decide)
    | here _ _ _ _ hrun =>
      rw [finish_state hrun]
      exact localStep_db_lt hcfg hs c.argv
    | remote _ _ hl =>
      have hexec := (handle_exec_db (A := anyAnswer) hn fun _ => hl).runs hrun fun _ _ => trivial
      rcases hexec.2 with hr | ⟨p, hp, hr⟩ <;> rw [hr]
      · exact hs
      · rcases execPlan_db hp with h | ⟨_, _, _, _, h⟩
        · rwa [h]
        · exact selectDB_lt hcfg h
  · have hafter := ((handle_sends anyAnswer cfg s c).runs hrun fun _ _ => trivial).2
    rw [hafter.db hn]
    rcases nextState_db s c with h | h | ⟨-, h⟩
    · rwa [h]
    · exact h ▸ hcfg.databases
    · exact selectDB_lt hcfg h

theorem classifyState_db_lt (hcfg : cfg.Valid) (hs : s.db < cfg.maxDatabases) :
    (classifyState cfg s c).db < cfg.maxDatabases := by
  unfold classifyState classifySelect
  split
  · exact hs
  split
  · split
    · exact hs
    split
    · exact hs
    · exact selectDB_lt hcfg ‹_›
  · exact localStep_db_lt hcfg hs c.argv

/-- **Between commands** the selected database exists, and the transaction is in order. -/
theorem runs_sane (hcfg : cfg.Valid) {bs : List (List ClientCmd)}
    (h : (run cfg (newSession cfg) bs).Runs tr (s, .ok)) :
    s.db < cfg.maxDatabases ∧ TxnInv cfg s := by
  obtain ⟨S, hreach⟩ := reaches_of_runs h
  exact ⟨hreach.invariant (I := fun s => s.db < cfg.maxDatabases) hcfg.databases (handle_db_lt hcfg)
    (classifyState_db_lt hcfg), hreach.txnInv⟩

theorem runs_sane_select : ∃ tr s,
    (run seeded (newSession seeded) [[command 0 ["SELECT", "3"]]]).Runs tr (s, .ok) ∧
      s.db = 3 ∧ s.db < seeded.maxDatabases ∧ TxnInv seeded s := by
  have hrun : (run seeded (newSession seeded) [[command 0 ["SELECT", "3"]]]).Runs _ (_, .ok) :=
    scripted_runs (fun _ => calm fun _ => plusOK) _
  exact ⟨_, _, hrun, rfl, runs_sane seeded_valid hrun⟩

/-! ## Answers of a backend -/

/-- A backend answered `f`. -/
def answered (f : Frame) (tr : Trace) : Bool :=
  tr.any fun
    | ⟨.read _ g, .ok _⟩ => decide (g = f)
    | _ => false

theorem answered_append (f : Frame) (tr tr' : Trace) :
    answered f (tr ++ tr') = (answered f tr || answered f tr') := List.any_append

/-- The event is of the way to a connection: the topology, a checkout, or the closing of
one. -/
def SetupEvent (e : Event) : Prop :=
  match e.op with
  | .load | .get _ _ | .drop _ => True
  | _ => False

def SetupTrace (tr : Trace) : Prop := ∀ e ∈ tr, SetupEvent e

/-- A program that does no more than that. -/
abbrev Setup {α : Type} (Q : α → Prop) (p : Prog α) : Prop := p.Ensures anyAnswer SetupEvent Q

theorem SetupEvent.foot {S : Frame → Prop} {R : Option CmdId → Value → Prop} {e : Event}
    (h : SetupEvent e) : Foot S R e := by
  obtain ⟨o, x⟩ := e
  cases o <;> trivial

theorem SetupTrace.quiet (h : SetupTrace tr) : Quiet tr := fun e he => (h e he).foot

theorem SetupTrace.answered (h : SetupTrace tr) (f : Frame) : answered f tr = false := by
  refine List.any_eq_false.2 ?_
  rintro ⟨o, x⟩ he
  have hsetup := h _ he
  cases o with
  | read c g => exact hsetup.elim
  | _ => simp

theorem SetupTrace.append {tr' : Trace} (h : SetupTrace tr) (h' : SetupTrace tr') :
    SetupTrace (tr ++ tr') := List.forall_mem_append.2 ⟨h, h'⟩

theorem Setup.runs {α : Type} {Q : α → Prop} {p : Prog α} (hp : Setup Q p) {a : α}
    (h : p.Runs tr a) : SetupTrace tr ∧ Q a := Prog.Ensures.runs hp h fun _ _ => trivial

theorem Idle.setup {α : Type} {Q : α → Prop} {p : Prog α} (h : Idle anyAnswer Q p) :
    Setup Q p := by
  refine Prog.Ensures.mono h ?_ fun _ ha => ha
  rintro ⟨o, x⟩ - he
  cases o <;> trivial

theorem checkout_setup (slot : Nat) : Setup (fun _ => True) (checkout cfg slot) := by
  refine (Idle.setup (owner_idle cfg slot false)).bind ?_
  intro addr _
  cases addr with
  | none => trivial
  | some addr => exact fun _ _ => ⟨trivial, trivial⟩

theorem pinStale_setup (s : Session) : Setup (fun _ => True) (pinStale s) := by
  unfold pinStale
  cases s.pin with
  | none => trivial
  | some c => exact fun _ _ => ⟨trivial, trivial⟩

theorem reply_answered {id : Option CmdId} {o : Outcome}
    (h : (reply id v).Runs tr o) (f : Frame) : answered f tr = false := by
  obtain ⟨-, rfl⟩ | ⟨e, -, rfl | rfl | rfl⟩ := reply_cases h <;> rfl

theorem finish_answered (h : (finish s id v).Runs tr r) (f : Frame) :
    answered f tr = false := by
  obtain ⟨t₁, o, t₂, h₁, ⟨rfl, -⟩, rfl⟩ := Prog.runs_bind.1 h
  rw [List.append_nil]
  exact reply_answered h₁ f

theorem doFrame_error
    (h : (doFrame conn g).Runs tr (.error e)) (f : Frame) : answered f tr = false := by
  obtain ⟨x, tr, rfl, h⟩ := h
  cases x with
  | some e' =>
    obtain ⟨rfl, -⟩ := h
    rfl
  | none =>
    obtain ⟨y, tr, rfl, rfl, rfl⟩ := h
    rfl

theorem doFrame_ok (h : (doFrame conn g).Runs tr (.ok v)) :
    tr = [⟨.write conn [g], none⟩, ⟨.read conn g, .ok v⟩] := by
  obtain ⟨x, tr, rfl, h⟩ := h
  cases x with
  | some e' =>
    obtain ⟨-, h⟩ := h
    cases h
  | none =>
    obtain ⟨y, tr, rfl, rfl, rfl⟩ := h
    rfl

/-- Frames that are sent one by one: all but the last, then the last. -/
theorem doFrames_snoc {last v : Value} (h : (doFrames conn (fs ++ [f]) last).Runs tr (.ok v)) :
    ∃ t, tr = t ++ [⟨.write conn [f], none⟩, ⟨.read conn f, .ok v⟩] ∧
      ∀ e ∈ t, ∃ g ∈ fs, e = ⟨.write conn [g], none⟩ ∨ ∃ w, e = ⟨.read conn g, .ok w⟩ := by
  induction fs generalizing last tr with
  | nil =>
    obtain ⟨t₁, x, t₂, h₁, h₂, rfl⟩ := Prog.runs_bind.1 h
    cases x with
    | error e =>
      obtain ⟨-, h₂⟩ := h₂
      cases h₂
    | ok w =>
      obtain ⟨rfl, hw⟩ := h₂
      cases hw
      exact ⟨[], by rw [doFrame_ok h₁]; rfl, nofun⟩
  | cons g fs ih =>
    obtain ⟨t₁, x, t₂, h₁, h₂, rfl⟩ := Prog.runs_bind.1 h
    cases x with
    | error e =>
      obtain ⟨-, h₂⟩ := h₂
      cases h₂
    | ok w =>
      obtain ⟨t, rfl, ht⟩ := ih h₂
      refine ⟨t₁ ++ t, (List.append_assoc _ _ _).symm, fun e he => ?_⟩
      rcases List.mem_append.1 he with he | he
      · rw [doFrame_ok h₁] at he
        refine ⟨g, List.mem_cons_self, ?_⟩
        simp only [List.mem_cons, List.not_mem_nil, or_false] at he
        exact he.imp_right fun he => ⟨w, he⟩
      · obtain ⟨g', hg', he⟩ := ht e he
        exact ⟨g', List.mem_cons_of_mem g hg', he⟩

/-- If sending frames fails, the last one was not answered. -/
theorem doFrames_error {last : Value}
    (hf : f ∉ fs) (h : (doFrames conn (fs ++ [f]) last).Runs tr (.error e)) :
    answered f tr = false := by
  induction fs generalizing last tr with
  | nil =>
    obtain ⟨t₁, x, t₂, h₁, h₂, rfl⟩ := Prog.runs_bind.1 h
    cases x with
    | error e' =>
      obtain ⟨rfl, -⟩ := h₂
      rw [List.append_nil]
      exact doFrame_error h₁ f
    | ok v =>
      obtain ⟨-, h₂⟩ := h₂
      cases h₂
  | cons g fs ih =>
    obtain ⟨t₁, x, t₂, h₁, h₂, rfl⟩ := Prog.runs_bind.1 h
    obtain ⟨hg, hfs⟩ : f ≠ g ∧ f ∉ fs := by simpa using hf
    cases x with
    | error e' =>
      obtain ⟨rfl, -⟩ := h₂
      rw [List.append_nil]
      exact doFrame_error h₁ f
    | ok v =>
      rw [answered_append, ih hfs h₂, doFrame_ok h₁]
      simp [answered, hg.symm]

/-! ## The exits of `EXEC` -/

/-- The session as `EXEC` takes it out of `MULTI`. -/
def Session.leave (s : Session) : Session := { s with multi := false, queued := [] }

/-- The backend's `EXEC` for a client's `EXEC`. -/
def execFrame (s : Session) (c : ClientCmd) : Frame := { argv := [arg "EXEC"], src := c.src s }

/-- What `EXEC` sends ahead of it. -/
def execOpening (s : Session) (c : ClientCmd) (p : ExecPlan) : List Frame :=
  { argv := [arg "MULTI"], src := c.src s } :: p.backend

theorem execFrame_not_mem {queue : List QueuedCmd} {db : Nat}
    (hp : execPlan cfg db queue = some p) : execFrame s c ∉ execOpening s c p := by
  intro hmem
  rcases List.mem_cons.1 hmem with heq | hmem
  · have hargv : [arg "EXEC"] = [arg "MULTI"] := congrArg Frame.argv heq
    exact absurd hargv (by decide)
  · obtain ⟨q, -, argv, db', -, heq⟩ := mem_execPlan_backend cfg hp hmem
    have hsrc : c.src s = .client q.id q.argv db' true := congrArg Frame.src heq
    exact absurd (Origin.client.inj hsrc).2.2.2 (by simp)

/-- The value of an item of a queue without backend commands. -/
def ExecItem.value : ExecItem → Value
  | .here v => v
  | .send _ => Value.zero

/-- The exits of `cmdExec`. -/
inductive ExecRun (cfg : Config) (s : Session) (c : ClientCmd) :
    Trace → Session × Outcome → Prop where
  | noMulti {tr : Trace} {r : Session × Outcome} (hm : s.multi = false)
      (h : (finish s c.id errNoMulti).Runs tr r) : ExecRun cfg s c tr r
  | panic {tr : Trace} (hm : s.multi = true) (hq : SetupTrace tr) :
      ExecRun cfg s c tr (s.leave, .panic)
  /-- an older topology, or keys in several slots -/
  | aborted {tr tr' : Trace} {r : Session × Outcome} {msg : String} (hm : s.multi = true)
      (hq : SetupTrace tr) (h : (finish s.leave.unpin c.id (error msg)).Runs tr' r) :
      ExecRun cfg s c (tr ++ tr') r
  /-- nothing to send -/
  | here {p : ExecPlan} {tr tr' : Trace} {r : Session × Outcome} (hm : s.multi = true)
      (hp : execPlan cfg s.db s.queued = some p) (hb : p.backend = []) (hq : SetupTrace tr)
      (h : (finish { s.leave with db := p.db, watched := [] } c.id
        (array (p.items.map ExecItem.value))).Runs tr' r) : ExecRun cfg s c (tr ++ tr') r
  /-- no connection, or an I/O error on it -/
  | failed {tr tr' : Trace} {r : Session × Outcome} {e : Err} (hm : s.multi = true)
      (hno : answered (execFrame s c) tr = false)
      (h : (finish s.leave.unpin c.id (errOf e)).Runs tr' r) : ExecRun cfg s c (tr ++ tr') r
  | done {p : ExecPlan} {conn : ConnId} {v : Value} {t₀ t₁ t₂ : Trace} {o : Outcome}
      (hm : s.multi = true) (hp : execPlan cfg s.db s.queued = some p) (hb : p.backend ≠ [])
      (hq : SetupTrace t₀) (hpin : s.pin = none ∨ s.pin = some conn)
      (h₁ : (doFrames conn (execOpening s c p ++ [execFrame s c]) Value.zero).Runs t₁ (.ok v))
      (h₂ : (reply (some c.id) (execDone s.leave.unpin p v).2).Runs t₂ o) :
      ExecRun cfg s c (t₀ ++ t₁ ++ t₂ ++ [⟨.put conn, ()⟩]) ((execDone s.leave.unpin p v).1, o)

theorem execBackend_runs {slot : Nat} {t₀ : Trace} (hm : s.multi = true)
    (hp : execPlan cfg s.db s.queued = some p) (hb : p.backend ≠ []) (hq : SetupTrace t₀)
    (h : (execBackend cfg s.leave c p slot).Runs tr r) : ExecRun cfg s c (t₀ ++ tr) r := by
  obtain ⟨t₁, x, t₂, h₁, h₂, rfl⟩ := Prog.runs_bind.1 h
  have hconn : Setup (fun x => ∀ conn, x = .ok conn → s.pin = none ∨ s.pin = some conn)
      (execConn cfg s.leave slot) := by
    unfold execConn
    cases hpin : s.pin with
    | some pin =>
      rw [show s.leave.pin = some pin from hpin]
      rintro conn ⟨⟩
      exact .inr rfl
    | none =>
      rw [show s.leave.pin = none from hpin]
      exact (checkout_setup slot).mono (fun _ _ he => he) fun _ _ _ _ => .inl rfl
  obtain ⟨hq₁, hpin⟩ := Setup.runs hconn h₁
  rw [← List.append_assoc]
  cases x with
  | error e => exact .failed hm ((hq.append hq₁).answered _) h₂
  | ok conn =>
    obtain ⟨t₂, y, t₃, hdo, h₃, rfl⟩ := Prog.runs_bind.1 h₂
    cases y with
    | error e =>
      have hmiss : answered (execFrame s c) t₂ = false :=
        doFrames_error (execFrame_not_mem (s := s) hp) hdo
      obtain ⟨_, t₃, rfl, h₃⟩ := h₃
      have hno : answered (execFrame s c) (t₀ ++ t₁ ++ t₂ ++ [⟨.drop conn, ()⟩]) = false := by
        rw [answered_append, answered_append, (hq.append hq₁).answered, hmiss]
        rfl
      have hrun : ExecRun cfg s c (t₀ ++ t₁ ++ t₂ ++ [⟨.drop conn, ()⟩] ++ t₃) r :=
        .failed hm hno h₃
      simpa using hrun
    | ok v =>
      obtain ⟨t₃, o, t₄, hreply, h₄, rfl⟩ := Prog.runs_bind.1 h₃
      obtain ⟨_, _, rfl, rfl, rfl⟩ := h₄
      have hrun := ExecRun.done hm hp hb (hq.append hq₁) (hpin conn rfl) hdo hreply
      simp only [List.append_assoc] at hrun ⊢
      exact hrun

theorem cmdExec_runs (h : (cmdExec cfg s c).Runs tr r) : ExecRun cfg s c tr r := by
  unfold cmdExec at h
  cases hm : s.multi with
  | false => exact .noMulti hm (by simpa [hm] using h)
  | true =>
    rw [if_neg (by simp [hm])] at h
    obtain ⟨t₁, stale, t₂, h₁, h₂, rfl⟩ := Prog.runs_bind.1 h
    obtain ⟨hq, -⟩ := Setup.runs (pinStale_setup _) h₁
    cases stale with
    | true =>
      obtain ⟨t₂, s₁, t₃, hdrop, h₃, rfl⟩ := Prog.runs_bind.1 h₂
      obtain ⟨hq₂, rfl⟩ := Setup.runs (Idle.setup (dropPin_idle _)) hdrop
      rw [← List.append_assoc]
      exact .aborted hm (hq.append hq₂) h₃
    | false =>
      replace h₂ : (execQueued cfg s.leave c s.queued).Runs t₂ r := h₂
      unfold execQueued at h₂
      cases hp : execPlan cfg s.leave.db s.queued with
      | none =>
        rw [hp] at h₂
        obtain ⟨rfl, rfl⟩ := h₂
        rw [List.append_nil]
        exact .panic hm hq
      | some p =>
        rw [hp] at h₂
        dsimp only at h₂
        split at h₂
        · obtain ⟨t₂, s₁, t₃, hdrop, h₃, rfl⟩ := Prog.runs_bind.1 h₂
          obtain ⟨hq₂, rfl⟩ := Setup.runs (Idle.setup (dropPin_idle _)) hdrop
          rw [← List.append_assoc]
          exact .aborted hm (hq.append hq₂) h₃
        split at h₂
        · exact .here hm hp ‹_› hq h₂
        · exact execBackend_runs hm hp ‹_› hq h₂

/-! ## The ends of a transaction -/

theorem Session.Clear.unpin (h : s.Clear) : s.unpin.Clear := ⟨h.1, rfl⟩

/-- `EXEC` leaves no watch state behind if there was none, or if a backend answered it. -/
theorem ExecRun.clear (h : ExecRun cfg s c tr r) (hok : r.2 ≠ .panic)
    (hcond : s.Clear ∨ answered (execFrame s c) tr = true) : r.1.Clear := by
  cases h with
  | noMulti _ h =>
    rw [finish_state h]
    exact hcond.resolve_right (by simp [finish_answered h])
  | panic => exact absurd rfl hok
  | aborted _ hq h =>
    rw [finish_state h]
    rw [answered_append, hq.answered, finish_answered h] at hcond
    exact (hcond.resolve_right (by simp)).unpin
  | here _ _ _ hq h =>
    rw [finish_state h]
    rw [answered_append, hq.answered, finish_answered h] at hcond
    exact ⟨rfl, (hcond.resolve_right (by simp)).2⟩
  | failed _ hno h =>
    rw [finish_state h]
    rw [answered_append, hno, finish_answered h] at hcond
    exact (hcond.resolve_right (by simp)).unpin
  | done =>
    -- the watched keys go with the pin
    unfold execDone
    split <;> exact ⟨rfl, rfl⟩

theorem ExecRun.outside (h : ExecRun cfg s c tr r) (hinv : TxnInv cfg s) : r.1.Outside := by
  cases h with
  | noMulti hm h =>
    rw [finish_state h]
    exact hinv.outside hm
  | panic => exact ⟨rfl, rfl⟩
  | aborted _ _ h => rw [finish_state h]; exact ⟨rfl, rfl⟩
  | here _ _ _ _ h => rw [finish_state h]; exact ⟨rfl, rfl⟩
  | failed _ _ h => rw [finish_state h]; exact ⟨rfl, rfl⟩
  | done =>
    unfold execDone
    split <;> exact ⟨rfl, rfl⟩

theorem cmdUnwatch_clear (h : (cmdUnwatch s c).Runs tr r) : r.1.Clear := by
  unfold cmdUnwatch at h
  cases hpin : s.pin with
  | none =>
    rw [hpin] at h
    rw [finish_state h]
    exact ⟨rfl, rfl⟩
  | some pin =>
    rw [hpin] at h
    obtain ⟨_, _, _, -, h, -⟩ := Prog.runs_bind.1 h
    obtain ⟨_, s₁, _, h₁, h, -⟩ := Prog.runs_bind.1 h
    obtain ⟨-, rfl⟩ := (dropPin_idle (A := anyAnswer) s).runs h₁ fun _ _ => trivial
    rw [finish_state h]
    exact ⟨rfl, rfl⟩

/-- What the commands that end a transaction, or a watch, are to leave behind. -/
structure Forgets (s : Session) (c : ClientCmd) (s' : Session) : Prop where
  exec : c.name = "EXEC" → s'.Clear ∧ s'.Outside
  discard : c.name = "DISCARD" → s.multi = true → s'.Clear ∧ s'.Outside
  unwatch : c.name = "UNWATCH" → s'.Clear
  reset : c.name = "RESET" → s'.Clear ∧ s'.Outside

/-- When they do so: nothing was watched, or the command is an `EXEC` that a backend
answered, or an `UNWATCH` or `RESET` outside subscribe mode. -/
structure Forgetting (s : Session) (c : ClientCmd) (tr : Trace) : Prop where
  exec : c.name = "EXEC" → s.Clear ∨ answered (execFrame s c) tr = true
  discard : c.name = "DISCARD" → s.multi = true → s.Clear
  other : c.name ∈ ["UNWATCH", "RESET"] → s.Clear ∨ s.sub = none

theorem handleSub_forgets (hinv : TxnInv cfg s) (hsub : s.sub = some mode)
    (hclear : c.name ∈ ["EXEC", "UNWATCH", "RESET"] → s.Clear)
    (h : (handleSub cfg s mode c).Runs tr r) : Forgets s c r.1 := by
  have hm : s.multi = false := hinv.mode (by simp [hsub])
  have hout := hinv.outside hm
  have hkeep : (s.Clear → r.1.Clear) ∧ r.1.Outside := by
    rcases handleSub_watch h with hr | hr <;> rw [hr]
    · exact ⟨id, hout⟩
    · exact ⟨id, hout⟩
  exact ⟨fun hn => ⟨hkeep.1 (hclear (by simp [hn])), hkeep.2⟩,
    fun _ hm' => absurd (hm.symm.trans hm') (by simp),
    fun hn => hkeep.1 (hclear (by simp [hn])),
    fun hn => ⟨hkeep.1 (hclear (by simp [hn])), hkeep.2⟩⟩

/-- A subscribed session refuses the commands of transactions. -/
theorem handleSub_refuses (hn : c.name ∈ ["EXEC", "WATCH", "UNWATCH"]) :
    handleSub cfg s mode c = replyAll s c.id [errSubMode] := by
  have hne := c.argv_ne_of_mem hn (by decide)
  rw [ClientCmd.name_of_ne hne] at hn
  unfold handleSub handleClientCmd
  simp only [List.mem_cons, List.not_mem_nil, or_false] at hn
  rcases hn with hname | hname | hname <;> rw [hname] <;> rfl

theorem replyAll_answered {vs : List Value} (h : (replyAll s id vs).Runs tr r)
    (f : Frame) : answered f tr = false := by
  induction vs generalizing tr with
  | nil =>
    obtain ⟨rfl, -⟩ := h
    rfl
  | cons v vs ih =>
    obtain ⟨t₁, o, t₂, h₁, h₂, rfl⟩ := Prog.runs_bind.1 h
    have hrest : answered f t₂ = false := by
      cases o with
      | ok => exact ih h₂
      | err e | panic | running =>
        rw [h₂.1]
        rfl
    rw [answered_append, reply_answered h₁ f, hrest]
    rfl

/-- It asks no backend for them. -/
theorem handleSub_unheard (hn : c.name ∈ ["EXEC", "WATCH", "UNWATCH"])
    (h : (handleSub cfg s mode c).Runs tr r) (f : Frame) : answered f tr = false := by
  rw [handleSub_refuses hn] at h
  exact replyAll_answered h f

/-- Without an answer of `handleLocal`, the commands of transactions are carried out. -/
theorem RemoteRun.forgets (hinv : TxnInv cfg s) (hcond : Forgetting s c tr)
    (hl : (localStep cfg s c.argv).2 = none) (hok : r.2 ≠ .panic) (h : RemoteRun cfg s c tr r) :
    Forgets s c r.1 := by
  have hreset : c.name ≠ "RESET" := by
    intro hn
    have hne : c.argv ≠ [] := fun hc => by simp [ClientCmd.name, hc] at hn
    rcases localStep_passes hl with hc | ⟨hno, -⟩
    · exact hne hc
    · rw [← ClientCmd.name_of_ne hne, hn] at hno
      exact hno (by decide)
  -- one command at a time: the other clauses are about other names
  have only : ∀ w, c.name = w → w ∉ ["EXEC", "DISCARD", "UNWATCH"] → Forgets s c r.1 := by
    rintro w rfl hw
    simp only [List.mem_cons, List.not_mem_nil, or_false, not_or] at hw
    exact ⟨fun hn => absurd hn hw.1, fun hn => absurd hn hw.2.1, fun hn => absurd hn hw.2.2,
      fun hn => absurd hn hreset⟩
  cases h with
  | multi hn => exact only _ hn (by decide)
  | watch hn => exact only _ hn (by decide)
  | queue hn => exact only _ rfl (by simp_all)
  | empty => exact absurd rfl hok
  | dispatch hn => exact only _ rfl (by simp_all)
  | discard hn h =>
    refine ⟨fun hn' => absurd (hn.symm.trans hn') (by decide), fun _ hm => ?_,
      fun hn' => absurd (hn.symm.trans hn') (by decide), fun hn' => absurd hn' hreset⟩
    rw [finish_state h, discardStep, if_pos hm]
    exact ⟨hcond.discard hn hm, rfl, rfl⟩
  | exec hn h =>
    refine ⟨fun _ => ⟨?_, ?_⟩, fun hn' => absurd (hn.symm.trans hn') (by decide),
      fun hn' => absurd (hn.symm.trans hn') (by decide), fun hn' => absurd hn' hreset⟩
    · exact (cmdExec_runs h).clear hok (hcond.exec hn)
    · exact (cmdExec_runs h).outside hinv
  | unwatch hn h =>
    exact ⟨fun hn' => absurd (hn.symm.trans hn') (by decide),
      fun hn' => absurd (hn.symm.trans hn') (by decide), fun _ => cmdUnwatch_clear h,
      fun hn' => absurd hn' hreset⟩

/-- `RESET` in `handleLocal`. -/
theorem localStep_reset (hn : c.name = "RESET") :
    (localStep cfg s c.argv).1.Clear ∧ (localStep cfg s c.argv).1.Outside := by
  have hne : c.argv ≠ [] := fun hc => by simp [ClientCmd.name, hc] at hn
  rw [ClientCmd.name_of_ne hne] at hn
  have hl := localStep_local cfg s c.argv
  generalize localStep cfg s c.argv = x at hl
  cases hl with
  | reset => exact ⟨⟨rfl, rfl⟩, rfl, rfl⟩
  | pass hn' =>
    rcases hn' with hc | hn'
    · exact absurd hc hne
    · exact absurd (by rw [hn]; decide) hn'
  | answer _ hq => exact absurd (by simp [hn]) hq
  | noAuth hn' => exact absurd (by rw [hn]; decide) hn'
  | auth hn' => exact absurd hn' (by rw [hn]; decide)
  | quit hn' => exact absurd (hn.symm.trans hn') (by decide)

/-- The other commands of transactions are refused to a client that is not admitted, and
it has no transaction. -/
theorem localStep_refuses (hinv : TxnInv cfg s)
    (hl : (localStep cfg s c.argv).2 = some v) (hn : c.name ∈ ["EXEC", "DISCARD", "UNWATCH"]) :
    (localStep cfg s c.argv).1 = s ∧ s.multi = false ∧ s.Clear := by
  have hne := c.argv_ne_of_mem hn (by decide)
  rw [ClientCmd.name_of_ne hne] at hn
  have hnames : nameOf c.argv ∉ localNames ∧ nameOf c.argv ≠ "COMMAND" :=
    (by decide : ∀ w ∈ ["EXEC", "DISCARD", "UNWATCH"], w ∉ localNames ∧ w ≠ "COMMAND") _ hn
  have hguest : ¬ Admitted cfg s := by
    intro hadm
    rw [(localStep_none_iff hne hnames.1 hnames.2).2 hadm] at hl
    cases hl
  refine ⟨?_, hinv.guest hguest⟩
  have hloc := localStep_local cfg s c.argv
  generalize localStep cfg s c.argv = x at hloc
  cases hloc with
  | pass | answer | noAuth => rfl
  | auth hn' => exact absurd hn' (mt (fun h => by grind [localNames]) hnames.1)
  | quit hn' => exact absurd (by rw [hn']; decide) hnames.1
  | reset _ hn' => exact absurd (by rw [hn']; decide) hnames.1

theorem localStep_forgets (hinv : TxnInv cfg s)
    (hl : (localStep cfg s c.argv).2 = some v) : Forgets s c (localStep cfg s c.argv).1 := by
  have hguest := localStep_refuses hinv hl
  refine ⟨fun hn => ?_, fun hn hm => ?_, fun hn => ?_, localStep_reset⟩
  · obtain ⟨hs, hm, hclear⟩ := hguest (by simp [hn])
    rw [hs]
    exact ⟨hclear, hinv.outside hm⟩
  · exact absurd (hm.symm.trans (hguest (by simp [hn])).2.1) (by simp)
  · obtain ⟨hs, -, hclear⟩ := hguest (by simp [hn])
    rw [hs]
    exact hclear

theorem selectStep_forgets (hn : c.name = "SELECT") : Forgets s c s' :=
  ⟨fun hn' => absurd (hn.symm.trans hn') (by decide),
    fun hn' => absurd (hn.symm.trans hn') (by decide),
    fun hn' => absurd (hn.symm.trans hn') (by decide),
    fun hn' => absurd (hn.symm.trans hn') (by decide)⟩

/-- `RESET` is not slow, so it is carried out in the classification pass of a batch. -/
theorem batchState_snoc (s : Session) (b : List ClientCmd) (d : ClientCmd) :
    batchState cfg s (b ++ [d]) = classifyState cfg (batchState cfg s b) d := by
  induction b generalizing s with
  | nil => rfl
  | cons c cs ih => exact ih _

/-- **Watched keys are forgotten.** In a reachable state in which nothing is watched, for
an `EXEC` that a backend answers, and for an `UNWATCH` or `RESET` outside subscribe mode,
the commands that end a transaction leave no watched key, no pinned connection and no
queue; and so does a `RESET` in the classification pass of a batch. -/
theorem forgets_of_forgetting {S : List Subscription} {o : Outcome}
    (hreach : Reaches cfg anyCond s S) (hcond : Forgetting s c tr)
    (h : (handle cfg s c).Runs tr (s', o)) (hok : o ≠ .panic) :
    Forgets s c s' ∧ ∀ b d, s.sub = none → d.name = "RESET" →
      (batchState cfg s (b ++ [d])).Clear ∧ (batchState cfg s (b ++ [d])).Outside := by
  have hinv := hreach.txnInv
  refine ⟨?_, fun b d hsub hd => ?_⟩
  · generalize hr : (s', o) = r at h
    obtain rfl : s' = r.1 := congrArg Prod.fst hr
    obtain rfl : o = r.2 := congrArg Prod.snd hr
    cases handle_runs h with
    | empty => exact absurd rfl hok
    | sub hsub _ hrun =>
      refine handleSub_forgets hinv hsub (fun hn => ?_) hrun
      by_cases hexec : c.name = "EXEC"
      · exact (hcond.exec hexec).resolve_right (by simp [handleSub_unheard (by simp [hexec]) hrun])
      · exact (hcond.other (by simp_all)).resolve_right (by simp [hsub])
    | select _ hn => exact selectStep_forgets hn
    | here _ _ hl _ hrun =>
      rw [finish_state hrun]
      exact localStep_forgets hinv hl
    | remote _ _ hl hrun => exact (handleRemote_runs hrun).forgets hinv hcond hl hok
  · rw [batchState_snoc, classifyState, batchState_sub hsub b, pipelineSlow_of_name (by simp [hd])]
    simp only [Option.isSome_none, Bool.or_self, Bool.false_eq_true, if_false, hd]
    rw [if_neg (by decide)]
    exact localStep_reset hd

/-- The run of some commands of a new client with backends that answer `OK`. -/
def okRun (cs : List ClientCmd) : (Session × Outcome) × Trace :=
  scripted (fun _ => calm fun _ => plusOK) (handleSeq seeded (newSession seeded) cs)

theorem okRun_reaches (cs : List ClientCmd) (hok : (okRun cs).1.2 = .ok) :
    ∃ S, Reaches seeded anyCond (okRun cs).1.1 S :=
  Reaches.new.seq (handleSeq_runs.1 (scripted_runs _ _)) hok

/-- One more command. -/
def okStep (cs : List ClientCmd) (c : ClientCmd) : (Session × Outcome) × Trace :=
  scripted (fun _ => calm fun _ => plusOK) (handle seeded (okRun cs).1.1 c)

theorem okStep_runs (cs : List ClientCmd) (c : ClientCmd) :
    (handle seeded (okRun cs).1.1 c).Runs (okStep cs c).2 (okStep cs c).1 := scripted_runs _ _

/-- A transaction with a watched key. -/
def watchedGet : List ClientCmd :=
  [command 0 ["WATCH", "k"], command 1 ["MULTI"], command 2 ["GET", "k"]]

theorem forgets_of_forgetting_exec :
    ∃ s S tr s', Reaches seeded anyCond s S ∧ ¬ s.Clear ∧
      (handle seeded s (command 3 ["EXEC"])).Runs tr (s', .ok) ∧
      Forgets s (command 3 ["EXEC"]) s' := by
  obtain ⟨S, hreach⟩ := okRun_reaches watchedGet (by decide +kernel)
  have hrun := okStep_runs watchedGet (command 3 ["EXEC"])
  have hok : (okStep watchedGet (command 3 ["EXEC"])).1.2 = .ok := by decide +kernel
  rw [← Prod.eta (okStep watchedGet (command 3 ["EXEC"])).1, hok] at hrun
  have hcond : Forgetting (okRun watchedGet).1.1 (command 3 ["EXEC"])
      (okStep watchedGet (command 3 ["EXEC"])).2 :=
    ⟨fun _ => .inr (by decide +kernel), fun hn => absurd hn (by decide),
      fun hn => absurd hn (by decide)⟩
  exact ⟨_, S, _, _, hreach, by decide +kernel, hrun,
    (forgets_of_forgetting hreach hcond hrun (by decide)).1⟩

/-- `DISCARD` leaves the watched key and the pinned connection. -/
theorem discard_keeps_watch :
    ¬ ∀ s S c tr s' o, Reaches seeded anyCond s S → (handle seeded s c).Runs tr (s', o) →
      o ≠ .panic → Forgets s c s' := by
  intro h
  obtain ⟨S, hreach⟩ :=
    okRun_reaches [command 0 ["WATCH", "k"], command 1 ["MULTI"]] (by decide +kernel)
  have hforgets := h _ _ _ _ _ _ hreach
    (okStep_runs [command 0 ["WATCH", "k"], command 1 ["MULTI"]] (command 2 ["DISCARD"]))
    (by decide +kernel)
  exact absurd (hforgets.discard (by decide) (by decide +kernel)) (by decide +kernel)

end RespProxy.Proxy
