import RespProxy.Proxy.Replies

/-! # Authentication

With a client password configured, a command should count only behind a
successful `AUTH` or `HELLO … AUTH`, in the order in which the client sent the
commands. `handle` checks `s.authed` for each command; the exceptions are
`COMMAND` and the empty command, which `handleLocal` lets pass, and slow
batches, whose classification pass runs an `AUTH` ahead of its turn.

* `Granted`: the client is authenticated behind a list of commands;
* `Gate`: the invariant that ties `s.authed` to it, kept by one `handle`
  (`Gate.handle`), which answers commands ahead of authentication (`Gate.replied`).
-/

namespace RespProxy.Proxy

open Cluster Command Resp Interact

variable {cfg : Config} {s : Session} {c : ClientCmd}
variable {v : Value}

variable {A : Event → Prop}

/-! ## Who is authenticated -/

/-- The command carries the password: `AUTH [user] password` or
`HELLO … AUTH user password`. -/
def Authenticates (cfg : Config) (c : ClientCmd) : Prop :=
  c.name = "AUTH" ∧ (match c.argv with
    | [_, p] => p.bytes = cfg.clientAuthPassword
    | [_, _, p] => p.bytes = cfg.clientAuthPassword
    | _ => False) ∨
  c.name = "HELLO" ∧ (match helloAuthArgs (c.argv.drop 1) with
    | some (_ :: _ :: p :: _) => p.bytes = cfg.clientAuthPassword
    | _ => False)

/-- The command was refused because the session was in subscribe mode. -/
def Refused (T : Trace) (c : ClientCmd) : Prop :=
  ∃ x, (⟨.cwrite (some c.id) errSubMode, x⟩ : Event) ∈ T

/-- Behind the commands the client is authenticated: one of them carried the password,
and no `RESET` followed, unless it was refused. -/
def Granted (cfg : Config) (T : Trace) (cs : List ClientCmd) : Prop :=
  ∃ pre a post, cs = pre ++ a :: post ∧ Authenticates cfg a ∧
    ∀ d ∈ post, d.name = "RESET" → Refused T d

/-- A command with this number was sent by an authenticated client. -/
def Authorised (cfg : Config) (T : Trace) (all : List ClientCmd) (id : CmdId) : Prop :=
  ∃ pre d post, all = pre ++ d :: post ∧ d.id = id ∧ Granted cfg T pre

/-- The database is the first one, or an authenticated client selected it. -/
def Chosen (cfg : Config) (T : Trace) (all : List ClientCmd) (db : Nat) : Prop :=
  db = 0 ∨ ∃ pre d post, all = pre ++ d :: post ∧ Granted cfg T pre ∧ d.name = "SELECT" ∧
    selectDB cfg d.argv = .ok db

/-- The reply to a command ahead of authentication. -/
def Rejects (cfg : Config) (c : ClientCmd) (v : Value) : Prop :=
  c.name ∈ ["QUIT", "RESET"] ∨
    c.name ∈ ["AUTH", "HELLO"] ∧ (Authenticates cfg c ∨ v.isError = true) ∨ v = errNoAuth

/-- The session is as `newSession` made it, up to `quit` and a stale `pinGen`. -/
def Initial (cfg : Config) (s : Session) : Prop :=
  s = { newSession cfg with quit := s.quit, pinGen := s.pinGen }

section

variable {T : Trace} {cs : List ClientCmd}

theorem granted_of_authenticates (h : Authenticates cfg c) : Granted cfg T (cs ++ [c]) :=
  ⟨cs, c, [], rfl, h, fun _ hd => (List.not_mem_nil hd).elim⟩

theorem Granted.snoc (h : Granted cfg T cs) (hc : c.name = "RESET" → Refused T c) :
    Granted cfg T (cs ++ [c]) := by
  obtain ⟨pre, a, post, rfl, ha, hpost⟩ := h
  refine ⟨pre, a, post ++ [c], by simp, ha, ?_⟩
  intro d hd
  rcases List.mem_append.1 hd with hd | hd
  · exact hpost d hd
  · rw [List.mem_singleton.1 hd]
    exact hc

end

/-! ## Local commands -/

/-- The results of `handleLocal` where a password is required. -/
inductive GateStep (cfg : Config) (s : Session) (c : ClientCmd) : Session × Option Value → Prop where
  | pass (ha : s.authed = true ∨ c.name = "COMMAND") (hn : c.name ∉ localNames) :
      GateStep cfg s c (s, none)
  | answer {v : Value} (ha : s.authed = true) (hn : c.name ∉ ["AUTH", "QUIT", "RESET"]) :
      GateStep cfg s c (s, some v)
  | reject {v : Value} (hv : Rejects cfg c v) (hn : c.name ∉ ["QUIT", "RESET"]) :
      GateStep cfg s c (s, some v)
  | auth {v : Value} (h : Authenticates cfg c) (hn : c.name ∈ ["AUTH", "HELLO"]) :
      GateStep cfg s c ({ s with authed := true }, some v)
  | quit (hn : c.name = "QUIT") : GateStep cfg s c ({ s with quit := true }, some plusOK)
  | reset (hn : c.name = "RESET") :
      GateStep cfg s c ({ s.resetTxn with db := 0, authed := false }, some plusOK)

theorem doAuth_gate (hreq : requireAuth cfg = true) (hn : c.name = "AUTH") :
    GateStep cfg s c ((doAuth cfg s c.argv).1, some (doAuth cfg s c.argv).2) := by
  have hreject : ∀ msg, GateStep cfg s c (s, some (error msg)) :=
    fun msg => .reject (.inr (.inl ⟨by simp [hn], .inr rfl⟩)) (by simp [hn])
  have hpass : ∀ p : Slice, ((match c.argv with
        | [_, p] => some p
        | [_, _, p] => some p
        | _ => none) = some p) → p.bytes = cfg.clientAuthPassword → Authenticates cfg c := by
    intro p hp hbytes
    refine .inl ⟨hn, ?_⟩
    split at hp
    · cases hp
      exact hbytes
    · cases hp
      exact hbytes
    · cases hp
  unfold doAuth
  rw [hreq, if_neg (by simp)]
  dsimp only
  split
  · exact hreject _
  · rename_i hp
    split
    · exact .auth (hpass _ hp ‹_›) (by simp [hn])
    · exact hreject _

theorem helloAuth_gate {s' : Session} (hn : c.name = "HELLO")
    (h : helloAuth cfg s c.argv = some (s', v)) : GateStep cfg s c (s', some v) := by
  have hreject : GateStep cfg s c (s, some errAuth) :=
    .reject (.inr (.inl ⟨by simp [hn], .inr rfl⟩)) (by simp [hn])
  unfold helloAuth at h
  split at h
  · cases h
  · rename_i hargs
    split at h
    · rename_i hpass
      cases h
      refine .auth (.inr ⟨hn, ?_⟩) (by simp [hn])
      rw [hargs]
      exact hpass
    · cases h
      exact hreject
  · cases h
    exact hreject

theorem localStep_gate (hreq : requireAuth cfg = true) (s : Session) (hne : c.argv ≠ []) :
    GateStep cfg s c (localStep cfg s c.argv) := by
  have hname := ClientCmd.name_of_ne hne
  have hnoAuth : c.name ∉ ["QUIT", "RESET"] → GateStep cfg s c (s, some errNoAuth) :=
    fun hn => .reject (.inr (.inr rfl)) hn
  -- the commands that are answered to everybody who is authenticated
  have hcheck : ∀ {a : Session × Option Value}, c.name ∉ ["QUIT", "RESET"] →
      (s.authed = true → GateStep cfg s c a) →
      GateStep cfg s c (if !s.authed then (s, some errNoAuth) else a) := by
    intro a hn ha
    refine iteInduction (fun _ => hnoAuth hn) fun h => ha ?_
    simpa using h
  unfold localStep
  dsimp only
  rw [← hname]
  refine iteInduction (fun h => absurd h hne) fun _ => ?_
  refine iteInduction (fun hn => hcheck (by simp [hn]) fun ha => ?_) fun hping => ?_
  · split <;> exact .answer ha (by simp [hn])
  refine iteInduction (fun hn => hcheck (by simp [hn]) fun ha => ?_) fun hecho => ?_
  · exact iteInduction (fun _ => .answer ha (by simp [hn])) fun _ => .answer ha (by simp [hn])
  refine iteInduction (fun hn => doAuth_gate hreq hn) fun hauth => ?_
  refine iteInduction (fun hn => .quit hn) fun hquit => ?_
  refine iteInduction (fun hn => hcheck (by simp [hn]) fun ha => .answer ha (by simp [hn]))
    fun hcluster => ?_
  refine iteInduction (fun hn => .pass (.inr hn) (by simp [hn, localNames])) fun _ => ?_
  refine iteInduction (fun hn => hcheck (by simp [hn]) fun ha => .answer ha (by simp [hn]))
    fun hinfo => ?_
  refine iteInduction (fun hn => ?_) fun hhello => ?_
  · refine iteInduction (fun _ => ?_) fun h => .answer (by simpa [hreq] using h) (by simp [hn])
    cases hh : helloAuth cfg s c.argv with
    | none => exact hnoAuth (by simp [hn])
    | some r => exact helloAuth_gate hn hh
  refine iteInduction (fun hn => ?_) fun hreset => ?_
  · rw [hreq]
    exact .reset hn
  refine iteInduction (fun _ => hnoAuth (by simp [hquit, hreset])) fun h => .pass (.inl ?_) ?_
  · simpa [hreq] using h
  · simp [localNames, hping, hecho, hauth, hquit, hcluster, hinfo, hhello, hreset]

theorem initial_sub {s : Session} (h : Initial cfg s) : s.sub = none := by rw [h]; rfl

/-- Ahead of authentication nothing happens to the session. -/
theorem GateStep.initial {r : Session × Option Value} (hreq : requireAuth cfg = true)
    (h : GateStep cfg s c r) (hsub : s.sub = none) (hs : s.authed = false → Initial cfg s)
    (hr : r.1.authed = false) : Initial cfg r.1 := by
  cases h with
  | pass | answer | reject => exact hs hr
  | auth => cases hr
  | quit =>
    have hinit := hs hr
    unfold Initial at hinit ⊢
    rw [hinit]
  | reset =>
    unfold Initial
    simp [Session.resetTxn, newSession, hreq, hsub]

/-! ## `handle` of commands that need no backend -/

theorem handle_local (hsub : s.sub = none) (hsel : c.name ≠ "SELECT")
    (hl : (localStep cfg s c.argv).2 = some v) :
    Sends A (fun _ => False) (fun id w => id = some c.id ∧ w = v)
      (fun r => r.1 = (localStep cfg s c.argv).1) (handle cfg s c) := by
  unfold handle
  rw [hsub]
  dsimp only
  rw [if_neg hsel]
  refine (Idle.sends (handleLocal_idle s c.argv)).bind ?_
  rintro r rfl
  rw [localStep_eq_some hl]
  exact finish_sends ⟨rfl, rfl⟩

theorem handle_select (hsub : s.sub = none) (hsel : c.name = "SELECT") :
    Sends A (fun _ => False) (fun id w => id = some c.id ∧ w = (selectStep cfg s c).2)
      (fun r => r.1 = (selectStep cfg s c).1) (handle cfg s c) := by
  unfold handle
  rw [hsub]
  dsimp only
  rw [if_pos hsel]
  exact finish_sends ⟨rfl, rfl⟩

/-- A subscribed session refuses `RESET`. -/
theorem handle_reset_refused {mode : Mode} (hsub : s.sub = some mode) (hn : c.name = "RESET")
    {tr : Trace} {r : Session × Outcome} (h : (handle cfg s c).Runs tr r) (hok : r.2 = .ok) :
    Refused tr c := by
  have hne := c.argv_ne_nil (by simp [hn])
  have hname : nameOf c.argv = "RESET" := by rw [← ClientCmd.name_of_ne hne, hn]
  have hclient : handleClientCmd cfg mode (c.src s) c.argv = pure [errSubMode] := by
    unfold handleClientCmd
    rw [hname]
    rfl
  have hhandle : handle cfg s c = replyAll s c.id [errSubMode] := by
    unfold handle
    rw [hsub]
    dsimp only
    rw [if_neg hne, handleSub, hname, if_neg (by decide), if_neg (by decide), hclient]
    rfl
  rw [hhandle] at h
  obtain ⟨t₁, o, t₂, h₁, h₂, rfl⟩ := Prog.runs_bind.1 h
  cases o with
  | ok =>
    have hreply := reply_sat _ _ t₁ .ok h₁ rfl
    refine ⟨none, List.mem_append_left _ (mem_replies.1 ?_)⟩
    rw [hreply]
    exact List.mem_cons_self
  | err e | panic | running =>
    obtain ⟨rfl, rfl⟩ := h₂
    cases hok

/-! ## The database behind `EXEC` -/

theorem execPlan_db {db : Nat} {queue : List QueuedCmd} {p : ExecPlan}
    (hp : execPlan cfg db queue = some p) :
    p.db = db ∨ ∃ q ∈ queue, nameOf q.argv = "SELECT" ∧ q.argv ≠ [] ∧
      selectDB cfg q.argv = .ok p.db := by
  induction queue generalizing db p with
  | nil =>
    cases hp
    exact .inl rfl
  | cons q qs ih =>
    have hrest : ∀ {db p}, execPlan cfg db qs = some p → p.db = db ∨
        ∃ q' ∈ q :: qs, nameOf q'.argv = "SELECT" ∧ q'.argv ≠ [] ∧
          selectDB cfg q'.argv = .ok p.db := by
      intro db p hp
      refine (ih hp).imp_right ?_
      rintro ⟨q', hq, h⟩
      exact ⟨q', List.mem_cons_of_mem q hq, h⟩
    rw [execPlan] at hp
    split at hp
    · rename_i hsel
      split at hp
      · obtain ⟨p', hp', rfl⟩ := Option.map_eq_some_iff.1 hp
        have h := hrest hp'
        exact h
      · rename_i hn
        obtain ⟨p', hp', rfl⟩ := Option.map_eq_some_iff.1 hp
        rcases hrest hp' with h | h
        · exact .inr ⟨q, List.mem_cons_self, hsel.2, hsel.1, by rw [hn]; exact congrArg _ h.symm⟩
        · exact .inr h
    · obtain ⟨argv, -, hp⟩ := Option.bind_eq_some_iff.1 hp
      obtain ⟨keys, -, hp⟩ := Option.bind_eq_some_iff.1 hp
      obtain ⟨p', hp', hp⟩ := Option.bind_eq_some_iff.1 hp
      cases hp
      have h := hrest hp'
      exact h

/-- The database `EXEC` leaves: the one before, or the one of the plan. -/
def ExecDB (cfg : Config) (s : Session) (n : Nat) : Prop :=
  n = s.db ∨ ∃ p, execPlan cfg s.db s.queued = some p ∧ n = p.db

theorem finish_db {s s' : Session} (h : ExecDB cfg s s'.db) (id : CmdId) (v : Value) :
    (finish s' id v).Ensures A (fun _ => True) fun r => ExecDB cfg s r.1.db :=
  (Prog.ensures_true _).bind fun _ _ => h

theorem dropPin_db (s : Session) : (dropPin s).Ensures A (fun _ => True) fun s' => s' = s.unpin :=
  (dropPin_idle s).mono (fun _ _ _ => trivial) fun _ h => h

theorem cmdExec_db (s : Session) (c : ClientCmd) :
    (cmdExec cfg s c).Ensures A (fun _ => True) fun r => ExecDB cfg s r.1.db := by
  have hsame : ExecDB cfg s s.db := .inl rfl
  unfold cmdExec
  split
  · exact finish_db hsame _ _
  · refine (Prog.ensures_true _).bind fun stale _ => ?_
    split
    · refine (dropPin_db _).bind ?_
      rintro _ rfl
      exact finish_db (by exact hsame) _ _
    · unfold execQueued
      split
      · exact hsame
      · rename_i p hp
        have hplan : ExecDB cfg s p.db := .inr ⟨p, hp, rfl⟩
        dsimp only
        split
        · refine (dropPin_db _).bind ?_
          rintro _ rfl
          exact finish_db (by exact hsame) _ _
        split
        · exact finish_db (by exact hplan) _ _
        · refine (Prog.ensures_true _).bind fun conn _ => ?_
          cases conn with
          | error e => exact finish_db (by exact hsame) _ _
          | ok conn =>
            refine (Prog.ensures_true _).bind fun v _ => ?_
            cases v with
            | error e =>
              exact (Prog.ensures_true _).bind fun _ _ =>
                finish_db (by exact hsame) _ _
            | ok v =>
              have hdone : ExecDB cfg s (execDone
                  ({ s with multi := false, queued := [] } : Session).unpin p v).1.db := by
                unfold execDone
                split
                · exact hsame
                · exact hplan
              refine (Prog.ensures_true _).bind fun _ _ => ?_
              exact fun _ _ => ⟨trivial, hdone⟩

theorem selectDB_cloneArgv (argv : Argv) : selectDB cfg (cloneArgv argv) = selectDB cfg argv := by
  unfold selectDB cloneArgv
  match argv with
  | [] | [_] | _ :: _ :: _ :: _ => rfl
  | [_, db] => simp [parseDBIndex, Slice.atoi]

/-! ## The invariant -/

/-- In front of the first command that carries the password, or the first `RESET`, there
are only `AUTH` and `QUIT`. -/
def Opens (cfg : Config) (rest : List ClientCmd) : Prop :=
  ∃ pre a post, rest = pre ++ a :: post ∧ (Authenticates cfg a ∨ a.name = "RESET") ∧
    ∀ d ∈ pre, d.name ∈ ["AUTH", "QUIT"]

/-- The session behind the commands `cs`, with `rest` left of its batch. The session is
authenticated if its client is, or about to be so; a session that is not is a new one;
the queue and the database go back to commands of an authenticated client. -/
structure Gate (cfg : Config) (T : Trace) (all cs rest : List ClientCmd) (s : Session) : Prop where
  granted : s.authed = true → Granted cfg T cs ∨ s.sub = none ∧ Opens cfg rest
  shut : s.authed = false → Initial cfg s
  queued : ∀ q ∈ s.queued, ∃ pre d post, all = pre ++ d :: post ∧ Granted cfg T pre ∧
    q = { id := d.id, argv := cloneArgv d.argv }
  db : Chosen cfg T all s.db

/-- What is sent belongs to authorised commands, and the replies to others are rejections. -/
def GateEvent (cfg : Config) (T : Trace) (all : List ClientCmd) : Event → Prop :=
  Foot (fun f => ∀ id argv db queued, f.src = .client id argv db queued → Authorised cfg T all id)
    fun id v => ∀ i, id = some i →
      ∃ pre d post, all = pre ++ d :: post ∧ d.id = i ∧ (Granted cfg T pre ∨ Rejects cfg d v)

/-- An authenticated session, or a command that `handleLocal` does not let pass. -/
def Known : StepCond := fun s c _ => s.authed = true ∨ c.name ≠ "COMMAND" ∧ c.argv ≠ []

section

variable {T : Trace} {all cs rest later : List ClientCmd} {tr : Trace} {r : Session × Outcome}

/-- What one `handle` owes: the events, the database and, if the session goes on, the
invariant. -/
def GateResult (cfg : Config) (T : Trace) (all cs rest : List ClientCmd) (tr : Trace)
    (r : Session × Outcome) : Prop :=
  (∀ e ∈ tr, GateEvent cfg T all e) ∧ Chosen cfg T all r.1.db ∧
    (r.2 = .ok → Gate cfg T all cs rest r.1)

theorem Opens.step (h : Opens cfg (c :: rest)) (hauth : ¬ Authenticates cfg c)
    (hreset : c.name ≠ "RESET") : c.name ∈ ["AUTH", "QUIT"] ∧ Opens cfg rest := by
  obtain ⟨pre, a, post, heq, ha, hpre⟩ := h
  cases pre with
  | nil =>
    cases heq
    exact absurd ha (not_or.2 ⟨hauth, hreset⟩)
  | cons d pre =>
    cases heq
    exact ⟨hpre _ List.mem_cons_self, pre, a, post, rfl, ha,
      fun e he => hpre e (List.mem_cons_of_mem _ he)⟩

/-- A command that is answered with `v` and leaves the session as `handleLocal` does. -/
theorem Gate.answered (hreq : requireAuth cfg = true) (h : Gate cfg T all cs (c :: rest) s)
    (hall : all = cs ++ c :: later) (hsub : s.sub = none) (hsel : c.name ≠ "SELECT")
    (hne : c.argv ≠ []) (hl : (localStep cfg s c.argv).2 = some v)
    (hstate : s.authed = true → ¬ Granted cfg T cs → ¬ Authenticates cfg c → c.name ≠ "RESET" →
      c.name ∈ ["AUTH", "QUIT"] ∧ Opens cfg rest)
    (hrun : (handle cfg s c).Runs tr r) : GateResult cfg T all (cs ++ [c]) rest tr r := by
  obtain ⟨hev, hr⟩ := (handle_local (A := anyAnswer) hsub hsel hl).runs hrun fun _ _ => trivial
  have hg := localStep_gate hreq s hne
  generalize hloc : localStep cfg s c.argv = x at hl hr hg
  -- ahead of the password only what needs none is answered, all else is rejected
  have hreply : Granted cfg T cs ∨ Rejects cfg c v := by
    by_cases hgr : Granted cfg T cs
    · exact .inl hgr
    refine .inr ?_
    cases hg with
    | pass => cases hl
    | answer ha hn =>
      cases hl
      by_cases hauth : Authenticates cfg c
      · rcases hauth with ⟨hn', -⟩ | ⟨hn', hpass⟩
        · exact absurd (by simp [hn']) hn
        · exact .inr (.inl ⟨by simp [hn'], .inl (.inr ⟨hn', hpass⟩)⟩)
      · by_cases hreset : c.name = "RESET"
        · exact absurd (by simp [hreset]) hn
        · obtain ⟨hname, -⟩ := hstate ha hgr hauth hreset
          simp only [List.mem_cons, List.not_mem_nil, or_false, not_or] at hn hname
          rcases hname with hname | hname
          · exact absurd hname hn.1
          · exact absurd hname hn.2.1
    | reject hv =>
      cases hl
      exact hv
    | auth hauth hn => exact .inr (.inl ⟨hn, .inl hauth⟩)
    | quit hn => exact .inl (by simp [hn])
    | reset hn => exact .inl (by simp [hn])
  have hdb : Chosen cfg T all x.1.db := by
    cases hg with
    | reset => exact .inl rfl
    | _ => exact h.db
  refine ⟨?_, ?_, fun _ => ⟨?_, ?_, ?_, ?_⟩⟩
  · intro e he
    refine (hev e he).mono (fun f hf => hf.elim) ?_
    rintro id w ⟨rfl, rfl⟩ i hi
    cases hi
    exact ⟨cs, c, later, hall, rfl, hreply⟩
  · rw [hr]
    exact hdb
  · rw [hr]
    intro ha
    by_cases hauth : Authenticates cfg c
    · exact .inl (granted_of_authenticates hauth)
    -- a command that does not authenticate leaves the flag as it was
    have hsame : s.authed = true ∧ c.name ≠ "RESET" ∧ x.1.sub = none := by
      cases hg with
      | pass => cases hl
      | answer _ hn => exact ⟨ha, fun h => hn (by simp [h]), hsub⟩
      | reject _ hn => exact ⟨ha, fun h => hn (by simp [h]), hsub⟩
      | auth h => exact absurd h hauth
      | quit hn => exact ⟨ha, by simp [hn], hsub⟩
      | reset => cases ha
    by_cases hgr : Granted cfg T cs
    · exact .inl (hgr.snoc fun h => absurd h hsame.2.1)
    · exact .inr ⟨hsame.2.2, (hstate hsame.1 hgr hauth hsame.2.1).2⟩
  · rw [hr]
    exact fun ha => hg.initial hreq hsub h.shut ha
  · rw [hr]
    cases hg with
    | reset => exact fun q hq => (List.not_mem_nil hq).elim
    | _ => exact h.queued
  · rw [hr]
    exact hdb

/-- Ahead of authentication `SELECT` is refused. -/
theorem Gate.select_shut (h : Gate cfg T all cs (c :: rest) s) (hall : all = cs ++ c :: later)
    (hs : s.authed = false) (hsel : c.name = "SELECT") (hrun : (handle cfg s c).Runs tr r) :
    GateResult cfg T all (cs ++ [c]) rest tr r := by
  have hsub := initial_sub (h.shut hs)
  have hstep : selectStep cfg s c = (s, errNoAuth) := by simp [selectStep, hs]
  obtain ⟨hev, hr⟩ := (handle_select (A := anyAnswer) hsub hsel).runs hrun fun _ _ => trivial
  rw [hstep] at hr hev
  refine ⟨?_, hr ▸ h.db, fun _ => ⟨?_, ?_, ?_, ?_⟩⟩
  · intro e he
    refine (hev e he).mono (fun f hf => hf.elim) ?_
    rintro id w ⟨rfl, rfl⟩ i hi
    cases hi
    exact ⟨cs, c, later, hall, rfl, .inr (.inr (.inr rfl))⟩
  · intro ha
    rw [hr, hs] at ha
    cases ha
  · exact hr ▸ h.shut
  · exact hr ▸ h.queued
  · exact hr ▸ h.db

/-- The frames of an authorised command. -/
theorem Gate.sent (h : Gate cfg T all cs (c :: rest) s) (hall : all = cs ++ c :: later)
    (hgr : Granted cfg T cs) {f : Frame} (hf : Sent anyAnswer cfg s c f) :
    ∀ id argv db queued, f.src = .client id argv db queued → Authorised cfg T all id := by
  intro id argv db queued hsrc
  have hown : c.src s = .client id argv db queued → Authorised cfg T all id := by
    intro heq
    cases heq
    exact ⟨cs, c, later, hall, rfl, hgr⟩
  cases hf with
  | direct | raw | subscribed | control => exact hown hsrc
  | queued _ _ _ hp hf =>
    obtain ⟨q, hq, argv', db', -, rfl⟩ := mem_execPlan_backend cfg hp hf
    cases hsrc
    obtain ⟨pre, d, post, hpos, hpre, rfl⟩ := h.queued q hq
    exact ⟨pre, d, post, hpos, rfl, hpre⟩

/-- `RESET` goes back to database 0, and `SELECT` to the one it names. -/
theorem nextState_db (s : Session) (c : ClientCmd) :
    (nextState cfg s c).db = s.db ∨ (nextState cfg s c).db = 0 ∨
      c.name = "SELECT" ∧ selectDB cfg c.argv = .ok (nextState cfg s c).db := by
  unfold nextState
  split
  · exact .inl rfl
  split
  · rename_i hsel
    unfold selectStep
    split
    · exact .inl rfl
    split
    · exact .inl rfl
    · rename_i db hdb
      split
      · exact .inl rfl
      · exact .inr (.inr ⟨hsel, hdb⟩)
  split
  · exact (localStep_db s c.argv).imp_right .inl
  split
  · unfold multiStep
    split <;> exact .inl rfl
  split
  · unfold discardStep
    split <;> exact .inl rfl
  split
  · exact .inl rfl
  split <;> exact .inl rfl

/-- The database behind an authorised command. -/
theorem Gate.chosen (h : Gate cfg T all cs (c :: rest) s) (hall : all = cs ++ c :: later)
    (hgr : Granted cfg T cs) (hafter : After cfg s c r.1)
    (hexec : c.name = "EXEC" → ExecDB cfg s r.1.db) : Chosen cfg T all r.1.db := by
  by_cases hn : c.name = "EXEC"
  · rcases hexec hn with hdb | ⟨p, hp, hdb⟩
    · rw [hdb]
      exact h.db
    · rcases execPlan_db hp with hp | ⟨q, hq, hname, hne, hsel⟩
      · rw [hdb, hp]
        exact h.db
      · obtain ⟨pre, d, post, hpos, hpre, rfl⟩ := h.queued q hq
        rw [nameOf_cloneArgv] at hname
        have hd : d.argv ≠ [] := by
          rintro hd
          exact hne (by rw [hd]; rfl)
        refine .inr ⟨pre, d, post, hpos, hpre, by rw [ClientCmd.name_of_ne hd, hname], ?_⟩
        rw [hdb, ← hsel, selectDB_cloneArgv]
  · rw [hafter.db hn]
    rcases nextState_db s c with hdb | hdb | ⟨hsel, hdb⟩
    · exact hdb ▸ h.db
    · exact .inl hdb
    · exact .inr ⟨cs, c, later, hall, hgr, hsel, hdb⟩

theorem handle_exec_db (hn : c.name = "EXEC")
    (hl : s.sub = none → (localStep cfg s c.argv).2 = none) :
    (handle cfg s c).Ensures A (fun _ => True) fun r => ExecDB cfg s r.1.db := by
  have hne := c.argv_ne_nil (by simp [hn])
  unfold handle
  cases hsub : s.sub with
  | some mode =>
    dsimp only
    rw [if_neg hne, handleSub, ← ClientCmd.name_of_ne hne, hn, if_neg (by decide),
      if_neg (by decide)]
    refine (Prog.ensures_true _).bind fun vs _ => ?_
    have hreply : Sends A (fun _ => True) (fun _ _ => True) (fun r => r.1 = s)
        (replyAll s c.id vs) := replyAll_sends fun _ _ => trivial
    refine hreply.mono (fun _ _ _ => trivial) ?_
    intro r hr
    rw [hr]
    exact .inl rfl
  | none =>
    dsimp only
    rw [if_neg (by simp [hn])]
    have hlocal : (handleLocal cfg s c.argv).Ensures A (fun _ => True)
        fun r => r = localStep cfg s c.argv :=
      (handleLocal_idle s c.argv).mono (fun _ _ _ => trivial) fun _ hr => hr
    refine hlocal.bind ?_
    rintro r rfl
    rw [localStep_eq_none (hl hsub)]
    show (handleRemote cfg s c).Ensures A _ _
    unfold handleRemote
    rw [if_neg (by simp [hn]), if_neg (by simp [hn]), if_pos hn]
    exact cmdExec_db s c

/-- `handle` of a command of an authenticated client, which stays so. -/
theorem Gate.authorised (h : Gate cfg T all cs (c :: rest) s) (hall : all = cs ++ c :: later)
    (hgr : Granted cfg T cs) (hs : (nextState cfg s c).authed = true)
    (hl : s.sub = none → (localStep cfg s c.argv).2 = none ∧ c.name ≠ "RESET" ∨ c.name = "SELECT")
    (hrun : (handle cfg s c).Runs tr r) (hT : ∀ e ∈ tr, e ∈ T) :
    GateResult cfg T all (cs ++ [c]) rest tr r := by
  obtain ⟨hev, hafter⟩ := (handle_sends anyAnswer cfg s c).runs hrun fun _ _ => trivial
  have hdb : Chosen cfg T all r.1.db := by
    refine h.chosen hall hgr hafter fun hn => ?_
    have hexec := handle_exec_db (A := anyAnswer) hn fun hsub => (hl hsub).elim And.left
      fun hsel => absurd (hn ▸ hsel) (by decide)
    exact (hexec.runs hrun fun _ _ => trivial).2
  refine ⟨?_, hdb, fun hok => ⟨fun _ => .inl (hgr.snoc fun hreset => ?_), ?_, ?_, hdb⟩⟩
  · intro e he
    refine (hev e he).mono (fun f hf => h.sent hall hgr hf) ?_
    rintro id v ⟨rfl, -⟩ i hi
    cases hi
    exact ⟨cs, c, later, hall, rfl, .inl hgr⟩
  · cases hsub : s.sub with
    | none =>
      rcases hl hsub with ⟨-, hn⟩ | hn
      · exact absurd hreset hn
      · exact absurd (hreset ▸ hn) (by decide)
    | some mode =>
      obtain ⟨x, hx⟩ := handle_reset_refused hsub hreset hrun hok
      exact ⟨x, hT _ hx⟩
  · intro ha
    rw [hafter.authed, hs] at ha
    cases ha
  · intro q hq
    rw [hafter.queued] at hq
    rcases nextState_queued hq with hq | ⟨-, -, rfl⟩
    · exact h.queued q hq
    · exact ⟨cs, c, later, hall, hgr, rfl⟩

theorem Opens.name (h : Opens cfg (c :: rest)) : c.name ∈ ["AUTH", "HELLO", "QUIT", "RESET"] := by
  by_cases hauth : Authenticates cfg c
  · rcases hauth with ⟨hn, -⟩ | ⟨hn, -⟩ <;> simp [hn]
  by_cases hreset : c.name = "RESET"
  · simp [hreset]
  · have hn := (h.step hauth hreset).1
    simp only [List.mem_cons, List.not_mem_nil, or_false] at hn
    rcases hn with hn | hn <;> simp [hn]

/-- The client is authenticated where the session is, unless the command opens it. -/
theorem Gate.granted_of_name (h : Gate cfg T all cs (c :: rest) s) (hs : s.authed = true)
    (hn : c.name ∉ ["AUTH", "HELLO", "QUIT", "RESET"]) : Granted cfg T cs :=
  (h.granted hs).elim id fun ho => absurd ho.2.name hn

theorem openNames_local {w : String} (h : w ∈ ["AUTH", "HELLO", "QUIT", "RESET"]) :
    w ∈ localNames :=
  (by decide : ∀ w ∈ ["AUTH", "HELLO", "QUIT", "RESET"], w ∈ localNames) w h

/-- `handleLocal` lets known commands pass only for an authenticated session. -/
theorem localStep_passed (hreq : requireAuth cfg = true) (hknown : Known s c tr)
    (hl : (localStep cfg s c.argv).2 = none) : s.authed = true ∧ c.name ∉ localNames := by
  by_cases hne : c.argv = []
  · refine ⟨hknown.elim id fun hk => absurd hne hk.2, ?_⟩
    rw [ClientCmd.name, if_pos hne]
    decide
  · have hg := localStep_gate hreq s hne
    generalize localStep cfg s c.argv = x at hl hg
    cases hg with
    | pass ha hn => exact ⟨hknown.elim id fun hk => ha.resolve_right hk.1, hn⟩
    | _ => cases hl

/-- A subscribed session is one of an authenticated client. -/
theorem Gate.granted_of_sub (h : Gate cfg T all cs rest s) (hsub : s.sub ≠ none) :
    s.authed = true ∧ Granted cfg T cs := by
  have hs : s.authed = true := by
    by_contra hs
    exact hsub (initial_sub (h.shut (Bool.eq_false_iff.2 hs)))
  exact ⟨hs, (h.granted hs).elim id fun ho => absurd ho.1 hsub⟩

/-- **One `handle` keeps the gate.** -/
theorem Gate.handle (hreq : requireAuth cfg = true) (h : Gate cfg T all cs (c :: rest) s)
    (hall : all = cs ++ c :: later) (hknown : Known s c tr) (hrun : (handle cfg s c).Runs tr r)
    (hT : ∀ e ∈ tr, e ∈ T) : GateResult cfg T all (cs ++ [c]) rest tr r := by
  cases hsub : s.sub with
  | some mode =>
    obtain ⟨hs, hgr⟩ := h.granted_of_sub (by simp [hsub])
    refine h.authorised hall hgr ?_ (by simp [hsub]) hrun hT
    rw [nextState, if_pos (by simp [hsub])]
    exact hs
  | none =>
    by_cases hsel : c.name = "SELECT"
    · cases hs : s.authed with
      | false => exact h.select_shut hall hs hsel hrun
      | true =>
        refine h.authorised hall (h.granted_of_name hs (by simp [hsel])) ?_
          (fun _ => .inr hsel) hrun hT
        rw [nextState, if_neg (by simp [hsub]), if_pos hsel]
        unfold selectStep Session.enqueue
        grind
    · cases hl : (localStep cfg s c.argv).2 with
      | some v =>
        have hne : c.argv ≠ [] := by
          intro hc
          rw [hc] at hl
          cases hl
        refine h.answered hreq hall hsub hsel hne hl ?_ hrun
        intro hs hgr hauth hreset
        rcases h.granted hs with hgr' | ⟨-, ho⟩
        · exact absurd hgr' hgr
        · exact ho.step hauth hreset
      | none =>
        obtain ⟨hs, hn⟩ := localStep_passed hreq hknown hl
        have hgr := h.granted_of_name hs fun hmem => hn (openNames_local hmem)
        refine h.authorised hall hgr ?_ (fun _ => .inl ⟨hl, fun hr => hn (by simp [hr, localNames])⟩)
          hrun hT
        rw [nextState_remote hsub hsel hl]
        unfold multiStep discardStep Session.enqueue
        grind

/-- Commands ahead of authentication are answered, unless the session ends. -/
theorem Gate.replied (hreq : requireAuth cfg = true) (h : Gate cfg T all cs (c :: rest) s)
    (hknown : Known s c tr) (hrun : (Proxy.handle cfg s c).Runs tr r) (hok : r.2 = .ok)
    (hgr : ¬ Granted cfg T cs) : ∃ v x, (⟨.cwrite (some c.id) v, x⟩ : Event) ∈ tr := by
  have hsub : s.sub = none := by
    by_contra hsub
    exact hgr (h.granted_of_sub hsub).2
  have hone : Concludes True True False c.id none (Proxy.handle cfg s c) := by
    unfold Proxy.handle
    rw [hsub]
    dsimp only
    split
    · exact finish_own (selectStep_own s c)
    · refine .still (Idle.still (handleLocal_idle s c.argv)) ?_
      rintro x rfl
      cases hl : (localStep cfg s c.argv).2 with
      | some v =>
        rw [localStep_eq_some hl]
        exact finish_own (localStep_value s c.argv v hl).own
      | none =>
        obtain ⟨hs, hn⟩ := localStep_passed hreq hknown hl
        exact absurd (h.granted_of_name hs fun hmem => hn (openNames_local hmem)) hgr
  obtain ⟨⟨id, v, x⟩, hx, hid⟩ := List.map_eq_singleton_iff.1 (hone.oneReply tr r hrun hok)
  cases hid
  exact ⟨v, x, mem_replies.1 (by simp [hx])⟩

end

end RespProxy.Proxy
