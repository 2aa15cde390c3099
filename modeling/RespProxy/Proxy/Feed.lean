import RespProxy.Proxy.Names

/-! # Slow batches, command by command

When the classification pass finds a slow command, `handleBatch` handles the commands
of the batch one after the other. The run loop would do the same if they came one at a
time, but for two things: the pass has carried out the commands it answers itself before
the first command is handled, and the run loop looks for `QUIT` ahead of every command.

`Feeds` says which commands are handled, one at a time, with the look at `quit` or
without; `Settled` is the batches for which the two agree: what `SELECT`, `AUTH`, `HELLO`
and `RESET` change is changed back within the batch, and nothing is behind a `QUIT`.
-/

namespace RespProxy.Proxy

open Cluster Command Resp

variable {cfg : Config} {s s' : Session} {c : ClientCmd} {b cs ds : List ClientCmd}
variable {s₀ : Session} {tr' : Trace}

variable {tr tr₀ : Trace} {r : Session × Outcome}

/-! ## One at a time -/

/-- Of the commands `cs`, those in `ds` are handled, one after the other, until one fails
or, if the loop `looks`, until the session has quit. -/
inductive Feeds (cfg : Config) (looks : Bool) :
    Session → List ClientCmd → List ClientCmd → Trace → Session × Outcome → Prop where
  | nil {s : Session} : Feeds cfg looks s [] [] [] (s, .ok)
  | quit {s : Session} {c : ClientCmd} {cs : List ClientCmd} (hl : looks = true)
      (hq : s.quit = true) : Feeds cfg looks s (c :: cs) [] [] (s, .ok)
  | stop {s s' : Session} {c : ClientCmd} {cs : List ClientCmd} {tr : Trace} {o : Outcome}
      (hq : looks = true → s.quit = false) (h : (handle cfg s c).Runs tr (s', o)) (ho : o ≠ .ok) :
      Feeds cfg looks s (c :: cs) [c] tr (s', o)
  | step {s s' : Session} {c : ClientCmd} {cs ds : List ClientCmd} {tr tr' : Trace}
      {r : Session × Outcome} (hq : looks = true → s.quit = false)
      (h : (handle cfg s c).Runs tr (s', .ok)) (hs : Feeds cfg looks s' cs ds tr' r) :
      Feeds cfg looks s (c :: cs) (c :: ds) (tr ++ tr') r

/-- Without looking, this is `handleSeq`. -/
theorem handleSeq_feeds : (handleSeq cfg s cs).Runs tr r ↔ ∃ ds, Feeds cfg false s cs ds tr r := by
  rw [handleSeq_runs]
  constructor
  · intro h
    induction h with
    | nil => exact ⟨[], .nil⟩
    | stop _ h ho => exact ⟨_, .stop nofun h ho⟩
    | step _ h _ ih =>
      obtain ⟨ds, hds⟩ := ih
      exact ⟨_, .step nofun h hds⟩
  · rintro ⟨ds, h⟩
    induction h with
    | nil => exact .nil
    | quit hl => cases hl
    | stop _ h ho => exact .stop trivial h ho
    | step _ h _ ih => exact .step trivial h ih

/-- The run loop looks at its context. -/
def Event.isCheck : Event → Bool
  | ⟨.ctxErr, _⟩ => true
  | _ => false

/-- With looking, it is the run loop on batches of one command, but for the looks at the
context. -/
theorem runLoop_of_feeds (h : Feeds cfg true s cs ds tr r) :
    ∃ tr', (runLoop cfg s (cs.map ([·]))).Runs tr' r ∧
      tr'.filter (fun e => !Event.isCheck e) = tr.filter (fun e => !Event.isCheck e) := by
  suffices hloop : ∃ tr', LoopRun (Handles cfg) s (cs.map ([·])) tr' r ∧
      tr'.filter (fun e => !Event.isCheck e) = tr.filter (fun e => !Event.isCheck e) by
    obtain ⟨tr', hrun, htr⟩ := hloop
    exact ⟨tr', runLoop_runs.2 hrun, htr⟩
  induction h with
  | nil => exact ⟨[], .nil, rfl⟩
  | quit _ hq => exact ⟨[], .quit hq, rfl⟩
  | stop hq h ho => exact ⟨_, .stop (hq rfl) h ho, rfl⟩
  | step hq h _ ih =>
    obtain ⟨tr', hrun, htr⟩ := ih
    refine ⟨_, .step (hq rfl) h hrun, ?_⟩
    rw [List.filter_append, htr, List.filter_append]
    rfl

/-! ## What the classification pass does to the session -/

/-- What `SELECT`, `AUTH`, `HELLO` and `RESET` change outside a transaction. -/
structure Login where
  authed : Bool
  db : Nat
deriving DecidableEq, Repr

/-- One command, carried out at once. -/
def Login.next (cfg : Config) (l : Login) (c : ClientCmd) : Login :=
  if c.name = "SELECT" then
    if l.authed then
      match selectDB cfg c.argv with
      | .ok db => { l with db }
      | .error _ => l
    else l
  else if c.name = "RESET" then { authed := !requireAuth cfg, db := 0 }
  else if c.name ∈ ["AUTH", "HELLO"] then
    { l with authed := (localStep cfg { newSession cfg with authed := l.authed } c.argv).1.authed }
  else l

def Session.login (s : Session) : Login := { authed := s.authed, db := s.db }

theorem doAuth_state (hs : s₀.authed = s.authed) (argv : Argv) :
    (doAuth cfg s argv).1 = { s with authed := (doAuth cfg s₀ argv).1.authed } := by
  have hsame : s = { s with authed := s₀.authed } := by rw [hs]
  unfold doAuth
  by_cases hreq : (!requireAuth cfg) = true
  · rw [if_pos hreq, if_pos hreq]
    exact hsame
  rw [if_neg hreq, if_neg hreq]
  dsimp only
  split
  · exact hsame
  · next p _ =>
    by_cases hp : p.bytes = cfg.clientAuthPassword
    · rw [if_pos hp, if_pos hp]
    · rw [if_neg hp, if_neg hp]
      exact hsame

theorem helloAuth_state (hs : s₀.authed = s.authed) (argv : Argv) :
    (helloAuth cfg s argv).map Prod.fst =
      (helloAuth cfg s₀ argv).map fun x => { s with authed := x.1.authed } := by
  have hsame : s = { s with authed := s₀.authed } := by rw [hs]
  unfold helloAuth
  split
  · rfl
  · next pass _ _ =>
    by_cases hp : pass.bytes = cfg.clientAuthPassword
    · rw [if_pos hp, if_pos hp]
      rfl
    · rw [if_neg hp, if_neg hp]
      exact congrArg some hsame
  · exact congrArg some hsame

/-- `AUTH` and `HELLO` only look at the authentication, and change nothing else. -/
theorem localStep_auth {argv : Argv} (hn : nameOf argv ∈ ["AUTH", "HELLO"])
    (hs : s₀.authed = s.authed) :
    (localStep cfg s argv).1 = { s with authed := (localStep cfg s₀ argv).1.authed } := by
  have hne : argv ≠ [] := by
    rintro rfl
    exact absurd hn (by decide)
  have hsame : s = { s with authed := s₀.authed } := by rw [hs]
  simp only [List.mem_cons, List.not_mem_nil, or_false] at hn
  rcases hn with hn | hn
  · simpa [localStep, hne, hn] using doAuth_state hs argv
  · have hhello := @helloAuth_state cfg s s₀ hs argv
    simp only [localStep, hne, hn, hs, String.reduceEq, if_false, if_true]
    by_cases hreq : (!s.authed && requireAuth cfg) = true
    · rw [if_pos hreq, if_pos hreq]
      cases h₀ : helloAuth cfg s₀ argv with
      | none =>
        rw [h₀, Option.map_none, Option.map_eq_none_iff] at hhello
        rw [hhello]
        exact hsame
      | some x₀ =>
        rw [h₀, Option.map_some, Option.map_eq_some_iff] at hhello
        obtain ⟨x, hx, hstate⟩ := hhello
        rw [hx]
        exact hstate
    · rw [if_neg hreq, if_neg hreq]
      exact hsame

/-- The session with another login. -/
def Session.relog (s : Session) (l : Login) : Session := { s with authed := l.authed, db := l.db }

/-- What the pass does for one command. -/
theorem classifyState_eq (hsub : s.sub = none) (c : ClientCmd) : classifyState cfg s c =
    (if c.name = "RESET" then s.resetTxn else s).relog (s.login.next cfg c) := by
  unfold classifyState
  rw [hsub, Option.isSome_none, Bool.false_or]
  by_cases hfour : c.name ∈ ["SELECT", "AUTH", "HELLO", "RESET"]
  · rw [if_neg (by simp [pipelineSlow_of_name hfour])]
    have hne := c.argv_ne_of_mem hfour (by decide)
    unfold Login.next
    simp only [List.mem_cons, List.not_mem_nil, or_false] at hfour
    by_cases hsel : c.name = "SELECT"
    · rw [if_pos hsel, if_pos hsel, if_neg (by rw [hsel]; decide), classifySelect]
      by_cases hauth : s.authed = true
      · rw [if_neg (by simp [hauth]), if_pos (show s.login.authed = true from hauth)]
        cases selectDB cfg c.argv <;> rfl
      · rw [if_pos (by simp [hauth]), if_neg (show ¬ s.login.authed = true from hauth)]
        rfl
    rw [if_neg hsel, if_neg hsel]
    have hname := ClientCmd.name_of_ne hne
    by_cases hreset : c.name = "RESET"
    · rw [if_pos hreset, if_pos hreset]
      rw [hname] at hreset
      simp [localStep, hne, hreset, Session.relog]
    rw [if_neg hreset, if_neg hreset]
    have hauth : c.name ∈ ["AUTH", "HELLO"] := by simp_all
    rw [if_pos hauth]
    rw [hname] at hauth
    exact localStep_auth hauth rfl
  · have hlogin : s.login.next cfg c = s.login := by
      simp only [List.mem_cons, List.not_mem_nil, or_false, not_or] at hfour
      simp [Login.next, hfour]
    have hreset : c.name ≠ "RESET" := fun hn => hfour (by simp [hn])
    have hsel : c.name ≠ "SELECT" := fun hn => hfour (by simp [hn])
    rw [hlogin, if_neg hreset, if_neg hsel]
    show _ = s
    split
    · rfl
    next hslow =>
    have hl := localStep_local cfg s c.argv
    generalize localStep cfg s c.argv = x at hl
    have hnot : ∀ w ∈ ["SELECT", "AUTH", "HELLO", "RESET"], nameOf c.argv ≠ w := by
      rintro w hw rfl
      exact ClientCmd.nameOf_not_mem hfour (by decide) hw
    cases hl with
    | pass | answer | noAuth => rfl
    | auth hn => exact absurd rfl (hnot _ (by simp_all))
    | reset _ hn => exact absurd hn (hnot _ (by decide))
    | quit hn =>
      -- `QUIT` is slow
      refine absurd ?_ hslow
      have hne : c.argv ≠ [] := by
        intro hc
        rw [hc] at hn
        exact absurd hn (by decide)
      rw [pipelineSlow, ClientCmd.name_of_ne hne, hn]
      simp [slowNames]

/-- **What the pass does for a batch.** -/
theorem batchState_eq (hsub : s.sub = none) (b : List ClientCmd) : batchState cfg s b =
    (if ∃ c ∈ b, c.name = "RESET" then s.resetTxn else s).relog
      (b.foldl (Login.next cfg) s.login) := by
  induction b generalizing s with
  | nil => rfl
  | cons c cs ih =>
    rw [batchState, ih ((classifyState_sub s c).trans hsub), classifyState_eq hsub c]
    by_cases hc : c.name = "RESET"
    · simp [hc, Session.relog, Session.login, Session.resetTxn]
    · by_cases hcs : ∃ d ∈ cs, d.name = "RESET"
      · simp [hc, hcs, Session.relog, Session.login, Session.resetTxn]
      · simp [hc, hcs, Session.relog, Session.login]

/-- The fields of the session that the pass is not to touch. -/
structure Keeps (s s' : Session) : Prop where
  db : s'.db = s.db
  authed : s'.authed = s.authed
  multi : s'.multi = s.multi
  queued : s'.queued = s.queued
  watched : s'.watched = s.watched
  pin : s'.pin = s.pin

/-- The commands the pass carries out change nothing, or what they change is changed back. -/
structure Restored (cfg : Config) (s : Session) (b : List ClientCmd) : Prop where
  login : b.foldl (Login.next cfg) s.login = s.login
  reset : (∃ c ∈ b, c.name = "RESET") →
    s.multi = false ∧ s.queued = [] ∧ s.watched = [] ∧ s.pin = none

theorem keeps_iff_restored (hsub : s.sub = none) :
    Keeps s (batchState cfg s b) ↔ Restored cfg s b := by
  rw [batchState_eq hsub]
  generalize hl : b.foldl (Login.next cfg) s.login = l
  constructor
  · intro h
    refine ⟨?_, fun hreset => ?_⟩
    · rw [hl]
      have hauthed : l.authed = s.authed := h.authed
      have hdb : l.db = s.db := h.db
      obtain ⟨authed, db⟩ := l
      rw [Session.login, ← hauthed, ← hdb]
    · have hmulti := h.multi
      have hqueued := h.queued
      have hwatched := h.watched
      have hpin := h.pin
      rw [if_pos hreset] at hmulti hqueued hwatched hpin
      exact ⟨hmulti.symm, hqueued.symm, hwatched.symm, hpin.symm⟩
  · intro h
    have hlogin := h.login
    rw [hl] at hlogin
    subst hlogin
    by_cases hreset : ∃ c ∈ b, c.name = "RESET"
    · rw [if_pos hreset]
      obtain ⟨hmulti, hqueued, hwatched, hpin⟩ := h.reset hreset
      exact ⟨rfl, rfl, hmulti.symm, hqueued.symm, hwatched.symm, hpin.symm⟩
    · rw [if_neg hreset]
      exact ⟨rfl, rfl, rfl, rfl, rfl, rfl⟩

/-- Then the pass leaves the session as it was. -/
theorem batchState_of_restored (hsub : s.sub = none) (h : Restored cfg s b) :
    batchState cfg s b = s := by
  rw [batchState_eq hsub, h.login]
  split
  · next hreset =>
    obtain ⟨hmulti, hqueued, hwatched, hpin⟩ := h.reset hreset
    show ({ s with multi := false, queued := [], watched := [], pin := none } : Session) = s
    rw [← hmulti, ← hqueued, ← hwatched, ← hpin]
  · rfl

/-! ## Quitting -/

/-- `QUIT` sets the flag, and no other command touches it. -/
theorem nextState_quit (s : Session) (c : ClientCmd) :
    (nextState cfg s c).quit = (s.quit || decide (c.name = "QUIT")) := by
  unfold nextState
  split
  · rfl
  split
  · next hsel =>
    have hne : c.name ≠ "QUIT" := by rw [hsel]; decide
    simp only [hne, decide_false, Bool.or_false]
    unfold selectStep Session.enqueue
    grind
  by_cases hquit : c.name = "QUIT"
  · have hlocal : localStep cfg s c.argv = ({ s with quit := true }, some plusOK) := by
      have hne := c.argv_ne_nil (by simp [hquit])
      rw [ClientCmd.name_of_ne hne] at hquit
      simp [localStep, hne, hquit]
    simp [hlocal, hquit]
  · simp only [hquit, decide_false, Bool.or_false]
    have hstep : (localStep cfg s c.argv).1.quit = s.quit := by
      have hl := localStep_local cfg s c.argv
      generalize localStep cfg s c.argv = x at hl
      cases hl with
      | quit hn =>
        have hnot : nameOf c.argv ∉ ["QUIT"] :=
          ClientCmd.nameOf_not_mem (by simpa using hquit) (by decide)
        simp [hn] at hnot
      | _ => rfl
    unfold multiStep discardStep Session.enqueue
    grind [Session.resetTxn]

theorem handle_quit (h : (handle cfg s c).Runs tr r) :
    r.1.quit = (s.quit || decide (c.name = "QUIT")) := by
  have hafter := ((handle_sends anyAnswer cfg s c).runs h fun _ _ => trivial).2
  exact hafter.quit.trans (nextState_quit s c)

/-- A `QUIT` that is reached is the last command. -/
def QuitLast (cfg : Config) (s : Session) (b : List ClientCmd) : Prop :=
  ∀ pre q post, b = pre ++ q :: post → q.name = "QUIT" →
    post = [] ∨ ∀ tr s', ¬ (handleSeq cfg s (pre ++ [q])).Runs tr (s', .ok)

theorem handleSeq_cons_ok {o : Session × Outcome}
    (h : (handle cfg s c).Runs tr (s', .ok)) (hs : (handleSeq cfg s' cs).Runs tr' o) :
    (handleSeq cfg s (c :: cs)).Runs (tr ++ tr') o :=
  handleSeq_runs.2 (.step trivial h (handleSeq_runs.1 hs))

theorem QuitLast.tail (hlast : QuitLast cfg s (c :: cs)) (h : (handle cfg s c).Runs tr (s', .ok)) :
    QuitLast cfg s' cs := by
  intro pre q post hcs hq
  rcases hlast (c :: pre) q post (by rw [hcs]; rfl) hq with hpost | hnever
  · exact .inl hpost
  · exact .inr fun tr' s₂ hrun => hnever _ _ (handleSeq_cons_ok h hrun)

theorem QuitLast.head (hlast : QuitLast cfg s (c :: cs)) (h : (handle cfg s c).Runs tr (s', .ok))
    (hc : c.name = "QUIT") : cs = [] := by
  rcases hlast [] c cs rfl hc with hcs | hnever
  · exact hcs
  · have hrun : (handleSeq cfg s [c]).Runs (tr ++ []) (s', .ok) := handleSeq_cons_ok h ⟨rfl, rfl⟩
    exact absurd hrun (hnever _ _)

/-- What is left behind a command that was handled is nothing if the session has quit. -/
theorem QuitLast.quit (hlast : QuitLast cfg s (c :: cs)) (hq : s.quit = true → c :: cs = [])
    (h : (handle cfg s c).Runs tr (s', .ok)) : s'.quit = true → cs = [] := by
  intro hquit
  rw [handle_quit h, Bool.or_eq_true, decide_eq_true_eq] at hquit
  rcases hquit with hquit | hquit
  · cases hq hquit
  · exact hlast.head h hquit

/-- Then it makes no difference whether the loop looks at `quit`. -/
theorem QuitLast.feeds_iff (hlast : QuitLast cfg s cs) (hq : s.quit = true → cs = []) :
    Feeds cfg false s cs ds tr r ↔ Feeds cfg true s cs ds tr r := by
  have hgoing : ∀ {s : Session} {c : ClientCmd} {cs : List ClientCmd},
      (s.quit = true → c :: cs = []) → s.quit = false :=
    fun hq => Bool.eq_false_iff.2 fun h => nomatch hq h
  constructor
  · intro h
    induction h with
    | nil => exact .nil
    | quit hl => cases hl
    | stop _ h ho => exact .stop (fun _ => hgoing hq) h ho
    | step _ h _ ih =>
      exact .step (fun _ => hgoing hq) h (ih (hlast.tail h) (hlast.quit hq h))
  · intro h
    induction h with
    | nil => exact .nil
    | quit _ hquit => cases hq hquit
    | stop _ h ho => exact .stop nofun h ho
    | step _ h _ ih => exact .step nofun h (ih (hlast.tail h) (hlast.quit hq h))

/-- A loop that looks handles nothing behind a `QUIT`. -/
theorem Feeds.not_behind_quit {pre post : List ClientCmd} {q d : ClientCmd} (hq : q.name = "QUIT")
    (h : Feeds cfg true s cs (pre ++ q :: d :: post) tr r) : False := by
  induction pre generalizing s cs tr with
  | nil =>
    cases h with
    | step _ h hs =>
      have hquit := handle_quit h
      rw [decide_eq_true hq, Bool.or_true] at hquit
      cases hs with
      | stop hgo => exact Bool.false_ne_true ((hgo rfl).symm.trans hquit)
      | step hgo => exact Bool.false_ne_true ((hgo rfl).symm.trans hquit)
  | cons c pre ih =>
    generalize hds : c :: pre ++ q :: d :: post = ds at h
    cases h with
    | nil | quit => cases hds
    | stop =>
      obtain ⟨rfl, hnil⟩ := List.cons.inj hds
      simp at hnil
    | step _ _ hs =>
      obtain ⟨rfl, rfl⟩ := List.cons.inj hds
      exact ih hs

/-- Commands that were handled, and what is fed behind them. -/
theorem Feeds.behind {pre : List ClientCmd}
    (hpre : (handleSeq cfg s pre).Runs tr (s', .ok)) (h : Feeds cfg false s' cs ds tr' r) :
    Feeds cfg false s (pre ++ cs) (pre ++ ds) (tr ++ tr') r := by
  generalize ho : (s', Outcome.ok) = o at hpre
  induction handleSeq_runs.1 hpre with
  | nil =>
    cases ho
    exact h
  | stop _ _ hne =>
    cases ho
    exact absurd rfl hne
  | step _ hc hs ih =>
    rw [List.append_assoc]
    exact .step nofun hc (ih ho (handleSeq_runs.2 hs))

/-- There is always a way to go on, and a loop that does not look takes it. -/
theorem exists_feeds (cfg : Config) (s : Session) (c : ClientCmd) (cs : List ClientCmd) :
    ∃ ds tr r, Feeds cfg false s (c :: cs) (c :: ds) tr r := by
  have hrun := scripted_runs (fun _ => calm fun _ => plusOK) (handleSeq cfg s (c :: cs))
  generalize scripted (fun _ => calm fun _ => plusOK) (handleSeq cfg s (c :: cs)) = x at hrun
  obtain ⟨r, tr⟩ := x
  obtain ⟨ds, h⟩ := handleSeq_feeds.1 hrun
  cases h with
  | quit hl => cases hl
  | stop hq h ho => exact ⟨[], _, _, .stop hq h ho⟩
  | step hq h hs => exact ⟨_, _, _, .step hq h hs⟩

/-! ## Slow batches -/

/-- A classification pass that ends in `s'`, and then the commands `ds`. -/
def BatchFeeds (cfg : Config) (s : Session) (b : List ClientCmd) (tr₀ : Trace) (s' : Session)
    (ds : List ClientCmd) (tr : Trace) (r : Session × Outcome) : Prop :=
  (handleBatch cfg s b).Runs (tr₀ ++ tr) r ∧ Feeds cfg false s' b ds tr r

/-- `handleBatch` does what the run loop does for the commands one at a time. -/
structure SameEffect (cfg : Config) (s : Session) (b : List ClientCmd) (tr₀ : Trace)
    (s' : Session) : Prop where
  keeps : Keeps s s'
  feeds : ∀ ds tr r, BatchFeeds cfg s b tr₀ s' ds tr r ↔ Feeds cfg true s b ds tr r

/-- The batches for which it does. -/
structure Settled (cfg : Config) (s : Session) (b : List ClientCmd) : Prop
    extends Restored cfg s b where
  going : s.quit = false
  quit : QuitLast cfg s b

theorem handleBatch_slow {ks : List Classified} (hb : 2 ≤ b.length)
    (hpass : (classifyAll cfg s b).Runs tr₀ (s', some ks))
    (hslow : ks.any Classified.isSlow = true) (h : Feeds cfg false s' b ds tr r) :
    BatchFeeds cfg s b tr₀ s' ds tr r := by
  refine ⟨?_, h⟩
  unfold handleBatch
  split
  · simp at hb
  · refine Interact.Prog.runs_bind.2 ⟨_, _, _, hpass, ?_, rfl⟩
    dsimp only
    rw [if_pos hslow]
    exact handleSeq_feeds.2 ⟨ds, h⟩

/-- **A slow batch has the effect of its commands one at a time**, if and only if it is
`Settled`. -/
theorem sameEffect_iff_settled {ks : List Classified} (hsub : s.sub = none) (hb : 2 ≤ b.length)
    (hpass : (classifyAll cfg s b).Runs tr₀ (s', some ks))
    (hslow : ks.any Classified.isSlow = true) :
    SameEffect cfg s b tr₀ s' ↔ Settled cfg s b := by
  have hs' : s' = batchState cfg s b :=
    (((classifyAll_idle s b).runs hpass fun _ _ => trivial).2 ks rfl).1
  constructor
  · intro h
    have hrestored := (keeps_iff_restored hsub).1 (hs' ▸ h.keeps)
    have hsame : s' = s := hs'.trans (batchState_of_restored hsub hrestored)
    subst hsame
    refine ⟨hrestored, ?_, ?_⟩
    · -- the loop would not have taken the first command
      by_contra hquit
      obtain ⟨c, cs, rfl⟩ := List.exists_cons_of_length_pos (by omega : 0 < b.length)
      obtain ⟨ds, tr, r, hfeeds⟩ := exists_feeds cfg s' c cs
      cases (h.feeds _ _ _).1 (handleBatch_slow hb hpass hslow hfeeds) with
      | stop hgo => exact hquit (hgo rfl)
      | step hgo => exact hquit (hgo rfl)
    · intro pre q post hbatch hq
      cases post with
      | nil => exact .inl rfl
      | cons d post =>
        refine .inr fun tr₁ s₁ hpre => ?_
        obtain ⟨ds, tr, r, hrest⟩ := exists_feeds cfg s₁ d post
        have hfeeds := hrest.behind hpre
        simp only [List.append_assoc, List.singleton_append] at hfeeds
        rw [← hbatch] at hfeeds
        exact ((h.feeds _ _ _).1 (handleBatch_slow hb hpass hslow hfeeds)).not_behind_quit hq
  · intro h
    have hsame : s' = s := hs'.trans (batchState_of_restored hsub h.toRestored)
    subst hsame
    have hiff : ∀ {ds tr r}, Feeds cfg false s' b ds tr r ↔ Feeds cfg true s' b ds tr r :=
      h.quit.feeds_iff fun hq => absurd hq (by simp [h.going])
    refine ⟨⟨rfl, rfl, rfl, rfl, rfl, rfl⟩, fun ds tr r => ⟨fun hfed => hiff.1 hfed.2, ?_⟩⟩
    intro hfed
    exact handleBatch_slow hb hpass hslow (hiff.2 hfed)

/-- A classification pass over a batch of a new session. -/
def passOver (b : List ClientCmd) : (Session × Option (List Classified)) × Trace :=
  scripted (fun _ => calm fun _ => plusOK) (classifyAll seeded (newSession seeded) b)

theorem passOver_runs {b : List ClientCmd}
    (h : (passOver b).1.2.any (fun ks => ks.any Classified.isSlow) = true) :
    ∃ ks, (classifyAll seeded (newSession seeded) b).Runs (passOver b).2
      ((passOver b).1.1, some ks) ∧ ks.any Classified.isSlow = true := by
  have hrun := scripted_runs (fun _ => calm fun _ => plusOK)
    (classifyAll seeded (newSession seeded) b)
  change (classifyAll seeded (newSession seeded) b).Runs (passOver b).2 (passOver b).1 at hrun
  generalize passOver b = x at h hrun
  obtain ⟨⟨s', kso⟩, tr₀⟩ := x
  cases kso with
  | none => cases h
  | some ks => exact ⟨ks, hrun, h⟩

/-- A transaction that begins in a batch. -/
def multiBatch : List ClientCmd := [command 1 ["MULTI"], command 2 ["GET", "a"]]

theorem sameEffect_multi : SameEffect seeded (newSession seeded) multiBatch
    (passOver multiBatch).2 (passOver multiBatch).1.1 := by
  have hfound : (passOver multiBatch).1.2.any (fun ks => ks.any Classified.isSlow) = true := by
    decide +kernel
  obtain ⟨ks, hpass, hslow⟩ := passOver_runs hfound
  refine (sameEffect_iff_settled rfl (by decide) hpass hslow).2
    ⟨⟨by decide +kernel, fun h => absurd h (by decide +kernel)⟩, rfl, ?_⟩
  intro pre q post hb hq
  have hmem : q ∈ multiBatch := by rw [hb]; simp
  have hnone : ∀ c ∈ multiBatch, c.name ≠ "QUIT" := by decide +kernel
  exact absurd hq (hnone q hmem)

/-- A `SELECT` behind a command. -/
def selectBatch : List ClientCmd :=
  [command 1 ["GET", "a"], command 2 ["SELECT", "1"], command 3 ["MULTI"]]

/-- The command in front of it is handled in the new database. -/
theorem select_ahead : ∃ ks,
    (classifyAll seeded (newSession seeded) selectBatch).Runs (passOver selectBatch).2
      ((passOver selectBatch).1.1, some ks) ∧ ks.any Classified.isSlow = true ∧
    ¬ SameEffect seeded (newSession seeded) selectBatch (passOver selectBatch).2
      (passOver selectBatch).1.1 := by
  have hfound : (passOver selectBatch).1.2.any (fun ks => ks.any Classified.isSlow) = true := by
    decide +kernel
  obtain ⟨ks, hpass, hslow⟩ := passOver_runs hfound
  refine ⟨ks, hpass, hslow, fun h => ?_⟩
  have hdb : (passOver selectBatch).1.1.db ≠ (newSession seeded).db := by decide +kernel
  exact hdb h.keeps.db

end RespProxy.Proxy
