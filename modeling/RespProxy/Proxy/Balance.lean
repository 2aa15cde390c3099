import RespProxy.Proxy.Loans

/-! # Replies outstanding on pooled connections

Any number of sessions and topology refreshes share the pools. In every interleaving a
connection goes back to its pool without a reply to come, and a reply that is read is the
reply to the command it is read for (`pooled_replies_settled`), as long as no round trip of a
refresh fails and no command with several replies is answered. Without these conditions
replies reach the wrong session (`pooled_replies_crossed`).
-/

namespace RespProxy.Proxy

open Cluster Command Resp Lease

variable {m : ConnId → Option (List Frame)} {conn : ConnId} {cfg : Config}
variable {s : Session} {c : ClientCmd}

/-! ## Batches -/

theorem classifyForward_neutral : Neutral (classifyForward cfg s c) := by
  unfold classifyForward
  split
  · exact neutral_ret _
  dsimp only
  split
  · exact neutral_ret _
  split
  · split <;> exact neutral_ret _
  · refine Neutral.bind (owner_inner _ _).neutral ?_
    intro addr
    cases addr with
    | none => exact neutral_ret _
    | some addr => dsimp only; split <;> exact neutral_ret _

theorem classifyPipe_pinned :
    Balanced (Has (pinned s)) (classifyPipe cfg s c) fun r => Has (pinned r.1) := by
  unfold classifyPipe
  split
  · exact tidy_ret fun _ hb => hb
  split
  · have hsame : (classifySelect cfg s c).1.pin = s.pin := by
      unfold classifySelect
      split
      · rfl
      · split <;> rfl
    generalize classifySelect cfg s c = r at hsame
    refine tidy_ret fun _ hb => ?_
    rwa [pinned_congr hsame]
  · refine Tidy.bind (handleLocal_pinned c.argv) ?_
    rintro ⟨s', answer⟩
    cases answer with
    | some v => exact tidy_ret fun _ hb => hb
    | none => exact Tidy.bind (classifyForward_neutral _) fun _ => tidy_ret fun _ hb => hb

theorem classifyAll_pinned (b : List ClientCmd) :
    Balanced (Has (pinned s)) (classifyAll cfg s b) fun r => Has (pinned r.1) := by
  induction b generalizing s with
  | nil => exact tidy_ret fun _ hb => hb
  | cons c cs ih =>
    refine Tidy.bind classifyPipe_pinned ?_
    rintro ⟨s', k⟩
    cases k with
    | panic => exact tidy_ret fun _ hb => hb
    | _ => exact Tidy.bind ih fun _ => tidy_ret fun _ hb => hb

/-- The replies of a group are read in the order its commands were written. -/
theorem readReplies_trips (its : List SendItem) :
    Balanced (Leased m conn ((its.map SendItem.frame).flatMap due)) (readReplies conn its)
      (Trips m conn) := by
  induction its with
  | nil => exact tidy_ret fun _ hb => hb
  | cons it its ih =>
    refine Tidy.bind (read_taken it.frame _) ?_
    intro r
    cases r with
    | error e => exact tidy_ret fun _ hb => hb.2
    | ok v =>
      refine Tidy.bind ih ?_
      intro r
      cases r <;> exact tidy_ret fun _ hb => hb

theorem followRedirects_neutral (its : List (SendItem × Value)) :
    Neutral (followRedirects cfg its) := by
  induction its with
  | nil => exact neutral_ret _
  | cons it its ih =>
    have hone : Neutral (followOne cfg it.1 it.2) := by
      unfold followOne
      split
      · exact neutral_ret _
      · exact exec_neutral _ _ _
    refine Neutral.bind hone ?_
    intro r
    cases r with
    | error e => exact neutral_ret _
    | ok v =>
      refine Neutral.bind ih ?_
      intro r
      cases r <;> exact neutral_ret _

theorem flushGroup_neutral (addr : Addr) (items : List SendItem) :
    Neutral (flushGroup cfg addr items) := by
  refine fun m => getConn_balanced (fun e => tidy_ret fun _ hb => hb) fun conn hc => ?_
  refine Tidy.bind (write_wrote [] _) ?_
  intro r
  cases r with
  | some e => exact (drop_return hc _).mono (fun _ hb => hb.2) fun _ _ hb => hb
  | none =>
    refine Tidy.bind (readReplies_trips items) ?_
    intro r
    cases r with
    | error e => exact drop_return hc _
    | ok vs => exact Tidy.bind (put_balanced hc) fun _ => followRedirects_neutral _ m

theorem writeReplies_neutral (out : List (CmdId × Value)) : Neutral (writeReplies out) := by
  induction out with
  | nil =>
    refine neutral_after (fun _ => rfl) ?_
    intro r
    cases r <;> exact neutral_ret _
  | cons x out ih =>
    refine neutral_after (fun _ => rfl) ?_
    intro r
    cases r with
    | some e => exact neutral_ret _
    | none => exact ih

theorem execFastPipeline_keeps (b : List ClientCmd) (ks : List Classified) :
    KeepsPin s (execFastPipeline cfg s b ks) := by
  refine KeepsPin.after (parList_neutral fun g _ => flushGroup_neutral g.1 g.2) ?_
  intro rs
  split
  · exact KeepsPin.after (pickErr_inner _).neutral fun _ =>
      KeepsPin.after (reply_neutral _ _) fun _ => keepsPin_ret rfl _
  · refine KeepsPin.after (neutral_ask fun _ => rfl) ?_
    intro r
    cases r with
    | some e => exact keepsPin_ret rfl _
    | none => exact KeepsPin.after (writeReplies_neutral _) fun _ => keepsPin_ret rfl _

theorem handleSeq_keeps (b : List ClientCmd) : KeepsPin s (handleSeq cfg s b) := by
  induction b generalizing s with
  | nil => exact keepsPin_ret rfl _
  | cons c cs ih =>
    refine Tidy.bind handle_keeps ?_
    rintro ⟨s', o⟩
    cases o with
    | ok => exact ih.mono (fun _ hb => hb Outcome.noConfusion) fun _ _ hb => hb
    | _ => exact tidy_ret fun _ hb => hb

theorem handleBatch_keeps (b : List ClientCmd) : KeepsPin s (handleBatch cfg s b) := by
  unfold handleBatch
  split
  · exact handle_keeps
  · refine Tidy.bind (classifyAll_pinned _) ?_
    rintro ⟨s', ks⟩
    cases ks with
    | none => exact keepsPin_ret rfl _
    | some ks =>
      dsimp only
      split
      · exact handleSeq_keeps _
      · exact execFastPipeline_keeps _ _

theorem runLoop_keeps (bs : List (List ClientCmd)) : KeepsPin s (runLoop cfg s bs) := by
  induction bs generalizing s with
  | nil => exact keepsPin_ret rfl _
  | cons b bs ih =>
    unfold runLoop
    split
    · exact keepsPin_ret rfl _
    · refine KeepsPin.after (neutral_ask fun _ => rfl) ?_
      intro r
      cases r with
      | some e => exact keepsPin_ret rfl _
      | none =>
        refine Tidy.bind (handleBatch_keeps b) ?_
        rintro ⟨s', o⟩
        cases o with
        | ok => exact ih.mono (fun _ hb => hb Outcome.noConfusion) fun _ _ hb => hb
        | _ => exact tidy_ret fun _ hb => hb

/-! ## The end of a session -/

theorem dropAll_balanced (conns : List ConnId) :
    Balanced (fun b => Has m b ∧ ∀ c ∈ conns, b c = .off) (dropAll conns) fun _ => Has m := by
  induction conns with
  | nil => exact tidy_ret fun _ hb => hb.1
  | cons conn conns ih =>
    refine tidy_call (R := fun _ b => Has m b ∧ ∀ c ∈ conns, b c = .off) ?_ fun _ => ih
    rintro r b ⟨hb, hoff⟩ _ _
    have hconn := hoff conn List.mem_cons_self
    refine ⟨?_, hb.step_off hconn rfl, fun c hc => ?_⟩
    · intro d hd
      cases List.mem_singleton.1 hd
      rw [hconn]
      exact Status.off_ne_away
    · show (if c ∈ [conn] then _ else b c) = _
      rw [hoff c (List.mem_cons_of_mem _ hc)]
      split <;> rfl

theorem cleanup_balanced : Balanced (Has (pinned s)) (cleanup s) fun _ => Has fun _ => none := by
  refine Tidy.bind dropPin_pinned fun s' => ?_
  refine Tidy.mono (P := Has fun _ => none) (Q := fun _ => Has fun _ => none) ?_ ?_
    fun _ _ hb => hb
  · split
    · refine Tidy.bind (R := fun conns b => Has (fun _ => none) b ∧ ∀ c ∈ conns, b c = .off) ?_
        dropAll_balanced
      refine tidy_call (R := fun conns b => Has (fun _ => none) b ∧ ∀ c ∈ conns, b c = .off) ?_
        fun _ => tidy_ret fun _ hb => hb
      intro conns b hb _ hfair
      exact ⟨fun _ _ => trivial, Has.see hb hfair⟩
    · exact tidy_ret fun _ hb => hb
  · rintro b ⟨-, hb⟩
    rwa [pinned_none rfl] at hb

/-- A session that has ended holds nothing. -/
theorem run_balanced (hs : s.pin = none) (bs : List (List ClientCmd)) :
    Balanced (Has fun _ => none) (run cfg s bs)
      fun r b => r.2 ≠ .running → Has (fun _ => none) b := by
  have hloop : KeepsPin s (runLoop cfg s bs) := runLoop_keeps bs
  unfold KeepsPin at hloop
  rw [pinned_none hs] at hloop
  refine Tidy.bind hloop fun r => ?_
  unfold closeDown
  split
  · next hrunning => exact tidy_ret fun _ _ h => absurd hrunning h
  · next hended =>
    refine Tidy.bind (cleanup_balanced.mono (fun _ hb => hb hended) fun _ _ hb => hb) fun _ => ?_
    exact tidy_ret fun _ hb _ => hb

/-! ## Sessions and refreshes together -/

/-- The requests of a session from its start on, or of a topology refresh, up to some point. -/
inductive Goroutine (cfg : Config) (tr : Trace) : Prop where
  | session {s : Session} {bs : List (List ClientCmd)} {rest : Trace} {r : Session × Outcome}
      (hs : s.pin = none) (h : (run cfg s bs).Runs (tr ++ rest) r)
  | refresh {rest : Trace} {r : Refreshed} (h : (refresh cfg).Runs (tr ++ rest) r)

/-- The pools hand out connections that nobody holds and that were not closed, and a session
finds only connections of subscriptions in its map of these. -/
def PoolsKeep (tr : Trace) : Prop := Fairly connUse (fun _ => .away) tr

instance (tr : Trace) : Decidable (PoolsKeep tr) :=
  inferInstanceAs (Decidable (Fairly connUse (fun _ => .away) tr))

/-- The commands whose replies are still to come on a connection, once for each reply. -/
abbrev owed (tr : Trace) (conn : ConnId) : List Frame := outstanding connUse tr conn

theorem Goroutine.safe {tr : Trace} (h : Goroutine cfg tr) :
    Safe connUse (fun e => smooth e = true) (fun _ => True) (fun _ => .away) tr := by
  have hempty : Has (fun _ => none) fun _ : ConnId => (Status.away : Status Frame) := fun _ => rfl
  cases h with
  | session hs h => exact (run_balanced hs _ _ _ _ hempty h).left
  | refresh h => exact (refresh_neutral _ _ _ _ hempty h).left

/-- Goroutines that run at once keep their accounts together. -/
theorem goroutines_safe {trs : List Trace} {tr : Trace} (h : ∀ l ∈ trs, Goroutine cfg l)
    (hs : Interact.Shuffle trs tr) :
    Safe connUse (fun e => smooth e = true) (fun _ => True) (fun _ => .away) tr := by
  have hsplit : Split (fun _ : ConnId => (Status.away : Status Frame)) fun _ _ => .away :=
    fun _ => .away fun _ => rfl
  refine (Safe.shuffle (Q := fun _ _ => True) hs hsplit ?_).mono fun _ _ => trivial
  intro i l hl
  exact (h l (List.mem_of_getElem? hl)).safe

/-- Nothing is outstanding on a connection that is put back, and every reply that is read is
the reply to the command it is read for. -/
theorem pooled_replies_settled {trs : List Trace} {tr : Trace} (hthreads : ∀ l ∈ trs, Goroutine cfg l)
    (hshuffle : Interact.Shuffle trs tr) (hpools : PoolsKeep tr)
    (hsmooth : ∀ e ∈ tr, smooth e = true) :
    (∀ i conn, tr[i]? = some ⟨.put conn, ()⟩ → owed (tr.take i) conn = []) ∧
      ∀ i conn f v, tr[i]? = some ⟨.read conn f, .ok v⟩ →
        (owed (tr.take i) conn).head? = some f := by
  have hsettled : ∀ i e, tr[i]? = some e → ∀ c ∈ (connUse e).conns,
      ∃ s : Status Frame, s.Agrees (owed (tr.take i) c) ∧ (connUse e).kind.Suits s := by
    intro i e he
    obtain ⟨hi, rfl⟩ := List.getElem?_eq_some_iff.1 he
    have htr : tr = tr.take i ++ tr[i] :: tr.drop (i + 1) := by
      rw [← List.drop_eq_getElem_cons hi, List.take_append_drop]
    exact (goroutines_safe hthreads hshuffle).settled hsmooth hpools htr
  refine ⟨?_, ?_⟩
  · intro i conn he
    obtain ⟨_, hagrees, rfl⟩ := hsettled i _ he conn (List.mem_singleton.2 rfl)
    exact hagrees
  · intro i conn f v he
    obtain ⟨_, hagrees, q, rfl⟩ := hsettled i _ he conn (List.mem_singleton.2 rfl)
    rw [show owed (tr.take i) conn = f :: q from hagrees]
    rfl

/-! ## Two ways to lose a reply -/

/-- The requests of a refresh that gets the connection 0; the reads in `fails` time out. -/
def refreshing (fails : Frame → Bool) : Trace :=
  (scripted (fun _ => timingOut fails fun _ => plusOK) (refresh seeded)).2

/-- The requests of a session with one command, for which it gets the connection 0. -/
def served (c : ClientCmd) : Trace :=
  (scripted (fun _ => calm fun _ => plusOK) (run seeded (newSession seeded) [[c]])).2

def getKey : ClientCmd := { id := ⟨1, 0⟩, argv := [arg "GET", arg "k"] }

def leaveTwo : ClientCmd := { id := ⟨2, 0⟩, argv := [arg "UNSUBSCRIBE", arg "a", arg "b"] }

theorem Goroutine.of_refresh {tr : Trace} {r : Refreshed} (h : (Cluster.refresh cfg).Runs tr r) :
    Goroutine cfg tr := by
  rw [← List.append_nil tr] at h
  exact .refresh h

theorem Goroutine.of_session {bs : List (List ClientCmd)} {tr : Trace} {r : Session × Outcome}
    (hs : s.pin = none) (h : (run cfg s bs).Runs tr r) : Goroutine cfg tr := by
  rw [← List.append_nil tr] at h
  exact .session hs h

theorem refreshing_goroutine (fails : Frame → Bool) : Goroutine seeded (refreshing fails) :=
  .of_refresh (scripted_runs _ _)

theorem served_goroutine (c : ClientCmd) : Goroutine seeded (served c) :=
  .of_session rfl (scripted_runs _ _)

/-- A refresh and a `GET` after it, on the same connection. -/
theorem pooled_replies_settled_calm :
    owed ([refreshing fun _ => false, served getKey].flatten.take 8) 0 = [] := by
  have hthreads : ∀ l ∈ [refreshing fun _ => false, served getKey], Goroutine seeded l := by
    simp [refreshing_goroutine, served_goroutine]
  have hsettled := pooled_replies_settled hthreads (.flatten _) (by decide +kernel)
    (by decide +kernel)
  exact hsettled.1 8 0 rfl

/-- A connection goes back with a reply to come, and a `GET` of another session is answered
with that reply. -/
def Crossed (trs : List Trace) : Prop :=
  ∃ tr i j f g v, Interact.Shuffle trs tr ∧ PoolsKeep tr ∧
    tr[i]? = some ⟨.put 0, ()⟩ ∧ owed (tr.take i) 0 ≠ [] ∧
    tr[j]? = some ⟨.read 0 f, .ok v⟩ ∧ (owed (tr.take j) 0).head? = some g ∧
    f.src = getKey.src (newSession seeded) ∧ g.src ≠ f.src

/-- A refresh puts its connection back after the reply to `INFO` has not come in time; and of
the replies to an `UNSUBSCRIBE` with two channels one is read. -/
theorem pooled_replies_crossed :
    (∀ l ∈ [refreshing fun f => decide (f = infoFrame), served getKey], Goroutine seeded l) ∧
      Crossed [refreshing fun f => decide (f = infoFrame), served getKey] ∧
      (∀ l ∈ [served leaveTwo, served getKey], Goroutine seeded l) ∧
      Crossed [served leaveTwo, served getKey] := by
  refine ⟨by simp [refreshing_goroutine, served_goroutine], ?_, by simp [served_goroutine], ?_⟩
  · exact ⟨_, 7, 14, _, _, _, .flatten _, by decide +kernel, rfl, by decide +kernel, rfl, rfl, rfl,
      by decide +kernel⟩
  · exact ⟨_, 8, 18, _, _, _, .flatten _, by decide +kernel, rfl, by decide +kernel, rfl, rfl, rfl,
      by decide +kernel⟩

end RespProxy.Proxy
