import RespProxy.Command.Translate
import RespProxy.Proxy.Relay

/-! # How commands end

Every path of `handle` ends in a reply to its command, in an error that closes the
session, or in a panic. The forwarding paths hide `-MOVED` and `-ASK` from the
client; the commands of `Relays` pass on what their last round trip returned.

* `Concluded`: what becomes of a command, as its trace and its outcome tell;
* `Hides`: the programs that write no redirect to the client;
* `handle_concludes`: how `handle` ends.
-/

namespace RespProxy.Proxy

open Cluster Command Resp Interact

variable {cfg : Config} {s : Session} {c : ClientCmd} {v : Value} {argv : Argv}

/-! ## Answers of the proxy itself -/

theorem dbIndexError_own (e : DBErr) : redirects (dbIndexError e) = false := by
  cases e <;> decide

theorem copyArgs_own {opts : Argv} {db : Nat} {replace : Bool}
    (h : copyArgs cfg opts db replace = .error v) : redirects v = false := by
  fun_induction copyArgs cfg opts db replace with
  | case1 => cases h
  | case2 _ _ _ _ _ ih => exact ih h
  | case3 =>
    cases h
    decide
  | case4 =>
    cases h
    exact dbIndexError_own _
  | case5 _ _ _ _ _ _ _ _ _ ih => exact ih h
  | case6 _ _ _ _ _ _ ih => exact ih h

theorem selectStep_own (s : Session) (c : ClientCmd) :
    redirects (selectStep cfg s c).2 = false := by
  unfold selectStep selectDB
  split
  · rfl
  · split
    · rename_i v hv
      split at hv
      · split at hv
        · cases hv
        · cases hv
          exact dbIndexError_own _
      · cases hv
        rfl
    · split <;> rfl

theorem multiStep_own (s : Session) : redirects (multiStep s).2 = false := by
  unfold multiStep
  split <;> rfl

theorem discardStep_own (s : Session) : redirects (discardStep s).2 = false := by
  unfold discardStep
  split <;> rfl

theorem LocalValue.own (h : LocalValue v) : redirects v = false := by
  cases h with
  | ok | pong | array => rfl
  | bulk b => exact redirects_of_not_error (not_error_bulkString b)
  | error h => exact (by decide : ∀ v ∈ _, redirects v = false) v h

/-! ## Numbers of keys -/

theorem not_huge_of_name (h : numkeysAt (nameOf argv) = none) : hugeNumkeys argv = false := by
  unfold hugeNumkeys
  rw [h]

/-- A command in range is translated, and its keys are found. -/
theorem exists_keys (db : Nat) (h : hugeNumkeys argv = false) :
    ∃ out keys, rewriteArgv argv db = some out ∧ extractKeys out = some keys ∧
      hugeNumkeys out = false := by
  obtain ⟨out, hout⟩ := exists_rewriteArgv db h
  have hsmall : hugeNumkeys out = false := by rw [hugeNumkeys_rewriteArgv hout, h]
  obtain ⟨keys, hkeys⟩ := exists_extractKeys hsmall
  exact ⟨out, keys, hout, hkeys, hsmall⟩

/-- The queue loop panics at a command with a huge number of keys only. -/
theorem execPlan_eq_none_iff {db : Nat} {queue : List QueuedCmd} :
    execPlan cfg db queue = none ↔ ∃ q ∈ queue, hugeNumkeys q.argv = true := by
  induction queue generalizing db with
  | nil => simp [execPlan]
  | cons q qs ih =>
    rw [execPlan]
    split
    · rename_i hsel
      have hsmall : hugeNumkeys q.argv = false :=
        not_huge_of_name (by rw [hsel.2]; decide)
      split <;> rw [Option.map_eq_none_iff, ih] <;> simp [hsmall]
    · cases hq : hugeNumkeys q.argv with
      | true =>
        simp only [List.mem_cons, exists_eq_or_imp, hq, true_or, iff_true]
        cases hout : rewriteArgv q.argv db with
        | none => rfl
        | some out =>
          have hhuge : hugeNumkeys out = true := by rw [hugeNumkeys_rewriteArgv hout, hq]
          show (extractKeys out).bind _ = none
          rw [extractKeys_none hhuge]
          rfl
      | false =>
        obtain ⟨out, keys, hout, hkeys, -⟩ := exists_keys db hq
        simp only [List.mem_cons, exists_eq_or_imp, hq, Bool.false_eq_true, false_or]
        rw [← @ih db, hout]
        show (extractKeys out).bind _ = none ↔ _
        rw [hkeys]
        show (execPlan cfg db qs).bind _ = none ↔ _
        cases execPlan cfg db qs <;> simp

/-- A command whose keys are found is split without a panic. -/
theorem exists_rebuilt (h : hugeNumkeys argv = false) (gs : List KeyGroup) :
    ∃ outs, gs.mapM (rebuildFanoutArgv argv) = some outs := by
  induction gs with
  | nil => exact ⟨[], rfl⟩
  | cons g gs ih =>
    obtain ⟨outs, houts⟩ := ih
    have hout : ∃ out, rebuildFanoutArgv argv g = some out := by
      unfold rebuildFanoutArgv
      split
      · exact ⟨_, rfl⟩
      · cases hk : keyIndexes _ with
        | none =>
          rw [keyIndexes_eq_none_iff, h] at hk
          cases hk
        | some idx => exact ⟨_, rfl⟩
    obtain ⟨out, hout⟩ := hout
    exact ⟨out :: outs, by simp [List.mapM_cons, hout, houts]⟩

/-! ## Ends of a command -/

/-- An acknowledgement is no error. -/
def AckEvent (e : Event) : Prop := ∀ conn v, e = ⟨.waitAck conn, .ok v⟩ → v.isError = false

/-- The end of the command `id` behind the last reply `last`: a panic only under `P`; under
`N` one reply, unless the session ends; and a redirect for the client if and only if
replies are relayed and the last one is a redirect. -/
structure Concluded (P N relays : Prop) (id : CmdId) (last : Option Value) (tr : Trace)
    (o : Outcome) : Prop where
  panic : o = .panic → P
  one : N → o = .ok → (replies tr).map Prod.fst = [some id]
  shows : (∀ e ∈ tr, AckEvent e) →
    ((∃ x ∈ replies tr, redirects x.2.1 = true) ↔ relays ∧ Redirected (tr.foldl settle last))

/-- All runs of the program end so. -/
def Concludes (P N relays : Prop) (id : CmdId) (last : Option Value)
    (p : Prog (Session × Outcome)) : Prop :=
  p.Sat fun tr r => Concluded P N relays id last tr r.2

section

variable {P N relays : Prop} {last : Option Value} {id : CmdId} {α : Type}
variable {f : α → Prog (Session × Outcome)}

/-- What comes before the reply may change what the last reply is. -/
theorem Concludes.after {p : Prog α} (hp : Mute (fun _ => True) p)
    (hf : p.Sat fun tr a => Concludes P N relays id (tr.foldl settle last) (f a)) :
    Concludes P N relays id last (p.bind f) := by
  refine Prog.sat_bind.2 ?_
  intro tr a ha tr' r hr
  obtain ⟨hpanic, hone, hshow⟩ := hf tr a ha tr' r hr
  have hnone := (Mute.replies hp ha).1
  refine ⟨hpanic, ?_, fun hack => ?_⟩
  · rwa [replies_append, hnone]
  · rw [replies_append, hnone, List.nil_append, List.foldl_append]
    exact hshow (List.forall_mem_append.1 hack).2

theorem Concludes.still {Q : α → Prop} {p : Prog α} (hp : Still Q p)
    (hf : ∀ a, Q a → Concludes P N relays id last (f a)) :
    Concludes P N relays id last (p.bind f) := by
  refine .after (hp.mono (fun _ _ he => he.2) fun _ _ => trivial) ?_
  intro tr a ha
  obtain ⟨htr, hQ⟩ := Prog.Ensures.runs hp ha fun _ _ => trivial
  rw [settle_still htr]
  exact hf a hQ

/-- Where replies are not relayed, it does not matter what the last one is. -/
theorem Concludes.hidden {Q : α → Prop} {p : Prog α} (hr : ¬ relays) (hp : Mute Q p)
    (hf : ∀ a, Q a → Concludes P N relays id none (f a)) :
    Concludes P N relays id last (p.bind f) := by
  refine .after (Sends.any hp) ?_
  intro tr a ha tr' r h
  obtain ⟨hpanic, hone, hshow⟩ := hf a (Mute.replies hp ha).2 tr' r h
  exact ⟨hpanic, hone, fun hack => (hshow hack).trans (by simp [hr])⟩

theorem Concludes.ends {o : Outcome} (ho : o ≠ .ok) (hP : o = .panic → P) :
    Concludes P N relays id none (pure (s, o)) := by
  rintro tr r ⟨rfl, rfl⟩
  exact ⟨hP, fun _ hok => absurd hok ho, fun _ => by simp [replies, not_redirected_none]⟩

theorem reply_concluded (hv : redirects v = true ↔ relays ∧ Redirected last) :
    (reply (some id) v).Sat (Concluded P N relays id last) := by
  intro tr o h
  obtain ⟨rfl, rfl⟩ | ⟨e, rfl, rfl | htr⟩ := reply_cases h
  · exact ⟨by simp, fun _ _ => rfl, fun _ => by simpa [replies, settle] using hv⟩
  · exact ⟨by simp, by simp, fun _ => by simp [replies, settle, not_redirected_none]⟩
  · refine ⟨by simp, by simp, fun _ => ?_⟩
    obtain rfl | rfl := htr <;> simpa [replies, settle] using hv

theorem finish_concludes (hv : redirects v = true ↔ relays ∧ Redirected last) :
    Concludes P N relays id last (finish s id v) := by
  refine Prog.sat_bind.2 ?_
  rintro tr o ho _ _ ⟨rfl, rfl⟩
  rw [List.append_nil]
  exact reply_concluded hv tr o ho

/-- A reply the proxy makes up itself. -/
theorem finish_own (hv : redirects v = false) : Concludes P N relays id none (finish s id v) :=
  finish_concludes (by simp [hv, not_redirected_none])

theorem finish_errOf (e : Err) : Concludes P N relays id none (finish s id (errOf e)) :=
  finish_own (redirects_errOf e)

/-- A reply that is passed on. -/
theorem finish_relayed (hr : relays) : Concludes P N relays id (some v) (finish s id v) :=
  finish_concludes (by simp [hr, redirected_some])

/-! ## Commands that pass replies on -/

theorem watchKeys_concludes (hr : relays) (keys : List Slice) (slot : Nat) :
    Concludes P N relays c.id none (watchKeys cfg s c argv keys slot) := by
  refine .after (Sends.any (Silent.sends (ensurePin_silent cfg s slot))) ?_
  intro tr r hrun
  rw [show tr.foldl settle none = none from ensurePin_settles s _ tr r hrun]
  cases r with
  | error e => exact finish_errOf e
  | ok sp =>
    refine .after (Sends.any (doFrame_sends trivial sp.2)) ?_
    intro tr r hrun
    rw [doFrame_settles _ _ tr r hrun]
    cases r with
    | error e => exact .still (Idle.still (dropPin_idle _)) fun _ _ => finish_errOf e
    | ok v => exact finish_relayed hr

theorem cmdWatch_concludes (hr : relays)
    (hP : s.multi = false → hugeNumkeys c.argv = true → P) :
    Concludes P N relays c.id none (cmdWatch cfg s c) := by
  unfold cmdWatch
  split
  · exact finish_own (by decide)
  rename_i hm
  have hP := hP (Bool.eq_false_iff.2 hm)
  split
  · exact .ends (by simp) fun _ => hP (rewriteArgv_eq_none_iff.1 ‹_›).2
  split
  · exact .ends (by simp) fun _ => hP (huge_of_extractKeys ‹_› ‹_›)
  · exact finish_own (by decide)
  split
  · exact finish_own (by decide)
  · exact watchKeys_concludes hr _ _

theorem execBackend_concludes (hr : relays) (p : ExecPlan) (slot : Nat) :
    Concludes P N relays c.id none (execBackend cfg s c p slot) := by
  have hmute : Mute (fun _ => True) (execConn cfg s slot) := by
    unfold execConn
    split
    · trivial
    · exact checkout_sends cfg slot
  have hconn : (execConn cfg s slot).Sat fun tr _ => lastReply tr = none := by
    unfold execConn
    split
    · rintro _ _ ⟨rfl, rfl⟩
      rfl
    · exact checkout_settles slot
  refine .after hmute ?_
  intro tr conn hrun
  rw [show tr.foldl settle none = none from hconn tr conn hrun]
  cases conn with
  | error e => exact finish_errOf e
  | ok conn =>
    refine .after (doFrames_sends (fun _ _ => trivial) conn _) ?_
    intro tr r hrun
    -- the first round trip makes what came before irrelevant
    have hlast : tr.foldl settle none = r.toOption := by
      obtain ⟨t₁, x, t₂, h₁, h₂, rfl⟩ := Prog.runs_bind.1 hrun
      rw [List.foldl_append, doFrame_settles conn _ t₁ x h₁]
      cases x with
      | error e =>
        obtain ⟨rfl, rfl⟩ := h₂
        rfl
      | ok v => exact doFrames_settles conn _ t₂ r h₂
    rw [hlast]
    cases r with
    | error e =>
      exact .still (p := ask (.drop conn)) (Q := fun _ => True)
        (fun _ _ => ⟨⟨fun _ => rfl, trivial⟩, trivial⟩) fun _ _ => finish_errOf e
    | ok v =>
      -- a redirect is passed on as it is; whatever becomes an array is none
      have hdone : redirects (execDone s.unpin p v).2 = true ↔ relays ∧ Redirected (some v) := by
        rw [redirected_some]
        have hv : (execDone s.unpin p v).2 = v ∨
            redirects v = false ∧ redirects (execDone s.unpin p v).2 = false := by
          unfold execDone mergeExecReply
          split
          · exact .inl rfl
          · dsimp only
            split
            · exact .inl rfl
            · rename_i harr
              rw [not_or, Decidable.not_not] at harr
              have herr : v.isError = false := by simp [Value.isError, harr.1]
              exact .inr ⟨redirects_of_not_error herr, redirects_of_not_error rfl⟩
        rcases hv with hv | ⟨hv, hv'⟩
        · rw [hv]
          simp [hr]
        · simp [hv, hv']
      -- the connection goes back to its pool behind the reply
      refine Prog.sat_bind.2 ?_
      rintro tr o ho _ _ ⟨_, _, rfl, rfl, rfl⟩
      obtain ⟨hpanic, hone, hshow⟩ := reply_concluded hdone tr o ho
      refine ⟨hpanic, ?_, fun hack => ?_⟩
      · rw [replies_append, show replies [⟨.put conn, ()⟩] = [] from rfl, List.append_nil]
        exact hone
      · rw [replies_append, List.foldl_append, show replies [⟨.put conn, ()⟩] = [] from rfl,
          List.append_nil]
        exact hshow (List.forall_mem_append.1 hack).1

theorem cmdExec_concludes (hr : relays)
    (hP : s.multi = true → ∀ q ∈ s.queued, hugeNumkeys q.argv = true → P) :
    Concludes P N relays c.id none (cmdExec cfg s c) := by
  unfold cmdExec
  split
  · exact finish_own (by decide)
  · rename_i hm
    refine .still (Inner.still (pinStale_inner _)) ?_
    rintro stale -
    split
    · exact .still (Idle.still (dropPin_idle _)) fun _ _ => finish_own (by decide)
    · unfold execQueued
      split
      · rename_i hplan
        obtain ⟨q, hq, hhuge⟩ := execPlan_eq_none_iff.1 hplan
        exact .ends (by simp) fun _ => hP (by simpa using hm) q hq hhuge
      · dsimp only
        split
        · exact .still (Idle.still (dropPin_idle _)) fun _ _ => finish_own (by decide)
        split
        · exact finish_own (redirects_of_not_error rfl)
        · exact execBackend_concludes hr _ _

theorem exec_mute (slot : Nat) (f : Frame) (read : Bool) :
    Mute (fun _ => True) (exec cfg slot f read) :=
  exec_sends cfg trivial trivial slot read

/-- The reply of `Exec` is passed on. -/
theorem exec_concludes (hr : relays) (slot : Nat) (f : Frame) (read : Bool)
    {k : Except Err Value → Prog (Session × Outcome)}
    (herr : ∀ e, k (.error e) = finish s c.id (errOf e))
    (hok : ∀ v, ∃ w, k (.ok v) = finish s c.id w ∧ redirects w = redirects v) :
    Concludes P N relays c.id none ((exec cfg slot f read).bind k) := by
  refine .after (exec_mute slot f read) ?_
  intro tr r hrun
  have hlast := exec_settles slot f read tr r hrun
  unfold lastReply at hlast
  cases r with
  | error e =>
    rw [herr]
    refine finish_concludes ?_
    simp [redirects_errOf, hlast]
  | ok v =>
    obtain ⟨w, hk, hw⟩ := hok v
    rw [hk]
    refine finish_concludes ?_
    rw [hlast, hw]
    simp [hr]

theorem cmdPublish_concludes (hr : relays) :
    Concludes P N relays c.id none (cmdPublish cfg s c) :=
  .still (Inner.still currentFlavor_inner) fun _ _ =>
    exec_concludes hr _ _ _ (fun _ => rfl) fun v => ⟨v, rfl, rfl⟩

theorem cmdRandomKey_concludes (hr : relays) :
    Concludes P N relays c.id none (cmdRandomKey cfg s c) := by
  unfold cmdRandomKey
  split
  · refine exec_concludes hr _ _ _ (fun _ => rfl) fun v => ?_
    by_cases hkey : v.null = false ∧ hasVirtualDBPrefix v.str.bytes = true
    · refine ⟨nullBulk, if_pos hkey, ?_⟩
      cases hv : redirects v with
      | false => rfl
      | true =>
        rw [not_prefixed_of_redirects hv] at hkey
        cases hkey.2
    · exact ⟨v, if_neg hkey, rfl⟩
  · refine exec_concludes hr _ _ _ (fun _ => rfl) fun v => ?_
    cases herr : v.isError with
    | true => exact ⟨v, by simp [herr], rfl⟩
    | false =>
      refine ⟨firstKey s.db v, by simp [herr], ?_⟩
      rw [redirects_of_not_error herr]
      refine redirects_of_not_error ?_
      unfold firstKey
      split
      · split
        · exact not_error_bulkString _
        · rfl
      · rfl

/-! ## Commands that hide redirects -/

theorem cmdUnwatch_concludes (hr : ¬ relays) :
    Concludes P N relays c.id none (cmdUnwatch s c) := by
  unfold cmdUnwatch
  split
  · refine .hidden hr (doFrame_sends trivial _) fun _ _ => ?_
    exact .still (Idle.still (dropPin_idle s)) fun _ _ => finish_own (by decide)
  · exact finish_own (by decide)

theorem cmdFlushDB_concludes (hr : relays ↔ s.db = 0) (hn : c.name = "FLUSHDB") :
    Concludes P N relays c.id none (cmdFlushDB cfg s c) := by
  unfold cmdFlushDB
  split
  · exact exec_concludes (hr.2 ‹_›) _ _ _ (fun _ => rfl) fun v => ⟨v, rfl, rfl⟩
  · rename_i hdb
    have hr : ¬ relays := fun h => hdb (hr.1 h)
    refine .hidden hr candidateAddrs_inner.sends fun addrs _ => ?_
    refine .hidden hr (flushNodes_sends (fun _ _ => trivial) hn hdb addrs) fun r _ => ?_
    cases r with
    | running => exact .ends (by simp) (by simp)
    | done => exact finish_own (by decide)
    | failed e | io e => exact finish_errOf e

theorem finishTransfer_concludes (hr : ¬ relays) {key dst : Slice}
    (hk : TransferKeys cfg s c key dst) (delSrc replace : Bool) :
    Concludes P N relays c.id none (finishTransfer cfg s c key dst delSrc replace) := by
  refine .hidden hr (transferKey_sends (fun _ _ => trivial) hk delSrc replace) fun r _ => ?_
  cases r with
  | error e => exact finish_errOf e
  | ok n => exact finish_own rfl

theorem cmdMove_concludes (hr : ¬ relays) (hn : c.name = "MOVE") :
    Concludes P N relays c.id none (cmdMove cfg s c) := by
  unfold cmdMove
  split
  · rename_i hargv
    split
    · exact finish_own (dbIndexError_own _)
    · rename_i hdb
      split
      · exact finish_own (by decide)
      · exact finishTransfer_concludes hr (.move hn hargv hdb) true false
  · exact finish_own (by decide)

theorem cmdCopy_concludes (hr : ¬ relays) (hn : c.name = "COPY") :
    Concludes P N relays c.id none (cmdCopy cfg s c) := by
  unfold cmdCopy
  split
  · rename_i hargv
    split
    · exact finish_own (copyArgs_own ‹_›)
    · exact finishTransfer_concludes hr (.copy hn hargv ‹_›) false _
  · exact finish_own (by decide)

theorem cmdFanout_concludes (hr : ¬ relays) (hP : hugeNumkeys argv = true → P)
    (keys : List Slice) : Concludes P N relays c.id none (cmdFanout cfg s c argv keys) := by
  unfold cmdFanout
  dsimp only
  split
  · exact finish_own (by decide)
  · split
    · rename_i hnone
      refine .ends (by simp) fun _ => hP ?_
      by_contra hsmall
      obtain ⟨outs, houts⟩ := exists_rebuilt (Bool.eq_false_iff.2 hsmall) (groupBySlot keys (slotOf cfg))
      rw [houts] at hnone
      cases hnone
    · refine .hidden hr (Prog.ensures_parList (R := fun _ _ => True)
        fun ga _ => exec_mute ga.1.slot _ _) fun rs _ => ?_
      split
      · exact .hidden hr (pickErr_inner _).sends fun e _ => finish_errOf e
      · exact finish_own (redirects_fanoutReply _ _ _ _ _ _)

theorem forward_concludes (hr : ¬ relays) (hP : hugeNumkeys c.argv = true → P) :
    Concludes P N relays c.id none (forward cfg s c) := by
  unfold forward
  split
  · exact .ends (by simp) fun _ => hP (rewriteArgv_eq_none_iff.1 ‹_›).2
  rename_i argv hargv
  dsimp only
  split
  · exact .ends (by simp) fun _ => hP (huge_of_extractKeys hargv ‹_›)
  split
  · split
    · exact cmdFanout_concludes hr (fun h => hP (hugeNumkeys_rewriteArgv hargv ▸ h)) _
    · exact finish_own (by decide)
  · refine .hidden hr (keylessMaster_inner _).sends fun _ _ => ?_
    refine .hidden hr (sendOne_sends trivial trivial trivial _) fun r _ => ?_
    cases r with
    | error e => exact finish_errOf e
    | ok v => exact finish_own (redirects_clientReply _ _ _)

end

/-! ## Subscriptions -/

/-- The program writes no redirect to the client, and `Q` holds of its result. -/
abbrev Hides {α : Type} (Q : α → Prop) (p : Prog α) : Prop :=
  Sends AckEvent (fun _ => True) (fun _ v => redirects v = false) Q p

/-- The values a subscription command is answered with. -/
abbrev Own (vs : List Value) : Prop := ∀ v ∈ vs, redirects v = false

theorem SubReply.own (h : SubReply AckEvent v) : redirects v = false := by
  cases h with
  | err e => exact redirects_errOf e
  | ack h => exact redirects_of_not_error (h _ _ rfl)
  | made vs => rfl

theorem handleClientCmd_hides (hc : c.argv ≠ []) (mode : Mode) (src : Origin) :
    Hides Own (handleClientCmd cfg mode src c.argv) :=
  (handleClientCmd_sends cfg hc mode fun _ _ => trivial).imp fun _ h v hv => (h.1 v hv).own

theorem replyAll_ends (s : Session) (id : CmdId) (vs : List Value) :
    (replyAll s id vs).Sat fun _ r => r.2 ≠ .panic := by
  induction vs with
  | nil => exact Prog.sat_ret.2 (by simp)
  | cons v vs ih =>
    refine Prog.sat_bind.2 ?_
    intro tr o ho
    have hv : redirects v = true ↔ True ∧ Redirected (some v) := by simp [redirected_some]
    have hend := reply_concluded (P := False) (N := True) hv tr o ho
    cases o with
    | ok => exact ih
    | panic => exact (hend.panic rfl).elim
    | err e | running => exact Prog.sat_ret.2 (by simp)

/-- A subscription command has any number of replies. -/
theorem subscription_concludes {P N relays : Prop} {α : Type} {Q : α → Prop} {p : Prog α}
    {s' : α → Session} {vs : α → List Value} (hN : ¬ N) (hr : ¬ relays) (hp : Hides Q p)
    (hvs : ∀ a, Q a → Own (vs a)) :
    Concludes P N relays c.id none (p.bind fun a => replyAll (s' a) c.id (vs a)) := by
  intro tr r hrun
  refine ⟨?_, fun h => absurd h hN, fun hack => ?_⟩
  · obtain ⟨_, _, _, -, h, -⟩ := Prog.runs_bind.1 hrun
    exact fun ho => absurd ho (replyAll_ends _ _ _ _ _ h)
  · have hhides : Hides (fun _ => True) (p.bind fun a => replyAll (s' a) c.id (vs a)) :=
      hp.bind fun a ha => Sends.any (replyAll_sends (hvs a ha))
    have hfoot := (hhides.runs hrun hack).1
    simp only [hr, false_and, iff_false]
    rintro ⟨⟨id, v, x⟩, hx, hv⟩
    have hhide : redirects v = false := hfoot _ (mem_replies.1 hx)
    rw [hhide] at hv
    cases hv

theorem enterSub_concludes {P N relays : Prop} (hc : c.argv ≠ []) (hN : ¬ N) (hr : ¬ relays) :
    Concludes P N relays c.id none (enterSub cfg s c) := by
  refine .hidden hr newMode_inner.sends fun mode _ => ?_
  exact subscription_concludes hN hr (handleClientCmd_hides hc mode _) fun _ h => h

theorem handleSub_concludes {P N relays : Prop} (hc : c.argv ≠ []) (hN : ¬ N) (hr : ¬ relays) (mode : Mode) :
    Concludes P N relays c.id none (handleSub cfg s mode c) := by
  unfold handleSub
  split
  · exact finish_own rfl
  split
  · exact finish_own (by decide)
  · exact subscription_concludes hN hr (handleClientCmd_hides hc mode _) fun _ h => h

/-! ## `handle` -/

/-- The commands whose last reply is passed on. -/
def Relays (s : Session) (c : ClientCmd) : Prop :=
  s.sub = none ∧ (c.name ∈ ["WATCH", "EXEC", "PUBLISH", "SPUBLISH", "RANDOMKEY"] ∨
    c.name = "FLUSHDB" ∧ s.db = 0)

variable {P : Prop}

/-- Outside subscribe mode a command that does not subscribe gets one reply. -/
abbrev Single (s : Session) (c : ClientCmd) : Prop :=
  s.sub = none ∧ c.name ∉ ["SUBSCRIBE", "PSUBSCRIBE", "SSUBSCRIBE"]

theorem not_relays (hn : c.name ∉ ["WATCH", "EXEC", "PUBLISH", "SPUBLISH", "RANDOMKEY", "FLUSHDB"]) :
    ¬ Relays s c := by
  rintro ⟨-, h | ⟨h, -⟩⟩
  · exact hn (List.mem_append_left ["FLUSHDB"] h)
  · exact hn (by simp [h])

theorem dispatch_concludes (hsub : s.sub = none) (hc : c.argv ≠ [])
    (hn : c.name ∉ ["MULTI", "DISCARD", "EXEC", "UNWATCH"]) (hw : c.name ≠ "WATCH")
    (hP : hugeNumkeys c.argv = true → P) :
    Concludes P (Single s c) (Relays s c) c.id none (dispatch cfg s c) := by
  unfold dispatch
  dsimp only
  rw [← ClientCmd.name_of_ne hc]
  split
  · rename_i hop
    have hmem := classifyPubSub_subscribe hop
    exact enterSub_concludes hc (fun h => h.2 hmem) (not_relays (by grind))
  split
  · rename_i hop
    have hmem := classifyPubSub_publish hop
    exact cmdPublish_concludes ⟨hsub, .inl (by grind)⟩
  split
  · exact finish_own rfl
  split
  · exact finish_own rfl
  split
  · rename_i hflush
    refine cmdFlushDB_concludes ?_ hflush
    simp [Relays, hsub, hflush]
  split
  · rename_i hmove
    exact cmdMove_concludes (not_relays (by rw [hmove]; decide)) hmove
  split
  · rename_i hcopy
    exact cmdCopy_concludes (not_relays (by rw [hcopy]; decide)) hcopy
  split
  · rename_i hrandom
    exact cmdRandomKey_concludes ⟨hsub, .inl (by simp [hrandom])⟩
  · rename_i hpub _ _ hflush _ _ hrandom
    refine forward_concludes (not_relays ?_) hP
    unfold classifyPubSub at hpub
    grind

theorem handleRemote_concludes (hsub : s.sub = none) (hempty : c.argv = [] → P)
    (hkeys : s.multi = false → hugeNumkeys c.argv = true → P)
    (hqueue : s.multi = true → c.name = "EXEC" → ∀ q ∈ s.queued, hugeNumkeys q.argv = true → P) :
    Concludes P (Single s c) (Relays s c) c.id none (handleRemote cfg s c) := by
  unfold handleRemote
  split
  · exact finish_own (multiStep_own s)
  split
  · exact finish_own (discardStep_own s)
  split
  · rename_i hexec
    exact cmdExec_concludes ⟨hsub, .inl (by simp [hexec])⟩ fun hm => hqueue hm hexec
  split
  · rename_i hwatch
    exact cmdWatch_concludes ⟨hsub, .inl (by simp [hwatch])⟩ hkeys
  split
  · rename_i hunwatch
    exact cmdUnwatch_concludes (not_relays (by rw [hunwatch]; decide))
  split
  · exact finish_own rfl
  rename_i hm
  split
  · exact .ends (by simp) fun _ => hempty ‹_›
  · exact dispatch_concludes hsub ‹_› (by simp [*]) ‹_› (hkeys (Bool.eq_false_iff.2 hm))

/-- How a command ends. -/
theorem handle_concludes (hempty : c.argv = [] → P)
    (hkeys : s.sub = none → (localStep cfg s c.argv).2 = none → s.multi = false →
      hugeNumkeys c.argv = true → P)
    (hqueue : s.sub = none → (localStep cfg s c.argv).2 = none → s.multi = true →
      c.name = "EXEC" → ∀ q ∈ s.queued, hugeNumkeys q.argv = true → P) :
    Concludes P (Single s c) (Relays s c) c.id none (handle cfg s c) := by
  unfold handle
  cases hsub : s.sub with
  | some mode =>
    dsimp only
    split
    · exact .ends (by simp) fun _ => hempty ‹_›
    · exact handleSub_concludes ‹_› (by simp [Single, hsub]) (by simp [Relays, hsub]) mode
  | none =>
    dsimp only
    split
    · exact finish_own (selectStep_own s c)
    · refine .still (Idle.still (handleLocal_idle s c.argv)) ?_
      rintro r rfl
      cases hl : (localStep cfg s c.argv).2 with
      | none =>
        rw [localStep_eq_none hl]
        exact handleRemote_concludes hsub hempty (hkeys hsub hl) (hqueue hsub hl)
      | some v =>
        rw [localStep_eq_some hl]
        exact finish_own (localStep_value s c.argv v hl).own

end RespProxy.Proxy
