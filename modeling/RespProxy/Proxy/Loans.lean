import RespProxy.Cluster.Checkout
import RespProxy.Proxy.Pipeline

/-! # Connections of a session

Between its commands a session holds at most the pinned connection, with no reply to come on
it (`KeepsPin`). Everything else it checks out for a command goes back or is closed within
the command; what a subscription has is out of the pools for good (`Lent`).
-/

namespace RespProxy.Proxy

open Cluster Command Resp Lease

variable {α β : Type} {m : ConnId → Option (List Frame)} {conn : ConnId} {cfg : Config}
variable {s s' : Session} {c : ClientCmd}

/-! ## Between commands -/

/-- What a session holds between commands. -/
def pinned (s : Session) : ConnId → Option (List Frame) :=
  fun c => if s.pin = some c then some [] else none

theorem pinned_congr (h : s'.pin = s.pin) : pinned s' = pinned s := by
  unfold pinned
  rw [h]

theorem pinned_none (h : s.pin = none) : pinned s = fun _ => none := by
  funext c
  simp [pinned, h]

theorem pinned_some (h : s.pin = some conn) :
    pinned s = Function.update (fun _ => none) conn (some []) := by
  funext c
  rcases eq_or_ne c conn with rfl | hc
  · simp [pinned, h]
  · simp [pinned, h, hc, hc.symm]

/-- The session holds its pin and nothing else, unless it is still at work. -/
def Accounted (r : Session × Outcome) (b : Book ConnId Frame) : Prop :=
  r.2 ≠ .running → Has (pinned r.1) b

/-- From a session that holds its pin to another one. -/
def KeepsPin (s : Session) (p : Prog (Session × Outcome)) : Prop :=
  Balanced (Has (pinned s)) p Accounted

theorem KeepsPin.congr {p : Prog (Session × Outcome)} (h : s'.pin = s.pin) (hp : KeepsPin s' p) :
    KeepsPin s p := by
  unfold KeepsPin at hp
  rwa [pinned_congr h] at hp

theorem KeepsPin.after {p : Prog α} {f : α → Prog (Session × Outcome)} (hp : Neutral p)
    (hf : ∀ a, KeepsPin s (f a)) : KeepsPin s (p.bind f) :=
  Tidy.bind (hp (pinned s)) hf

theorem keepsPin_ret (h : s'.pin = s.pin) (o : Outcome) : KeepsPin s (.ret (s', o)) := by
  refine tidy_ret fun b hb _ => ?_
  rwa [pinned_congr h]

theorem reply_neutral (id : Option CmdId) (v : Value) : Neutral (reply id v) := by
  refine neutral_after (fun _ => rfl) ?_
  intro r
  cases r with
  | some e => exact neutral_ret _
  | none =>
    refine neutral_after (fun _ => rfl) ?_
    intro r
    cases r with
    | some e => exact neutral_ret _
    | none =>
      refine neutral_after (fun _ => rfl) ?_
      intro r
      cases r <;> exact neutral_ret _

theorem finish_keepsPin (h : s'.pin = s.pin) (id : CmdId) (v : Value) :
    KeepsPin s (finish s' id v) :=
  KeepsPin.after (reply_neutral _ _) fun o => keepsPin_ret h o

/-- The session as `dropPin` leaves it. -/
def Dropped (s s' : Session) (b : Book ConnId Frame) : Prop :=
  s' = s.unpin ∧ Has (pinned s.unpin) b

/-- `dropPin` closes the pinned connection in whatever state it is. -/
theorem dropPin_spent (h : s.pin = some conn) :
    Balanced (Spent (fun _ => none) conn) (dropPin s) (Dropped s) := by
  unfold dropPin
  rw [h]
  refine Tidy.bind (drop_balanced rfl) fun _ => tidy_ret fun b hb => ⟨rfl, ?_⟩
  rwa [pinned_none rfl]

theorem dropPin_pinned : Balanced (Has (pinned s)) (dropPin s) (Dropped s) := by
  cases hpin : s.pin with
  | some conn =>
    refine (dropPin_spent hpin).mono (fun b hb => ⟨[], ?_⟩) fun _ _ hb => hb
    rwa [pinned_some hpin] at hb
  | none =>
    unfold dropPin
    rw [hpin]
    refine tidy_ret fun b hb => ⟨rfl, ?_⟩
    rwa [pinned_congr (s := s) hpin.symm]

theorem Dropped.go {f : Session → Prog (Session × Outcome)} (h : KeepsPin s.unpin (f s.unpin))
    (s' : Session) : Balanced (Dropped s s') (f s') Accounted := by
  refine tidy_pure (fun _ hb => hb) ?_
  rintro rfl
  exact h

theorem dropPin_keeps {f : Session → Prog (Session × Outcome)}
    (h : KeepsPin s.unpin (f s.unpin)) : KeepsPin s ((dropPin s).bind f) :=
  Tidy.bind dropPin_pinned (Dropped.go h)

/-! ## Transactions -/

theorem checkout_obtained (slot : Nat) : Balanced (Has m) (checkout cfg slot) (Obtained m) := by
  refine Tidy.bind ((owner_inner slot false).neutral m) ?_
  intro addr
  cases addr with
  | none => exact tidy_ret fun _ hb => hb
  | some addr => exact getConn_obtained addr false

/-- How the check-out of a pin ends. -/
def Pinning (s : Session) : Except Err (Session × ConnId) → Book ConnId Frame → Prop
  | .ok (s', conn), b => s'.pin = some conn ∧ Leased (fun _ => none) conn [] b
  | .error _, b => Has (pinned s) b

theorem ensurePin_pinning (slot : Nat) :
    Balanced (Has (pinned s)) (ensurePin cfg s slot) (Pinning s) := by
  unfold ensurePin
  cases hpin : s.pin with
  | some conn =>
    refine tidy_ret fun b hb => ⟨hpin, ?_⟩
    rwa [pinned_some hpin] at hb
  | none =>
    refine Tidy.bind (checkout_obtained slot) ?_
    intro r
    cases r with
    | error e => exact tidy_ret fun _ hb => hb
    | ok conn =>
      refine Tidy.bind (R := fun _ => Leased (fun _ => none) conn []) ?_ fun gen =>
        tidy_ret fun b hb => ⟨rfl, hb⟩
      refine (generation_inner.neutral _).mono ?_ fun _ _ hb => hb
      rintro b ⟨-, hb⟩
      rwa [pinned_none hpin] at hb

theorem watchKeys_keeps (argv : Argv) (keys : List Slice) (slot : Nat) :
    KeepsPin s (watchKeys cfg s c argv keys slot) := by
  refine Tidy.bind (ensurePin_pinning slot) ?_
  rintro (e | ⟨s', conn⟩)
  · exact finish_keepsPin rfl _ _
  · refine tidy_pure (fun _ hb => hb) fun hpin => ?_
    refine Tidy.bind (doFrame_taken _) ?_
    intro r
    cases r with
    | error e =>
      refine Tidy.bind ((dropPin_spent hpin).mono (fun _ hb => hb.2) fun _ _ hb => hb) ?_
      exact Dropped.go (finish_keepsPin rfl _ _)
    | ok v =>
      have hfinish : KeepsPin s' (finish { s' with watched := s'.watched ++ cloneArgv keys } c.id v) :=
        finish_keepsPin (by rfl) c.id v
      unfold KeepsPin at hfinish
      rwa [pinned_some hpin] at hfinish

theorem cmdWatch_keeps : KeepsPin s (cmdWatch cfg s c) := by
  unfold cmdWatch
  split
  · exact finish_keepsPin rfl _ _
  split
  · exact keepsPin_ret rfl _
  split
  · exact keepsPin_ret rfl _
  · exact finish_keepsPin rfl _ _
  · split
    · exact finish_keepsPin rfl _ _
    · exact watchKeys_keeps _ _ _

theorem cmdUnwatch_keeps : KeepsPin s (cmdUnwatch s c) := by
  unfold cmdUnwatch
  split
  · next conn hpin =>
    unfold KeepsPin
    rw [pinned_some hpin]
    -- the pin goes whether or not `UNWATCH` was answered
    have hspent : Balanced (Leased (fun _ => none) conn [])
        (doFrame conn { argv := [arg "UNWATCH"], src := c.src s })
        fun _ => Spent (fun _ => none) conn := by
      refine (doFrame_taken _).mono (fun _ hb => hb) ?_
      intro r b hb
      cases r with
      | ok v => exact ⟨_, hb⟩
      | error e => exact hb.2
    refine Tidy.bind hspent fun _ => ?_
    exact Tidy.bind (dropPin_spent hpin) (Dropped.go (finish_keepsPin (by rfl) _ _))
  · exact finish_keepsPin (by rfl) _ _

/-- How a series of round trips ends. -/
def Trips (m : ConnId → Option (List Frame)) (conn : ConnId) :
    Except Err α → Book ConnId Frame → Prop
  | .ok _, b => Leased m conn [] b
  | .error _, b => Spent m conn b

theorem doFrames_trips (fs : List Frame) (last : Value) :
    Balanced (Leased m conn []) (doFrames conn fs last) (Trips m conn) := by
  induction fs generalizing last with
  | nil => exact tidy_ret fun _ hb => hb
  | cons f fs ih =>
    refine Tidy.bind (doFrame_taken f) ?_
    intro r
    cases r with
    | error e => exact tidy_ret fun _ hb => hb.2
    | ok v => exact ih v

theorem execConn_obtained (slot : Nat) :
    Balanced (Has (pinned s)) (execConn cfg s slot) (Obtained fun _ => none) := by
  unfold execConn
  cases hpin : s.pin with
  | some conn =>
    refine tidy_ret fun b hb => ⟨rfl, ?_⟩
    rwa [pinned_some hpin] at hb
  | none =>
    rw [pinned_none hpin]
    exact checkout_obtained slot

theorem execDone_pin (p : ExecPlan) (v : Value) : (execDone s p v).1.pin = s.pin := by
  unfold execDone
  split <;> rfl

theorem execBackend_keeps (p : ExecPlan) (slot : Nat) :
    KeepsPin s (execBackend cfg s c p slot) := by
  -- the pin is taken out of the session, so nothing else is held
  have hfinish : ∀ v, Balanced (Has fun _ => none) (finish s.unpin c.id v) Accounted := by
    intro v
    have h := finish_keepsPin (s := s.unpin) rfl c.id v
    unfold KeepsPin at h
    rwa [pinned_none rfl] at h
  refine Tidy.bind (execConn_obtained slot) ?_
  intro r
  cases r with
  | error e => exact hfinish _
  | ok conn =>
    refine tidy_pure (P := Leased (fun _ => none) conn []) (fun _ hb => hb) fun _ => ?_
    refine Tidy.bind (doFrames_trips _ _) ?_
    intro r
    cases r with
    | error e => exact Tidy.bind (drop_balanced rfl) fun _ => hfinish _
    | ok v =>
      refine Tidy.bind (reply_neutral _ _ _) fun o => ?_
      refine Tidy.bind (put_balanced rfl) fun _ => tidy_ret fun b hb _ => ?_
      rwa [pinned_none (execDone_pin p v)]

theorem execQueued_keeps (queue : List QueuedCmd) : KeepsPin s (execQueued cfg s c queue) := by
  unfold execQueued
  split
  · exact keepsPin_ret rfl _
  · dsimp only
    split
    · exact dropPin_keeps (finish_keepsPin rfl _ _)
    · split
      · exact finish_keepsPin (by rfl) _ _
      · exact execBackend_keeps _ _

theorem cmdExec_keeps : KeepsPin s (cmdExec cfg s c) := by
  unfold cmdExec
  split
  · exact finish_keepsPin rfl _ _
  · refine @KeepsPin.congr s { s with multi := false, queued := [] } _ rfl ?_
    refine KeepsPin.after (pinStale_inner _).neutral ?_
    intro stale
    split
    · exact dropPin_keeps (finish_keepsPin rfl _ _)
    · exact execQueued_keeps _

/-! ## Commands on one key and on whole databases -/

theorem transferLocal_neutral (src : Origin) (key dst : Slice) (delSrc replace : Bool) :
    Neutral (transferLocal cfg src key dst delSrc replace) := by
  refine Neutral.bind (exec_neutral _ _ _) ?_
  intro r
  cases r with
  | error e => exact neutral_ret _
  | ok v => dsimp only; split_ifs <;> exact neutral_ret _

theorem transferDump_neutral (src : Origin) (key dst : Slice) (delSrc replace : Bool) :
    Neutral (transferDump cfg src key dst delSrc replace) := by
  refine Neutral.bind (exec_neutral _ _ _) ?_
  intro r
  cases r with
  | error e => exact neutral_ret _
  | ok dump =>
    dsimp only
    split
    · exact neutral_ret _
    split
    · exact neutral_ret _
    refine Neutral.bind (exec_neutral _ _ _) ?_
    intro r
    cases r with
    | error e => exact neutral_ret _
    | ok v =>
      dsimp only
      split
      · exact neutral_ret _
      split
      · exact Neutral.bind (exec_neutral _ _ _) fun _ => neutral_ret _
      · exact neutral_ret _

theorem transferKey_neutral (src : Origin) (key dst : Slice) (delSrc replace : Bool) :
    Neutral (transferKey cfg src key dst delSrc replace) := by
  have htransfer : Neutral
      (if slotOf cfg key = slotOf cfg dst then transferLocal cfg src key dst delSrc replace
        else transferDump cfg src key dst delSrc replace) := by
    split
    · exact transferLocal_neutral src key dst delSrc replace
    · exact transferDump_neutral src key dst delSrc replace
  unfold transferKey
  dsimp only
  split
  · exact htransfer
  · refine Neutral.bind (exec_neutral _ _ _) ?_
    intro r
    cases r with
    | error e => exact neutral_ret _
    | ok ex =>
      dsimp only
      split
      · exact neutral_ret _
      · exact htransfer

theorem finishTransfer_keeps (key dst : Slice) (delSrc replace : Bool) :
    KeepsPin s (finishTransfer cfg s c key dst delSrc replace) := by
  refine KeepsPin.after (transferKey_neutral _ _ _ _ _) ?_
  intro r
  cases r <;> exact finish_keepsPin rfl _ _

theorem cmdMove_keeps : KeepsPin s (cmdMove cfg s c) := by
  unfold cmdMove
  split
  · split
    · exact finish_keepsPin rfl _ _
    · split
      · exact finish_keepsPin rfl _ _
      · exact finishTransfer_keeps _ _ _ _
  · exact finish_keepsPin rfl _ _

theorem cmdCopy_keeps : KeepsPin s (cmdCopy cfg s c) := by
  unfold cmdCopy
  split
  · split
    · exact finish_keepsPin rfl _ _
    · exact finishTransfer_keeps _ _ _ _
  · exact finish_keepsPin rfl _ _

theorem scanDelete_leased (src : Origin) (keys : Value) :
    Balanced (Leased m conn []) (scanDelete conn src keys)
      fun r b => Spent m conn b ∧ (r = none → Leased m conn [] b) := by
  unfold scanDelete
  split
  · exact tidy_ret fun _ hb => ⟨⟨_, hb⟩, fun _ => hb⟩
  · refine Tidy.bind (doFrame_taken _) ?_
    intro r
    cases r with
    | error e =>
      refine tidy_ret fun _ hb => ⟨hb.2, ?_⟩
      intro h
      cases h
    | ok v => exact tidy_ret fun _ hb => ⟨⟨_, hb⟩, fun _ => hb⟩

/-- The connection of a scan when the scan ends. -/
def ScanLeft (m : ConnId → Option (List Frame)) (conn : ConnId) :
    ScanEnd → Book ConnId Frame → Prop
  | .running, _ => True
  | .io _, b => Spent m conn b
  | _, b => Leased m conn [] b

theorem scanLoop_scanLeft (src : Origin) (pattern : Slice) (rounds : Nat) (cursor : Slice) :
    Balanced (Leased m conn []) (scanLoop conn src pattern rounds cursor) (ScanLeft m conn) := by
  induction rounds generalizing cursor with
  | zero => exact tidy_ret fun _ _ => trivial
  | succ rounds ih =>
    refine Tidy.bind (doFrame_taken _) ?_
    intro r
    cases r with
    | error e => exact tidy_ret fun _ hb => hb.2
    | ok v =>
      dsimp only
      split
      · exact tidy_ret fun _ hb => hb
      split
      · refine Tidy.bind (scanDelete_leased src _) ?_
        intro r
        cases r with
        | some e => exact tidy_ret fun _ hb => hb.1
        | none =>
          dsimp only
          split
          · exact tidy_ret fun _ hb => hb.2 rfl
          · exact (ih _).mono (fun _ hb => hb.2 rfl) fun _ _ hb => hb
      · exact tidy_ret fun _ hb => hb

theorem scanDeleteOn_balanced (addr : Addr) (src : Origin) (pattern : Slice) :
    Balanced (Has m) (scanDeleteOn cfg addr src pattern) fun r b => r ≠ .running → Has m b := by
  refine getConn_balanced (fun e => tidy_ret fun _ hb _ => hb) fun conn hc => ?_
  refine Tidy.bind (neutral_ask (fun _ => rfl) _) fun rounds => ?_
  refine Tidy.bind (scanLoop_scanLeft src pattern rounds _) ?_
  have hput : ∀ r : ScanEnd, Balanced (Leased m conn []) ((ask (.put conn)).bind fun _ => .ret r)
      fun r b => r ≠ .running → Has m b :=
    fun r => (put_return hc r).mono (fun _ hb => hb) fun _ _ hb _ => hb
  intro r
  cases r with
  | io e => exact (drop_return hc _).mono (fun _ hb => hb) fun _ _ hb _ => hb
  | running => exact tidy_ret fun _ _ h => absurd rfl h
  | done => exact hput _
  | failed e => exact hput _

theorem flushNodes_balanced (src : Origin) (pattern : Slice) (addrs : List Addr) :
    Balanced (Has m) (flushNodes cfg src pattern addrs) fun r b => r ≠ .running → Has m b := by
  induction addrs with
  | nil => exact tidy_ret fun _ hb _ => hb
  | cons addr addrs ih =>
    refine Tidy.bind (scanDeleteOn_balanced addr src pattern) ?_
    intro r
    cases r with
    | done => exact ih.mono (fun _ hb => hb ScanEnd.noConfusion) fun _ _ hb => hb
    | failed | io | running => exact tidy_ret fun _ hb => hb

theorem cmdFlushDB_keeps : KeepsPin s (cmdFlushDB cfg s c) := by
  unfold cmdFlushDB
  split
  · refine KeepsPin.after (exec_neutral _ _ _) ?_
    intro r
    cases r <;> exact finish_keepsPin rfl _ _
  · refine KeepsPin.after candidateAddrs_inner.neutral fun addrs => ?_
    refine Tidy.bind (flushNodes_balanced _ _ addrs) ?_
    intro r
    have hfinish : ∀ v, r ≠ .running → Balanced (fun b => r ≠ .running → Has (pinned s) b)
        (finish s c.id v) Accounted :=
      fun v hr => (finish_keepsPin rfl c.id v).mono (fun _ hb => hb hr) fun _ _ hb => hb
    cases r with
    | done => exact hfinish _ ScanEnd.noConfusion
    | running => exact tidy_ret fun _ _ h => absurd rfl h
    | failed e => exact hfinish _ ScanEnd.noConfusion
    | io e => exact hfinish _ ScanEnd.noConfusion

theorem cmdRandomKey_keeps : KeepsPin s (cmdRandomKey cfg s c) := by
  unfold cmdRandomKey
  split
  · refine KeepsPin.after (exec_neutral _ _ _) ?_
    intro r
    cases r with
    | error e => exact finish_keepsPin rfl _ _
    | ok v => dsimp only; split <;> exact finish_keepsPin rfl _ _
  · refine KeepsPin.after (exec_neutral _ _ _) ?_
    intro r
    cases r with
    | error e => exact finish_keepsPin rfl _ _
    | ok v => dsimp only; split <;> exact finish_keepsPin rfl _ _

/-! ## Subscriptions -/

/-- A connection that a subscription has, besides what is in `m`. -/
def Lent (m : ConnId → Option (List Frame)) (conn : ConnId) (b : Book ConnId Frame) : Prop :=
  Has m b ∧ b conn = .off

/-- What the session's map of connections says. -/
def Found (m : ConnId → Option (List Frame)) : Option ConnId → Book ConnId Frame → Prop
  | some conn, b => Lent m conn b
  | none, b => Has m b

theorem backend_found (addr : Addr) : Balanced (Has m) (ask (.backend addr)) (Found m) := by
  refine tidy_call (R := Found m) ?_ fun _ => tidy_ret fun _ hb => hb
  intro r b hb _ hfair
  cases r with
  | none => exact ⟨fun _ _ => trivial, (Has.see hb hfair).1⟩
  | some conn =>
    obtain ⟨hsame, hoff⟩ := Has.see hb hfair
    exact ⟨fun _ _ => trivial, hsame, hoff conn (List.mem_singleton.2 rfl)⟩

/-- How the look for a connection of a subscription ends. -/
def Ensured (m : ConnId → Option (List Frame)) : Except Err ConnId → Book ConnId Frame → Prop
  | .ok conn, b => Lent m conn b
  | .error _, b => Has m b

theorem ensureBackend_ensured (addr : Addr) :
    Balanced (Has m) (ensureBackend cfg addr) (Ensured m) := by
  refine Tidy.bind (backend_found addr) ?_
  intro r
  cases r with
  | some conn => exact tidy_ret fun _ hb => hb
  | none =>
    refine getConn_balanced (fun e => tidy_ret fun _ hb => hb) fun conn hc => ?_
    refine Tidy.mono (P := Spent m conn) (Q := Ensured m) ?_ (fun _ hb => ⟨_, hb⟩)
      fun _ _ hb => hb
    exact retire_balanced hc (fun _ => rfl) fun _ => tidy_ret fun _ hb => hb

/-- A command on a connection of a subscription. -/
theorem write_lent (fs : List Frame) :
    Balanced (Lent m conn) (ask (.write conn fs)) fun _ => Has m := by
  refine tidy_call (R := fun _ => Has m) ?_ fun _ => tidy_ret fun _ hb => hb
  rintro r b ⟨hb, hoff⟩ _ _
  refine ⟨?_, hb.step_off hoff rfl⟩
  intro d hd
  cases List.mem_singleton.1 hd
  rw [hoff]
  exact Status.off_ne_away

theorem subRoundTrip_lent (f : Frame) :
    Balanced (Lent m conn) (subRoundTrip conn f) fun _ => Has m := by
  refine Tidy.bind (write_lent [f]) ?_
  intro r
  cases r with
  | some e => exact tidy_ret fun _ hb => hb
  | none => exact neutral_ask (fun _ => rfl) m

theorem subscribeLoop_neutral (src : Origin) (cmd kind : String) (rewrite : Bool)
    (chs : List Slice) (replies : List Value) :
    Neutral (subscribeLoop cfg src cmd kind rewrite chs replies) := by
  induction chs generalizing replies with
  | nil => exact neutral_ret _
  | cons ch chs ih =>
    refine Neutral.bind (owner_inner _ _).neutral ?_
    intro addr
    cases addr with
    | none => exact neutral_ret _
    | some addr =>
      intro m
      refine Tidy.bind (ensureBackend_ensured addr) ?_
      intro r
      cases r with
      | error e => exact neutral_ret _ m
      | ok conn =>
        refine Tidy.bind (subRoundTrip_lent _) ?_
        intro r
        cases r with
        | error e => exact neutral_ret _ m
        | ok ack => exact neutral_after (fun _ => rfl) (fun _ => ih _) m

theorem subscribe_neutral (mode : Mode) (src : Origin) (channels : List Slice)
    (fromGlobal : Bool) : Neutral (subscribe cfg mode src channels fromGlobal) := by
  unfold subscribe
  dsimp only
  split
  · exact neutral_ret _
  · exact subscribeLoop_neutral _ _ _ _ _ _

theorem unsubscribeOne_neutral (src : Origin) (cmd kind : String) (rewrite : Bool) (ch : Slice) :
    Neutral (unsubscribeOne src cmd kind rewrite ch) := by
  refine neutral_after (fun _ => rfl) fun addr m => ?_
  have hlocal : Balanced (Has m) (do
      let count ← ask (.subsDel ch)
      return array [bulkString (arg kind), bulkString ch, integer count]) fun _ => Has m :=
    neutral_after (fun _ => rfl) (fun _ => neutral_ret _) m
  refine Tidy.bind (backend_found addr) ?_
  intro r
  cases r with
  | none => exact hlocal
  | some conn =>
    refine Tidy.bind (write_lent _) fun _ => ?_
    refine Tidy.bind (neutral_ask (fun _ => rfl) m) ?_
    intro r
    cases r with
    | error e => exact hlocal
    | ok ack => exact neutral_after (fun _ => rfl) (fun _ => neutral_ret _) m

theorem unsubscribe_neutral (mode : Mode) (src : Origin) (channels : List Slice)
    (fromGlobal : Bool) : Neutral (unsubscribe mode src channels fromGlobal) := by
  have hloop : ∀ cmd kind rewrite (chs : List Slice),
      Neutral (unsubscribeLoop src cmd kind rewrite chs) := by
    intro cmd kind rewrite chs
    induction chs with
    | nil => exact neutral_ret _
    | cons ch chs ih =>
      exact Neutral.bind (unsubscribeOne_neutral _ _ _ _ _) fun _ => Neutral.bind ih fun _ => neutral_ret _
  exact neutral_after (fun _ => rfl) fun _ => hloop _ _ _ _

theorem patternRoundTrip_neutral (src : Origin) (argv : Argv) :
    Neutral (patternRoundTrip cfg src argv) := by
  refine Neutral.bind anyMaster_inner.neutral ?_
  intro n
  cases n with
  | none => exact neutral_ret _
  | some n =>
    intro m
    refine Tidy.bind (ensureBackend_ensured n.addr) ?_
    intro r
    cases r with
    | error e => exact neutral_ret _ m
    | ok conn =>
      refine Tidy.bind (subRoundTrip_lent _) ?_
      intro r
      cases r <;> exact neutral_ret _ m

theorem handleClientCmd_neutral (mode : Mode) (src : Origin) (argv : Argv) :
    Neutral (handleClientCmd cfg mode src argv) := by
  unfold handleClientCmd
  split
  · split
    · exact neutral_ret _
    · exact patternRoundTrip_neutral _ _
  · split
    · exact neutral_ret _
    · exact patternRoundTrip_neutral _ _
  · exact subscribe_neutral _ _ _ _
  · exact subscribe_neutral _ _ _ _
  · exact unsubscribe_neutral _ _ _ _
  · exact unsubscribe_neutral _ _ _ _
  · exact neutral_ret _

theorem replyAll_keeps (h : s'.pin = s.pin) (id : CmdId) (vs : List Value) :
    KeepsPin s (replyAll s' id vs) := by
  induction vs with
  | nil => exact keepsPin_ret h _
  | cons v vs ih =>
    refine KeepsPin.after (reply_neutral _ _) ?_
    intro o
    cases o with
    | ok => exact ih
    | _ => exact keepsPin_ret h _

theorem enterSub_keeps : KeepsPin s (enterSub cfg s c) :=
  KeepsPin.after newMode_inner.neutral fun _ =>
    KeepsPin.after (handleClientCmd_neutral _ _ _) fun _ => replyAll_keeps (by rfl) _ _

theorem handleSub_keeps (mode : Mode) : KeepsPin s (handleSub cfg s mode c) := by
  unfold handleSub
  split
  · exact finish_keepsPin rfl _ _
  · split
    · exact finish_keepsPin (by rfl) _ _
    · exact KeepsPin.after (handleClientCmd_neutral _ _ _) fun _ => replyAll_keeps rfl _ _

theorem cmdPublish_keeps : KeepsPin s (cmdPublish cfg s c) := by
  refine KeepsPin.after currentFlavor_inner.neutral fun _ => ?_
  refine KeepsPin.after (exec_neutral _ _ _) ?_
  intro r
  cases r <;> exact finish_keepsPin rfl _ _

/-! ## Forwarding -/

theorem doBlocking_neutral (slot : Nat) (f : Frame) : Neutral (doBlocking cfg slot f) := by
  intro m
  refine Tidy.bind (checkout_obtained slot) ?_
  intro r
  cases r with
  | error e => exact neutral_ret _ m
  | ok conn =>
    refine tidy_pure (P := Leased m conn []) (fun _ hb => hb) fun hc => ?_
    refine Tidy.bind (doFrame_taken f) ?_
    intro r
    cases r with
    | error e => exact (drop_return hc _).mono (fun _ hb => hb.2) fun _ _ hb => hb
    | ok v =>
      dsimp only
      split
      · split
        · refine Tidy.bind ((drop_balanced hc).mono (fun _ hb => ⟨_, hb⟩) fun _ _ hb => hb) ?_
          exact fun _ => Neutral.bind (updateSlotAt_inner _ _).neutral (fun _ => exec_neutral _ _ _) m
        · exact put_return hc _
      · exact put_return hc _

theorem sendOne_neutral (slot : Nat) (f : Frame) : Neutral (sendOne cfg slot f) := by
  unfold sendOne
  split
  · exact doBlocking_neutral _ _
  · exact exec_neutral _ _ _

theorem parList_neutral {γ : Type} {F : γ → Prog β} {gs : List γ} (h : ∀ g ∈ gs, Neutral (F g)) :
    Neutral (Interact.Prog.parList (gs.map F)) :=
  fun _ => tidy_parList fun g hg => h g hg _

theorem cmdFanout_keeps (argv : Argv) (keys : List Slice) :
    KeepsPin s (cmdFanout cfg s c argv keys) := by
  unfold cmdFanout
  dsimp only
  split
  · exact finish_keepsPin rfl _ _
  split
  · exact keepsPin_ret rfl _
  · refine KeepsPin.after (parList_neutral fun _ _ => exec_neutral _ _ _) ?_
    intro rs
    split
    · exact KeepsPin.after (pickErr_inner _).neutral fun _ => finish_keepsPin rfl _ _
    · exact finish_keepsPin rfl _ _

theorem forward_keeps : KeepsPin s (forward cfg s c) := by
  unfold forward
  split
  · exact keepsPin_ret rfl _
  dsimp only
  split
  · exact keepsPin_ret rfl _
  split
  · split
    · exact cmdFanout_keeps _ _
    · exact finish_keepsPin rfl _ _
  · refine KeepsPin.after (keylessMaster_inner _).neutral fun _ => ?_
    refine KeepsPin.after (sendOne_neutral _ _) ?_
    intro r
    cases r <;> exact finish_keepsPin rfl _ _

theorem dispatch_keeps : KeepsPin s (dispatch cfg s c) := by
  unfold dispatch
  dsimp only
  split
  · exact enterSub_keeps
  split
  · exact cmdPublish_keeps
  split
  · exact finish_keepsPin rfl _ _
  split
  · exact finish_keepsPin rfl _ _
  split
  · exact cmdFlushDB_keeps
  split
  · exact cmdMove_keeps
  split
  · exact cmdCopy_keeps
  split
  · exact cmdRandomKey_keeps
  · exact forward_keeps

theorem multiStep_pin : (multiStep s).1.pin = s.pin := by
  unfold multiStep
  split <;> rfl

theorem discardStep_pin : (discardStep s).1.pin = s.pin := by
  unfold discardStep
  split <;> rfl

theorem selectStep_pin : (selectStep cfg s c).1.pin = s.pin := by
  unfold selectStep
  split
  · rfl
  split
  · rfl
  · split <;> rfl

theorem handleRemote_keeps : KeepsPin s (handleRemote cfg s c) := by
  unfold handleRemote
  split
  · exact finish_keepsPin multiStep_pin _ _
  split
  · exact finish_keepsPin discardStep_pin _ _
  split
  · exact cmdExec_keeps
  split
  · exact cmdWatch_keeps
  split
  · exact cmdUnwatch_keeps
  split
  · exact finish_keepsPin (by rfl) _ _
  split
  · exact keepsPin_ret rfl _
  · exact dispatch_keeps

/-- A local command keeps the pin, or is `RESET`, which closes it. -/
theorem handleLocal_pinned (argv : Argv) :
    Balanced (Has (pinned s)) (handleLocal cfg s argv) fun r => Has (pinned r.1) := by
  have hlocal := localStep_local cfg s argv
  unfold handleLocal
  split
  · next hreset =>
    refine Tidy.bind dropPin_pinned fun s' => tidy_ret fun b hb => ?_
    have hnone : (localStep cfg s argv).1.pin = none := by
      generalize localStep cfg s argv = r at hlocal ⊢
      cases hlocal with
      | reset => rfl
      | pass hn => simp [hreset.1, hreset.2, localNames] at hn
      | noAuth hn => simp [hreset.2, localNames] at hn
      | answer _ hn => simp [hreset.2] at hn
      | auth hn => simp [hreset.2] at hn
      | quit hn => simp [hreset.2] at hn
    rw [pinned_none hnone, ← pinned_none (s := s.unpin) rfl]
    exact hb.2
  · next hreset =>
    refine tidy_ret fun b hb => ?_
    have hsame : (localStep cfg s argv).1.pin = s.pin := by
      generalize localStep cfg s argv = r at hlocal ⊢
      cases hlocal with
      | reset hc hn => exact absurd ⟨hc, hn⟩ hreset
      | _ => rfl
    rwa [pinned_congr hsame]

theorem handle_keeps : KeepsPin s (handle cfg s c) := by
  unfold handle
  split
  · split
    · exact keepsPin_ret rfl _
    · exact handleSub_keeps _
  · split
    · exact finish_keepsPin selectStep_pin _ _
    · refine Tidy.bind (handleLocal_pinned c.argv) ?_
      rintro ⟨s', answer⟩
      cases answer with
      | some v => exact finish_keepsPin rfl _ _
      | none => exact handleRemote_keeps

end RespProxy.Proxy
