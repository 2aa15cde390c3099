import RespProxy.PubSub.Acks

/-! # The end of a subscribed session (`cleanup`, `Session.Close`)

`cleanup` runs when the client's goroutine has left its loop. It calls `Close`, which
cancels the context of each backend and drops its connection, and then closes the
channel `pushCh` that the forwarders send to. Nothing waits for the forwarders.

`Life` is the machine of `Machine.lean` with the parts of it that matter here: the
mutex that `Close` holds, the contexts, where in its loop a forwarder is, and the
channel `pushCh`. A forwarder that has a push when the channel is closed may still
choose to send it, which is a panic. As long as none has one, and none reads one
afterwards (`Drained`), every send comes before the channel is closed.
-/

namespace RespProxy.PubSub

open Cluster Command Resp Proxy

/-! ## The machine -/

/-- Where `cleanup` is. -/
inductive Cleanup where
  /-- not called yet -/
  | serving
  /-- `Close` has the mutex, and these connections still to stop -/
  | closing (left : List ConnId)
  /-- `Close` has returned -/
  | returned
  /-- `pushCh` is closed -/
  | done
deriving DecidableEq, Repr

/-- A subscribed session and its end. -/
structure Life where
  session : State := {}
  cleanup : Cleanup := .serving
  /-- the connections whose forwarder was started -/
  forwarders : List ConnId := []
  /-- the connections whose forwarder is in `conn.Read` -/
  inRead : List ConnId := []
  /-- the connections whose context `Close` has cancelled -/
  cancelled : List ConnId := []
  /-- the context of the session itself is done -/
  shut : Bool := false
  /-- the buffer of `pushCh` -/
  pushes : List Value := []
  panicked : Bool := false

inductive Act where
  /-- a step of a goroutine of the session, or of a backend -/
  | step (l : Label)
  /-- `forward`: finds its context alive and calls `Read` -/
  | enter (c : ConnId)
  /-- `forward`: `Read` fails, not at the end of the stream -/
  | retry (c : ConnId)
  /-- `writePushes` receives from `pushCh` -/
  | deliver
  /-- the context of the session is cancelled -/
  | shutdown
  /-- `Close` takes the mutex; the connections come in the order of a `range` -/
  | lock (order : List ConnId)
  /-- `Close`: stops the next backend -/
  | cancel
  /-- `Close`: empties the maps and returns -/
  | unlock
  /-- `close(s.pushCh)` -/
  | closePushCh

/-- The push `forward` is about to send. -/
def Reader.pushed : Reader → Option Value
  | .pushing v => some v
  | _ => none

/-- `Close` has the mutex. -/
def Cleanup.locked : Cleanup → Bool
  | .closing _ => true
  | _ => false

variable (cfg : Config) (mode : Mode) (src : Origin)

/-- The context of a forwarder is done. -/
def Life.ended (s : Life) (c : ConnId) : Bool := s.shut || s.cancelled.contains c

/-- What the mutex, the contexts, `Read` and `pushCh` let happen. -/
def Life.allows (s : Life) : Label → Bool
  | .command _ => decide (s.cleanup = .serving)
  | .keys _ _ | .subsAddr _ | .backend _ | .addBackend _ | .subsAdd _ | .subsDel _ | .check _ =>
    !s.cleanup.locked
  | .read c => s.inRead.contains c
  -- a closed channel is always ready to send to
  | .push _ => decide (s.cleanup = .done) || decide (s.pushes.length < 64)
  | .stop c =>
    match (s.session.conns c).reader with
    | .reading => s.inRead.contains c || s.ended c
    | .sending _ | .pushing _ => s.ended c
    | _ => false
  | _ => true

/-- The connection whose forwarder a goroutine is about to start. -/
def State.starting (s : State) (t : Tid) : Option ConnId :=
  match s.prog t with
  | some (.call (.addBackend _ c) _) => some c
  | _ => none

/-- The rest of the machine behind a step. -/
def Life.after (s : Life) (l : Label) (session : State) : Life :=
  match l with
  | .addBackend t =>
    { s with session, forwarders := (s.session.starting t).toList ++ s.forwarders }
  | .read c | .stop c => { s with session, inRead := s.inRead.filter (· ≠ c) }
  | .push c =>
    if s.cleanup = .done then { s with session, panicked := true }
    else { s with session, pushes := s.pushes ++ (s.session.conns c).reader.pushed.toList }
  | _ => { s with session }

def Life.next (s : Life) (a : Act) : Option Life :=
  if s.panicked then none
  else match a with
  | .step l => if s.allows l then (s.session.next cfg mode src l).map (s.after l) else none
  | .enter c =>
    if (s.session.conns c).reader = .reading ∧ c ∉ s.inRead ∧ s.ended c = false then
      some { s with inRead := c :: s.inRead }
    else none
  | .retry c =>
    if c ∈ s.inRead then some { s with inRead := s.inRead.filter (· ≠ c) } else none
  | .deliver =>
    match s.pushes with
    | _ :: pushes => some { s with pushes }
    | [] => none
  | .shutdown => some { s with shut := true }
  | .lock order =>
    if s.cleanup = .serving ∧ (s.session.threads 0).isNone = true ∧
        order.isPerm (s.session.backends.entries.map Sigma.snd) = true then
      some { s with cleanup := .closing order }
    else none
  | .cancel =>
    match s.cleanup with
    | .closing (c :: left) =>
      some { s with cleanup := .closing left, cancelled := c :: s.cancelled }
    | _ => none
  | .unlock =>
    match s.cleanup with
    | .closing [] =>
      some { s with cleanup := .returned, session := { s.session with backends := ∅, subs := ∅ } }
    | _ => none
  | .closePushCh =>
    if s.cleanup = .returned then some { s with cleanup := .done } else none

/-! ## Sends and the closed channel -/

/-- No forwarder takes the branch that sends on `pushCh` behind its closing. -/
def SendsOpen (tr : List Act) : Prop :=
  ∀ pre c post, tr = pre ++ .step (.push c) :: post → .closePushCh ∉ pre

/-- No forwarder has a push when `pushCh` is closed, and none reads one afterwards. -/
def Drained (s : Life) : Act → Prop
  | .closePushCh => ∀ c ∈ s.forwarders, (s.session.conns c).reader.pushed = none
  | .step (.read c) => s.cleanup = .done →
      ∀ r ∈ (s.session.conns c).replies.head?, (dispatch mode r).pushed = none
  | _ => True

instance (s : Life) : (a : Act) → Decidable (Drained mode s a)
  | .closePushCh => inferInstanceAs
      (Decidable (∀ c ∈ s.forwarders, (s.session.conns c).reader.pushed = none))
  | .step (.read c) => inferInstanceAs (Decidable (s.cleanup = .done →
      ∀ r ∈ (s.session.conns c).replies.head?, (dispatch mode r).pushed = none))
  | .step (.command _) | .step (.ret _) | .step (.load _ _) | .step (.get _ _)
  | .step (.write _ _ _) | .step (.ack _) | .step (.timeout _ _) | .step (.keys _ _)
  | .step (.subsAddr _) | .step (.backend _) | .step (.addBackend _) | .step (.subsAdd _)
  | .step (.subsDel _) | .step (.check _) | .step (.send _) | .step (.push _) | .step (.stop _)
  | .step (.serve _) | .step (.force _ _) | .step (.publish _ _) | .enter _ | .retry _ | .deliver
  | .shutdown | .lock _ | .cancel | .unlock => inferInstanceAs (Decidable True)

variable {cfg mode src}

/-- What a step makes of the reader of a connection. -/
inductive Moves (mode : Mode) (c : ConnId) (s s' : State) : Label → Prop where
  | same {l : Label} (h : (s'.conns c).reader = (s.conns c).reader) : Moves mode c s s' l
  | start {t : Tid} (ht : s.starting t = some c) (h : (s'.conns c).reader = .reading) :
      Moves mode c s s' (.addBackend t)
  | read {r : Reply} (hr : r ∈ (s.conns c).replies.head?) (hon : (s.conns c).reader ≠ .off)
      (h : (s'.conns c).reader = dispatch mode r) : Moves mode c s s' (.read c)
  | go {l : Label} (hon : (s.conns c).reader ≠ .off) (h : (s'.conns c).reader.pushed = none) :
      Moves mode c s s' l
  | stop (h : (s'.conns c).reader = .stopped) : Moves mode c s s' (.stop c)

/-- A step moves the reader of one connection at most. -/
theorem moves_of_conns {s s' : State} {l : Label} {c d : ConnId} {conn : Conn}
    (hs' : s'.conns = (s.setConn d conn).conns)
    (h : (s'.conns d).reader = conn.reader → Moves mode d s s' l) : Moves mode c s s' l := by
  have hconn : ∀ e, s'.conns e = if e = d then conn else s.conns e := fun e => by rw [hs']; rfl
  rcases eq_or_ne c d with rfl | hcd
  · exact h (by rw [hconn, if_pos rfl])
  · exact .same (by rw [hconn, if_neg hcd])

theorem moves_of_step {s s' : State} {l : Label} (h : Step cfg mode src s l s') (c : ConnId) :
    Moves mode c s s' l := by
  cases h with
  | command | ret | load | refused | got | unsent | timeout | keys | subsAddr | backend | subsAdd
  | subsDel => exact .same rfl
  | written hp => exact moves_of_conns rfl .same
  | ack hp => exact moves_of_conns rfl .same
  | serve hw => exact moves_of_conns rfl .same
  | force hx => exact moves_of_conns rfl .same
  | publish hv => exact moves_of_conns rfl .same
  | addBackend hp => exact moves_of_conns rfl (.start (by rw [State.starting, hp]))
  | read hr hreplies =>
    exact moves_of_conns rfl (.read (by rw [hreplies]; rfl) (by rw [hr]; decide))
  | resub hr hch => exact moves_of_conns rfl fun h => .go (by rw [hr]; simp) (by rw [h]; rfl)
  | pass hr hch => exact moves_of_conns rfl fun h => .go (by rw [hr]; simp) (by rw [h]; rfl)
  | send hr hroom => exact moves_of_conns rfl fun h => .go (by rw [hr]; simp) (by rw [h]; rfl)
  | push hr => exact moves_of_conns rfl fun h => .go (by rw [hr]; simp) (by rw [h]; rfl)
  | stop => exact moves_of_conns rfl .stop

/-! ## The invariant -/

structure DrainInv (tr : List Act) (s : Life) : Prop where
  /-- a forwarder that was not started is nowhere -/
  off : ∀ c, c ∉ s.forwarders → (s.session.conns c).reader = .off
  closed : .closePushCh ∈ tr → s.cleanup = .done
  drained : s.cleanup = .done → ∀ c, (s.session.conns c).reader.pushed = none
  sends : SendsOpen tr

theorem sendsOpen_snoc {tr : List Act} {a : Act} (h : SendsOpen tr)
    (ha : ∀ c, a = .step (.push c) → .closePushCh ∉ tr) : SendsOpen (tr ++ [a]) := by
  intro pre c post htr
  rcases List.eq_nil_or_concat post with rfl | ⟨post, b, rfl⟩
  · obtain ⟨rfl, hlast⟩ := List.append_inj' htr rfl
    exact ha c (List.cons.inj hlast).1
  · rw [List.concat_eq_append, ← List.cons_append, ← List.append_assoc] at htr
    exact h pre c post (List.append_inj' htr rfl).1

section

variable (s : Life) (l : Label) (session : State)

@[simp] theorem Life.after_session : (s.after l session).session = session := by
  unfold Life.after
  split <;> try rfl
  split <;> rfl

@[simp] theorem Life.after_cleanup : (s.after l session).cleanup = s.cleanup := by
  unfold Life.after
  split <;> try rfl
  split <;> rfl

theorem Life.forwarders_after {c : ConnId} (h : c ∉ (s.after l session).forwarders) :
    c ∉ s.forwarders := by
  intro hc
  refine h ?_
  unfold Life.after
  split <;> try exact hc
  · exact List.mem_append_right _ hc
  · split <;> exact hc

end

/-- A step of the session. -/
theorem DrainInv.step {tr : List Act} {s : Life} {l : Label} {session : State}
    (h : DrainInv tr s) (hallow : s.allows l = true) (hC : Drained mode s (.step l))
    (hstep : Step cfg mode src s.session l session) :
    DrainInv (tr ++ [.step l]) (s.after l session) where
  off c hc := by
    have hoff := h.off c (s.forwarders_after l session hc)
    rw [Life.after_session]
    cases moves_of_step hstep c with
    | same heq => rw [heq, hoff]
    | @start t ht _ =>
      have hmem : c ∈ (s.session.starting t).toList := by
        rw [ht]
        exact List.mem_singleton_self c
      exact absurd (List.mem_append_left _ hmem) hc
    | read _ hon _ | go hon _ => exact absurd hoff hon
    | stop _ =>
      -- `forward` returns only from where it is
      rw [Life.allows, hoff] at hallow
      cases hallow
  closed hmem := by
    rw [Life.after_cleanup]
    exact h.closed (by simpa using hmem)
  drained hdone c := by
    rw [Life.after_cleanup] at hdone
    rw [Life.after_session]
    cases moves_of_step hstep c with
    | same heq => rw [heq, h.drained hdone c]
    | start _ heq | stop heq => rw [heq]; rfl
    | read hr _ heq => rw [heq, hC hdone _ hr]
    | go _ heq => exact heq
  sends := by
    refine sendsOpen_snoc h.sends ?_
    intro c hl hmem
    cases Act.step.inj hl
    cases hstep with
    | push hr =>
      have hnone := h.drained (h.closed hmem) c
      rw [hr] at hnone
      cases hnone

theorem DrainInv.next {tr : List Act} {s s' : Life} {a : Act} (h : DrainInv tr s)
    (hC : Drained mode s a) (hnext : s.next cfg mode src a = some s') :
    DrainInv (tr ++ [a]) s' := by
  -- what is neither a step of the session nor the closing of `pushCh` keeps the readers
  have hother : a ≠ .closePushCh → (∀ c, a ≠ .step (.push c)) → s'.forwarders = s.forwarders →
      s'.session.conns = s.session.conns → (s'.cleanup = .done ↔ s.cleanup = .done) →
      DrainInv (tr ++ [a]) s' := by
    intro hclose hpush hf hconns hdone
    constructor
    · intro c hc
      rw [hconns]
      exact h.off c (hf ▸ hc)
    · intro hmem
      exact hdone.2 (h.closed (by simpa [hclose.symm] using hmem))
    · intro hd c
      rw [hconns]
      exact h.drained (hdone.1 hd) c
    · exact sendsOpen_snoc h.sends fun c hc => absurd hc (hpush c)
  unfold Life.next at hnext
  split at hnext
  · cases hnext
  cases a with
  | step l =>
    dsimp only at hnext
    split at hnext
    · next hallow =>
      obtain ⟨session, hsession, rfl⟩ := Option.map_eq_some_iff.1 hnext
      exact h.step hallow hC (step_of_next hsession)
    · cases hnext
  | enter | retry | deliver =>
    dsimp only at hnext
    split at hnext
    · cases hnext
      exact hother (by simp) (by simp) rfl rfl Iff.rfl
    · cases hnext
  | shutdown =>
    cases hnext
    exact hother (by simp) (by simp) rfl rfl Iff.rfl
  | lock | cancel | unlock =>
    dsimp only at hnext
    split at hnext
    · next hclosing =>
      cases hnext
      exact hother (by simp) (by simp) rfl rfl (by simp [hclosing])
    · cases hnext
  | closePushCh =>
    dsimp only at hnext
    split at hnext
    · cases hnext
      constructor
      · exact h.off
      · exact fun _ => rfl
      · intro _ c
        by_cases hc : c ∈ s.forwarders
        · exact hC c hc
        · exact congrArg Reader.pushed (h.off c hc)
      · exact sendsOpen_snoc h.sends fun c hc => by cases hc
    · cases hnext

/-- **Closing.** In a run in which no forwarder has a push when `pushCh` is closed, and none
reads one afterwards, no forwarder sends on the closed channel. -/
theorem sendsOpen_of_drained {tr : List Act} {s : Life}
    (hdrained : Machine.Meets (Life.next cfg mode src) (Drained mode) {} tr)
    (hrun : Machine.exec (Life.next cfg mode src) {} tr = some s) : SendsOpen tr := by
  have hinit : DrainInv [] {} := by
    constructor
    · exact fun _ _ => rfl
    · exact fun hmem => by cases hmem
    · exact fun _ _ => rfl
    · intro pre c post htr
      simp at htr
  have hinv := Machine.invariant_of_meets (I := DrainInv) hinit
    (fun _ _ _ _ _ hI hC hnext => hI.next hC hnext) hdrained hrun
  exact hinv.sends

/-- The channel `a` is subscribed to, and a message for it read. -/
def messageA : List Act :=
  let subscribe : List Act := [.step (.command [arg "SUBSCRIBE", arg "a"]), .step (.load 0 none),
    .step (.load 0 none), .step (.backend 0), .step (.get 0 (.ok 7)), .step (.addBackend 0),
    .step (.write 0 none true), .step (.serve 7), .enter 7, .step (.read 7), .step (.send 7),
    .step (.ack 0), .step (.subsAdd 0), .step (.ret 0)]
  let message := array [bulkString (arg "message"), bulkString (arg "a"), bulkString (arg "hi")]
  subscribe ++ [.step (.publish 7 message), .enter 7, .step (.read 7)]

/-- `cleanup`. -/
def cleanUp : List Act := [.lock [7], .cancel, .unlock, .closePushCh]

theorem sendsOpen_of_drained_message : ∃ s,
    Machine.exec (Life.next seeded .passthrough .refresh) {}
      (messageA ++ [.step (.push 7), .enter 7] ++ cleanUp ++ [.step (.stop 7)]) = some s ∧
    SendsOpen (messageA ++ [.step (.push 7), .enter 7] ++ cleanUp ++ [.step (.stop 7)]) := by
  have hsome : (Machine.exec (Life.next seeded .passthrough .refresh) {}
      (messageA ++ [.step (.push 7), .enter 7] ++ cleanUp ++ [.step (.stop 7)])).isSome = true := by
    decide +kernel
  obtain ⟨s, hs⟩ := Option.isSome_iff_exists.1 hsome
  exact ⟨s, hs, sendsOpen_of_drained (Machine.meets_of_checked (by decide +kernel)) hs⟩

/-- The forwarder has read the message when `cleanup` runs, and sends it. -/
theorem send_on_closed_pushCh : ¬ ∀ tr s,
    Machine.exec (Life.next seeded .passthrough .refresh) {} tr = some s → SendsOpen tr := by
  intro h
  have hpanics : (Machine.exec (Life.next seeded .passthrough .refresh) {}
      (messageA ++ cleanUp ++ [.step (.push 7)])).map Life.panicked = some true := by
    decide +kernel
  obtain ⟨s, hs, -⟩ := Option.map_eq_some_iff.1 hpanics
  exact h _ s hs (messageA ++ cleanUp) 7 [] rfl (by simp [cleanUp])

end RespProxy.PubSub
