import Mathlib.Algebra.Group.Nat.Defs
import RespProxy.Lib.Machine

/-! # The connection pool (`internal/pool/pool.go`)

A pool hands out connections through a buffered channel `conns`; callers that find
it empty dial a new connection or, at the limit, park on the channel. The steps
below are the atomic steps of `Get`, `Put`, `Drop` and `Close`, and callers
interleave in any way. A caller is one `Get` with what follows for its connection:
code that holds several connections counts as several callers.

A connection that is dropped, or a dial that fails, wakes nobody. So a parked `Get`
can be left without a connection that could still come back, unless every such
step leaves another one behind (`Backed`).
-/

namespace RespProxy.Pool

variable {l : Label} {onClosed pc : Pc}

abbrev ConnId := Nat
abbrev Caller := Nat

/-- The fields of `Options` that decide about connections. -/
structure Options where
  minIdle : Int := 0
  maxSize : Int

/-- Where a caller is. -/
inductive Pc where
  /-- in no call, with no connection -/
  | out
  /-- in `Get`, the pool was open -/
  | entered
  /-- in `Get`, the channel was empty -/
  | polled
  /-- in `Get`, with the value of `active` -/
  | counted (active : Int)
  /-- in `Get`, in `dial` -/
  | dialing
  /-- in `Get`, behind a `dial` that failed -/
  | failed
  /-- in `Get`, ahead of the last `select` -/
  | choosing
  /-- in `Get`, parked in the last `select` -/
  | parked
  /-- in `Get`, with a connection to return -/
  | got (c : ConnId)
  /-- in no call, with a checked-out connection -/
  | holding (c : ConnId)
  /-- in `Put`, ahead of the lock -/
  | putting (c : ConnId)
  /-- in `Put`, with the lock -/
  | returning (c : ConnId)
  /-- in `Drop`, ahead of `c.close` -/
  | dropping (c : ConnId)
  /-- in `Close`, with the lock -/
  | closing
  /-- in `Close`, `closed` is set -/
  | sealing
  /-- in `Close`, the channel is closed -/
  | draining
deriving DecidableEq, Repr

/-- The pool and its callers. `idle` is the buffer of the channel and `recvq` the queue of
its parked receivers. -/
structure State where
  maxSize : Int
  idle : List ConnId := []
  recvq : List Caller := []
  active : Int := 0
  closed : Bool := false
  sealed : Bool := false
  mu : Option Caller := none
  pc : Caller → Pc := fun _ => .out

/-- `New`, when `dials` are the connections that were dialed before an error. -/
def new (opts : Options) (dials : List ConnId) : State :=
  let maxSize := if opts.maxSize < 1 then 1 else opts.maxSize
  { maxSize, idle := dials.take (min opts.minIdle maxSize).toNat }

/-- 32-bit arithmetic of `active`. -/
def wrap32 (n : Int) : Int := n.bmod (2 ^ 32)

/-- The atomic steps. -/
inductive Label where
  /-- `Get`: `p.closed.Load()` -/
  | get (i : Caller)
  /-- `Get`: the first `select` -/
  | poll (i : Caller)
  /-- `Get`: `p.active.Load()` -/
  | load (i : Caller)
  /-- `Get`: `len(p.conns)`, and the comparison with `MaxSize` -/
  | compare (i : Caller)
  /-- `Get`: `dial` returns a connection -/
  | dialed (i : Caller) (c : ConnId)
  /-- `Get`: `dial` returns an error -/
  | dialFailed (i : Caller)
  /-- `Get`: `ctx.Err()` behind a failed dial -/
  | ctxErr (i : Caller) (done : Bool)
  /-- `Get`: the last `select` receives, or parks -/
  | select (i : Caller)
  /-- `Get`: the last `select` takes `ctx.Done()` -/
  | cancel (i : Caller)
  /-- `Get`: `p.active.Add(1)`, and returns -/
  | checkOut (i : Caller)
  /-- `Put`: `p.active.Add(-1)` -/
  | put (i : Caller)
  /-- `Put`: `p.mu.Lock()` -/
  | lock (i : Caller)
  /-- `Put`: `p.closed.Load()`, the `select`, and unlocks -/
  | send (i : Caller)
  /-- `Drop`: `p.active.Add(-1)` -/
  | drop (i : Caller)
  /-- `Drop`: `c.close()` -/
  | discard (i : Caller)
  /-- `Close`: `p.mu.Lock()` -/
  | close (i : Caller)
  /-- `Close`: `p.closed.Swap(true)` -/
  | swap (i : Caller)
  /-- `Close`: `close(p.conns)` -/
  | closeConns (i : Caller)
  /-- `Close`: one round of the drain loop; at its end, unlocks -/
  | drain (i : Caller)
deriving DecidableEq, Repr

def State.goto (p : State) (i : Caller) (pc : Pc) : State :=
  { p with pc := fun j => if j = i then pc else p.pc j }

/-- A receive from the channel that does not park: a connection, `none` from a closed
channel. -/
def State.receive (p : State) (i : Caller) (onClosed : Pc) : Option State :=
  match p.idle with
  | c :: idle => some { p.goto i (.got c) with idle }
  | [] => if p.sealed then some (p.goto i onClosed) else none

/-- The `select` of `Put`: to a parked receiver, into the buffer, or the connection is
closed. -/
def State.offer (p : State) (c : ConnId) : State :=
  match p.recvq with
  | j :: recvq => { p.goto j (.got c) with recvq }
  | [] => if (p.idle.length : Int) < p.maxSize then { p with idle := p.idle ++ [c] } else p

def State.next (p : State) : Label → Option State
  | .get i =>
    match p.pc i with
    | .out => some (p.goto i (if p.closed then .out else .entered))
    | _ => none
  | .poll i =>
    match p.pc i with
    | .entered => some ((p.receive i .polled).getD (p.goto i .polled))
    | _ => none
  | .load i =>
    match p.pc i with
    | .polled => some (p.goto i (.counted p.active))
    | _ => none
  | .compare i =>
    match p.pc i with
    | .counted active =>
      some (p.goto i (if active + p.idle.length < p.maxSize then .dialing else .choosing))
    | _ => none
  | .dialed i c =>
    match p.pc i with
    | .dialing => some (p.goto i (.got c))
    | _ => none
  | .dialFailed i =>
    match p.pc i with
    | .dialing => some (p.goto i .failed)
    | _ => none
  | .ctxErr i done =>
    match p.pc i with
    | .failed => some (p.goto i (if done then .out else .choosing))
    | _ => none
  | .select i =>
    match p.pc i with
    | .choosing =>
      some ((p.receive i .out).getD { p.goto i .parked with recvq := p.recvq ++ [i] })
    | _ => none
  | .cancel i =>
    match p.pc i with
    | .choosing => some (p.goto i .out)
    | .parked => some { p.goto i .out with recvq := p.recvq.erase i }
    | _ => none
  | .checkOut i =>
    match p.pc i with
    | .got c => some { p.goto i (.holding c) with active := wrap32 (p.active + 1) }
    | _ => none
  | .put i =>
    match p.pc i with
    | .holding c => some { p.goto i (.putting c) with active := wrap32 (p.active - 1) }
    | _ => none
  | .lock i =>
    match p.pc i, p.mu with
    | .putting c, none => some { p.goto i (.returning c) with mu := some i }
    | _, _ => none
  | .send i =>
    match p.pc i with
    | .returning c =>
      let p := { p.goto i .out with mu := none }
      some (if p.closed then p else p.offer c)
    | _ => none
  | .drop i =>
    match p.pc i with
    | .holding c => some { p.goto i (.dropping c) with active := wrap32 (p.active - 1) }
    | _ => none
  | .discard i =>
    match p.pc i with
    | .dropping _ => some (p.goto i .out)
    | _ => none
  | .close i =>
    match p.pc i, p.mu with
    | .out, none => some { p.goto i .closing with mu := some i }
    | _, _ => none
  | .swap i =>
    match p.pc i with
    | .closing =>
      some (if p.closed then { p.goto i .out with mu := none }
        else { p.goto i .sealing with closed := true })
    | _ => none
  | .closeConns i =>
    match p.pc i with
    | .sealing =>
      -- every parked receiver gets nil and returns
      some { p with sealed := true, recvq := [],
                    pc := fun j => if j = i then .draining else if j ∈ p.recvq then .out else p.pc j }
    | _ => none
  | .drain i =>
    match p.pc i, p.idle with
    | .draining, _ :: idle => some { p with idle }
    | .draining, [] => some { p.goto i .out with mu := none }
    | _, _ => none

/-! ## What a step can do -/

/-- The pool behind `close(p.conns)`, which wakes the parked receivers. -/
def State.sealConns (p : State) (i : Caller) : State :=
  { p with sealed := true, recvq := [],
           pc := fun j => if j = i then .draining else if j ∈ p.recvq then .out else p.pc j }

/-- The steps of the pool, one case for each way through `State.next`. -/
inductive Step (p : State) : Label → State → Prop where
  | get {i : Caller} (hi : p.pc i = .out) :
    Step p (.get i) (p.goto i (if p.closed then .out else .entered))
  | polled {i : Caller} {p' : State} (hi : p.pc i = .entered)
    (h : p.receive i .polled = some p') : Step p (.poll i) p'
  | missed {i : Caller} (hi : p.pc i = .entered) : Step p (.poll i) (p.goto i .polled)
  | load {i : Caller} (hi : p.pc i = .polled) : Step p (.load i) (p.goto i (.counted p.active))
  | dial {i : Caller} {active : Int} (hi : p.pc i = .counted active)
    (h : active + p.idle.length < p.maxSize) : Step p (.compare i) (p.goto i .dialing)
  | full {i : Caller} {active : Int} (hi : p.pc i = .counted active)
    (h : ¬ active + p.idle.length < p.maxSize) : Step p (.compare i) (p.goto i .choosing)
  | dialed {i : Caller} {c : ConnId} (hi : p.pc i = .dialing) :
    Step p (.dialed i c) (p.goto i (.got c))
  | dialFailed {i : Caller} (hi : p.pc i = .dialing) : Step p (.dialFailed i) (p.goto i .failed)
  | expired {i : Caller} (hi : p.pc i = .failed) : Step p (.ctxErr i true) (p.goto i .out)
  | waits {i : Caller} (hi : p.pc i = .failed) : Step p (.ctxErr i false) (p.goto i .choosing)
  | selected {i : Caller} {p' : State} (hi : p.pc i = .choosing)
    (h : p.receive i .out = some p') : Step p (.select i) p'
  | park {i : Caller} (hi : p.pc i = .choosing) :
    Step p (.select i) { p.goto i .parked with recvq := p.recvq ++ [i] }
  | cancel {i : Caller} (hi : p.pc i = .choosing) : Step p (.cancel i) (p.goto i .out)
  | unpark {i : Caller} (hi : p.pc i = .parked) :
    Step p (.cancel i) { p.goto i .out with recvq := p.recvq.erase i }
  | checkOut {i : Caller} {c : ConnId} (hi : p.pc i = .got c) :
    Step p (.checkOut i) { p.goto i (.holding c) with active := wrap32 (p.active + 1) }
  | put {i : Caller} {c : ConnId} (hi : p.pc i = .holding c) :
    Step p (.put i) { p.goto i (.putting c) with active := wrap32 (p.active - 1) }
  | lock {i : Caller} {c : ConnId} (hi : p.pc i = .putting c) (hmu : p.mu = none) :
    Step p (.lock i) { p.goto i (.returning c) with mu := some i }
  | send {i : Caller} {c : ConnId} (hi : p.pc i = .returning c) :
    Step p (.send i) (if p.closed then { p.goto i .out with mu := none }
      else State.offer { p.goto i .out with mu := none } c)
  | drop {i : Caller} {c : ConnId} (hi : p.pc i = .holding c) :
    Step p (.drop i) { p.goto i (.dropping c) with active := wrap32 (p.active - 1) }
  | discard {i : Caller} {c : ConnId} (hi : p.pc i = .dropping c) :
    Step p (.discard i) (p.goto i .out)
  | close {i : Caller} (hi : p.pc i = .out) (hmu : p.mu = none) :
    Step p (.close i) { p.goto i .closing with mu := some i }
  | again {i : Caller} (hi : p.pc i = .closing) (h : p.closed = true) :
    Step p (.swap i) { p.goto i .out with mu := none }
  | swap {i : Caller} (hi : p.pc i = .closing) (h : p.closed = false) :
    Step p (.swap i) { p.goto i .sealing with closed := true }
  | closeConns {i : Caller} (hi : p.pc i = .sealing) : Step p (.closeConns i) (p.sealConns i)
  | drain {i : Caller} {c : ConnId} {idle : List ConnId} (hi : p.pc i = .draining)
    (hidle : p.idle = c :: idle) : Step p (.drain i) { p with idle }
  | drained {i : Caller} (hi : p.pc i = .draining) (hidle : p.idle = []) :
    Step p (.drain i) { p.goto i .out with mu := none }

theorem step_of_next {p p' : State} (h : p.next l = some p') : Step p l p' := by
  cases l with
  -- the actions with one outcome, then those that look at the pool
  | get i | load i | dialed i c | dialFailed i | checkOut i | put i | send i | drop i | discard i
  | closeConns i =>
    simp only [State.next] at h
    split at h
    · cases h
      constructor
      assumption
    · cases h
  | poll i =>
    simp only [State.next] at h
    split at h
    · rename_i hi
      cases h
      cases hr : p.receive i .polled with
      | some p₁ => exact .polled hi hr
      | none => exact .missed hi
    · cases h
  | compare i =>
    simp only [State.next] at h
    split at h
    · rename_i active hi
      cases h
      split
      · exact .dial hi ‹_›
      · exact .full hi ‹_›
    · cases h
  | ctxErr i done =>
    simp only [State.next] at h
    split at h
    · rename_i hi
      cases h
      cases done with
      | true => exact .expired hi
      | false => exact .waits hi
    · cases h
  | select i =>
    simp only [State.next] at h
    split at h
    · rename_i hi
      cases h
      cases hr : p.receive i .out with
      | some p₁ => exact .selected hi hr
      | none => exact .park hi
    · cases h
  | cancel i =>
    simp only [State.next] at h
    split at h
    · cases h
      exact .cancel ‹_›
    · cases h
      exact .unpark ‹_›
    · cases h
  | lock i =>
    simp only [State.next] at h
    split at h
    · cases h
      exact .lock ‹_› ‹_›
    · cases h
  | close i =>
    simp only [State.next] at h
    split at h
    · cases h
      exact .close ‹_› ‹_›
    · cases h
  | swap i =>
    simp only [State.next] at h
    split at h
    · rename_i hi
      cases h
      cases hclosed : p.closed with
      | true => exact .again hi hclosed
      | false => exact .swap hi hclosed
    · cases h
  | drain i =>
    simp only [State.next] at h
    split at h
    · cases h
      exact .drain ‹_› ‹_›
    · cases h
      exact .drained ‹_› ‹_›
    · cases h

/-- A receive takes a connection, or sees that the channel is closed. -/
theorem receive_cases {p p' : State} {i : Caller} (h : p.receive i onClosed = some p') :
    (∃ c idle, p.idle = c :: idle ∧ p' = { p.goto i (.got c) with idle }) ∨
      (p.sealed = true ∧ p' = p.goto i onClosed) := by
  unfold State.receive at h
  split at h
  · rename_i c idle hidle
    exact .inl ⟨c, idle, hidle, (Option.some.inj h).symm⟩
  · split at h
    · exact .inr ⟨‹_›, (Option.some.inj h).symm⟩
    · cases h

/-- `Put` hands the connection to a receiver, puts it into the channel, or finds it full. -/
theorem offer_cases (p : State) (c : ConnId) :
    (∃ j recvq, p.recvq = j :: recvq ∧ p.offer c = { p.goto j (.got c) with recvq }) ∨
      (p.recvq = [] ∧ (p.idle.length : Int) < p.maxSize ∧
        p.offer c = { p with idle := p.idle ++ [c] }) ∨
      (p.recvq = [] ∧ p.maxSize ≤ p.idle.length ∧ p.offer c = p) := by
  unfold State.offer
  split
  · exact .inl ⟨_, _, ‹_›, rfl⟩
  · split
    · exact .inr (.inl ⟨‹_›, ‹_›, rfl⟩)
    · exact .inr (.inr ⟨‹_›, Int.not_lt.1 ‹_›, rfl⟩)

/-! ## Connections that can come back -/

/-- The caller has, or is about to have, a connection that a later `Put` can return. -/
def Pc.Backs : Pc → Prop
  | .dialing | .got _ | .holding _ | .putting _ | .returning _ => True
  | _ => False

/-- Some connection of the pool is idle, checked out or being dialed. -/
def State.Live (p : State) : Prop := p.idle ≠ [] ∨ ∃ i, (p.pc i).Backs

/-- The same, without the one of caller `i`. -/
def State.LiveWithout (p : State) (i : Caller) : Prop :=
  p.idle ≠ [] ∨ ∃ j, j ≠ i ∧ (p.pc j).Backs

/-- The caller waits for a connection, or has seen one that it is going to wait for. -/
def Pc.Waits : Pc → Prop
  | .parked | .choosing => True
  | .counted active => 1 ≤ active
  | _ => False

/-- The condition on `Drop` and on dials that fail: another connection is idle, checked out
or being dialed, or nobody waits for one. -/
def Backed (p : State) : Label → Prop
  | .drop i | .dialFailed i => p.LiveWithout i ∨ ∀ j, ¬ (p.pc j).Waits
  | .ctxErr _ false => p.Live
  | _ => True

/-! ## The invariant -/

variable {p p' : State} {i j : Caller} {c : ConnId}

/-- `active` counts the holders. -/
def State.Counted (p : State) : Prop :=
  ∃ hs : List Caller, hs.Nodup ∧ (∀ i, i ∈ hs ↔ ∃ c, p.pc i = .holding c) ∧
    p.active = wrap32 hs.length

/-- The receivers in the queue are parked. -/
def State.Queued (p : State) : Prop := p.recvq.Nodup ∧ ∀ i ∈ p.recvq, p.pc i = .parked

/-- The channel is closed and drained only when `closed` is set. -/
def State.Shut (p : State) : Prop :=
  ∀ i, p.pc i = .sealing ∨ p.pc i = .draining → p.closed = true

/-- What holds at any time; while the pool is open, a caller that waits has a connection to
wait for. -/
structure Inv (p : State) : Prop where
  size : 1 ≤ p.maxSize
  holders : p.Counted
  queue : p.Queued
  shut : p.Shut
  backed : p.closed = false → (∃ i, (p.pc i).Waits) → p.Live

@[simp] theorem goto_self (p : State) (i : Caller) (pc : Pc) : (p.goto i pc).pc i = pc := by
  simp [State.goto]

theorem goto_other (p : State) (pc : Pc) (h : j ≠ i) : (p.goto i pc).pc j = p.pc j := by
  simp [State.goto, h]

theorem backs_goto (p : State) (i : Caller) (h : pc.Backs) : ((p.goto i pc).pc i).Backs := by
  rwa [goto_self]

/-- A caller that backs nobody may go on. -/
theorem State.Live.goto (h : p.Live) (hi : ¬ (p.pc i).Backs) (pc : Pc) : (p.goto i pc).Live := by
  refine h.imp id ?_
  rintro ⟨j, hj⟩
  have hne : j ≠ i := by
    rintro rfl
    exact hi hj
  exact ⟨j, by rwa [goto_other p pc hne]⟩

theorem live_of_without (h : p.LiveWithout i) : (p.goto i pc).Live := by
  refine h.imp id ?_
  rintro ⟨j, hne, hj⟩
  exact ⟨j, by rwa [goto_other p pc hne]⟩

/-- Who waits behind a move waited before it, or is the caller that moved. -/
theorem waits_goto (h : ∃ j, ((p.goto i pc).pc j).Waits) :
    pc.Waits ∨ ∃ j, j ≠ i ∧ (p.pc j).Waits := by
  obtain ⟨j, hj⟩ := h
  by_cases hne : j = i
  · subst hne
    rw [goto_self] at hj
    exact .inl hj
  · rw [goto_other p pc hne] at hj
    exact .inr ⟨j, hne, hj⟩

/-! ### The queue of the receivers -/

theorem State.Queued.goto (h : p.Queued) (hi : p.pc i ≠ .parked) : (p.goto i pc).Queued := by
  refine ⟨h.1, fun j hj => ?_⟩
  have hparked := h.2 j hj
  rw [goto_other p pc, hparked]
  rintro rfl
  exact hi hparked

/-- A receiver parks. -/
theorem State.Queued.park (h : p.Queued) (hi : p.pc i = .choosing) :
    State.Queued { p.goto i .parked with recvq := p.recvq ++ [i] } := by
  have hnot : i ∉ p.recvq := by
    intro hmem
    have hparked := h.2 i hmem
    rw [hi] at hparked
    cases hparked
  refine ⟨List.nodup_append.2 ⟨h.1, List.pairwise_singleton _ i, ?_⟩, fun j hj => ?_⟩
  · rintro j hj k hk rfl
    exact hnot (List.mem_singleton.1 hk ▸ hj)
  · rcases List.mem_append.1 hj with hj' | hj'
    · refine (goto_other p _ ?_).trans (h.2 j hj')
      rintro rfl
      exact hnot hj'
    · rw [List.mem_singleton.1 hj']
      exact goto_self p i _

/-- A parked receiver gives up. -/
theorem State.Queued.cancel (h : p.Queued) (i : Caller) :
    State.Queued { p.goto i .out with recvq := p.recvq.erase i } := by
  refine ⟨h.1.erase i, fun j hj => ?_⟩
  obtain ⟨hne, hj⟩ := h.1.mem_erase_iff.1 hj
  exact (goto_other p _ hne).trans (h.2 j hj)

theorem State.Queued.take (h : p.Queued) {recvq : List Caller} (hrecvq : p.recvq = j :: recvq) :
    State.Queued { p.goto j (.got c) with recvq } := by
  have hnodup := h.1
  rw [hrecvq, List.nodup_cons] at hnodup
  refine ⟨hnodup.2, fun i hi => ?_⟩
  have hne : i ≠ j := by
    rintro rfl
    exact hnodup.1 hi
  exact (goto_other p _ hne).trans (h.2 i (by simp [hrecvq, show i ∈ recvq from hi]))

theorem State.Queued.parked (h : p.Queued) {recvq : List Caller} (hrecvq : p.recvq = j :: recvq) :
    p.pc j = .parked :=
  h.2 j (by simp [hrecvq])

theorem State.Queued.receive (h : p.Queued) (hi : p.pc i ≠ .parked)
    (hp' : p.receive i onClosed = some p') : p'.Queued := by
  obtain ⟨c, idle, -, rfl⟩ | ⟨-, rfl⟩ := receive_cases hp'
  · exact h.goto hi
  · exact h.goto hi

theorem State.Queued.offer (h : p.Queued) (c : ConnId) : (p.offer c).Queued := by
  obtain ⟨j, recvq, hrecvq, heq⟩ | ⟨-, -, heq⟩ | ⟨-, -, heq⟩ := offer_cases p c
  · rw [heq]
    exact h.take hrecvq
  · rw [heq]
    exact h
  · rw [heq]
    exact h

/-- **The queue holds parked receivers in every step.** -/
theorem next_queued (h : p.Queued) (hp' : p.next l = some p') : p'.Queued := by
  cases step_of_next hp' with
  | polled hi hr | selected hi hr => exact h.receive (by simp [hi]) hr
  | park hi => exact h.park hi
  | @unpark i _ => exact h.cancel i
  | @send i c hi =>
    have hout : (p.goto i .out).Queued := h.goto (by simp [hi])
    split
    · exact hout
    · exact State.Queued.offer (p := { p.goto i .out with mu := none }) hout c
  | closeConns => exact ⟨List.nodup_nil, fun _ hj => (List.not_mem_nil hj).elim⟩
  | drain => exact h
  -- the others are moves of callers that are not parked
  | get hi | missed hi | load hi | dial hi | full hi | dialed hi | dialFailed hi | expired hi
  | waits hi | cancel hi | checkOut hi | put hi | lock hi | drop hi | discard hi | close hi
  | again hi | swap hi | drained hi => exact h.goto (by simp [hi])

/-! ### The holders -/

/-- The holders stay the same while nobody checks out or returns. -/
theorem State.Counted.goto (h : p.Counted) (hold : ∀ c, p.pc i ≠ .holding c)
    (hnew : ∀ c, pc ≠ .holding c) : (p.goto i pc).Counted := by
  obtain ⟨hs, hnodup, hmem, hactive⟩ := h
  refine ⟨hs, hnodup, fun j => ?_, hactive⟩
  rw [hmem]
  by_cases hne : j = i
  · subst hne
    rw [goto_self]
    exact iff_of_false (fun ⟨c, hc⟩ => hold c hc) fun ⟨c, hc⟩ => hnew c hc
  · rw [goto_other p pc hne]

theorem wrap32_add (n k : Int) : wrap32 (wrap32 n + k) = wrap32 (n + k) := Int.bmod_add_bmod

theorem wrap32_sub (n k : Int) : wrap32 (wrap32 n - k) = wrap32 (n - k) := Int.bmod_sub_bmod

/-- `Get` returns. -/
theorem State.Counted.checkOut (h : p.Counted) (hi : p.pc i = .got c) :
    State.Counted { p.goto i (.holding c) with active := wrap32 (p.active + 1) } := by
  obtain ⟨hs, hnodup, hmem, hactive⟩ := h
  have hnot : i ∉ hs := by
    rw [hmem, hi]
    rintro ⟨c', hc'⟩
    cases hc'
  refine ⟨i :: hs, List.nodup_cons.2 ⟨hnot, hnodup⟩, fun j => ?_, ?_⟩
  · show j ∈ i :: hs ↔ ∃ c', (p.goto i (.holding c)).pc j = .holding c'
    by_cases hne : j = i
    · subst hne
      simp
    · rw [goto_other p _ hne, List.mem_cons, hmem, or_iff_right hne]
  · show wrap32 (p.active + 1) = _
    rw [hactive, wrap32_add, List.length_cons, Int.natCast_add]
    rfl

/-- `Put` or `Drop` starts. -/
theorem State.Counted.release (h : p.Counted) (hi : p.pc i = .holding c)
    (hnew : ∀ c, pc ≠ .holding c) :
    State.Counted { p.goto i pc with active := wrap32 (p.active - 1) } := by
  obtain ⟨hs, hnodup, hmem, hactive⟩ := h
  have hin : i ∈ hs := (hmem i).2 ⟨c, hi⟩
  refine ⟨hs.erase i, hnodup.erase i, fun j => ?_, ?_⟩
  · show j ∈ hs.erase i ↔ ∃ c', (p.goto i pc).pc j = .holding c'
    rw [hnodup.mem_erase_iff, hmem]
    by_cases hne : j = i
    · subst hne
      rw [goto_self]
      exact iff_of_false (fun hj => hj.1 rfl) fun ⟨c', hc'⟩ => hnew c' hc'
    · rw [goto_other p pc hne, and_iff_right hne]
  · show wrap32 (p.active - 1) = _
    have hpos := List.length_pos_of_mem hin
    rw [hactive, wrap32_sub, List.length_erase_of_mem hin, Int.natCast_sub hpos]
    rfl

theorem State.Counted.receive (h : p.Counted) (hold : ∀ c, p.pc i ≠ .holding c)
    (hnew : ∀ c, onClosed ≠ .holding c) (hp' : p.receive i onClosed = some p') : p'.Counted := by
  obtain ⟨c, idle, -, rfl⟩ | ⟨-, rfl⟩ := receive_cases hp'
  · exact h.goto hold (by simp)
  · exact h.goto hold hnew

theorem State.Counted.offer (h : p.Counted) (hq : p.Queued) (c : ConnId) :
    (p.offer c).Counted := by
  obtain ⟨j, recvq, hrecvq, heq⟩ | ⟨-, -, heq⟩ | ⟨-, -, heq⟩ := offer_cases p c
  · have hj := hq.parked hrecvq
    rw [heq]
    exact h.goto (by simp [hj]) (by simp)
  · rw [heq]
    exact h
  · rw [heq]
    exact h

theorem State.Counted.sealConns (h : p.Counted) (hq : p.Queued) (hi : p.pc i = .sealing) :
    (p.sealConns i).Counted := by
  obtain ⟨hs, hnodup, hmem, hactive⟩ := h
  refine ⟨hs, hnodup, fun j => ?_, hactive⟩
  rw [hmem]
  dsimp only [State.sealConns]
  split
  · rename_i hj
    simp [hj, hi]
  · split
    · rename_i hj
      simp [hq.2 j hj]
    · rfl

/-- **`active` counts the holders in every step.** -/
theorem next_counted (h : p.Counted) (hq : p.Queued) (hp' : p.next l = some p') :
    p'.Counted := by
  cases step_of_next hp' with
  | get hi => exact h.goto (by simp [hi]) (by split <;> simp)
  | polled hi hr | selected hi hr => exact h.receive (by simp [hi]) (by simp) hr
  | checkOut hi => exact h.checkOut hi
  | put hi | drop hi => exact h.release hi (by simp)
  | @send i c hi =>
    have hout : (p.goto i .out).Counted := h.goto (by simp [hi]) (by simp)
    split
    · exact hout
    · exact State.Counted.offer (p := { p.goto i .out with mu := none }) hout
        (hq.goto (by simp [hi])) c
  | closeConns hi => exact h.sealConns hq hi
  | drain => exact h
  -- the others neither check out nor release
  | missed hi | load hi | dial hi | full hi | dialed hi | dialFailed hi | expired hi | waits hi
  | park hi | cancel hi | unpark hi | lock hi | discard hi | close hi | again hi | swap hi
  | drained hi => exact h.goto (by simp [hi]) (by simp)

/-! ### The closing of the pool -/

theorem State.Shut.goto (h : p.Shut) (hnew : pc ≠ .sealing ∧ pc ≠ .draining) : (p.goto i pc).Shut := by
  intro j hj
  by_cases hne : j = i
  · subst hne
    rw [goto_self] at hj
    exact (hj.elim hnew.1 hnew.2).elim
  · rw [goto_other p pc hne] at hj
    exact h j hj

theorem State.Shut.receive (h : p.Shut) (hnew : onClosed ≠ .sealing ∧ onClosed ≠ .draining)
    (hp' : p.receive i onClosed = some p') : p'.Shut := by
  obtain ⟨c, idle, -, rfl⟩ | ⟨-, rfl⟩ := receive_cases hp'
  · exact h.goto (by simp)
  · exact h.goto hnew

theorem State.Shut.offer (h : p.Shut) (c : ConnId) : (p.offer c).Shut := by
  obtain ⟨j, recvq, -, heq⟩ | ⟨-, -, heq⟩ | ⟨-, -, heq⟩ := offer_cases p c
  · rw [heq]
    exact h.goto (by simp)
  · rw [heq]
    exact h
  · rw [heq]
    exact h

theorem next_shut (h : p.Shut) (hp' : p.next l = some p') : p'.Shut := by
  cases step_of_next hp' with
  | get => exact h.goto (by split <;> simp)
  | polled hi hr | selected hi hr => exact h.receive (by simp) hr
  | @send i c hi =>
    have hout : (p.goto i .out).Shut := h.goto (by simp)
    split
    · exact hout
    · exact State.Shut.offer (p := { p.goto i .out with mu := none }) hout c
  | swap => exact fun _ _ => rfl
  | closeConns hi => exact fun _ _ => h _ (.inl hi)
  | drain => exact h
  | missed | load | dial | full | dialed | dialFailed | expired | waits | park | cancel | unpark
  | checkOut | put | lock | drop | discard | close | again | drained => exact h.goto (by simp)

theorem next_maxSize (hp' : p.next l = some p') : p'.maxSize = p.maxSize := by
  cases step_of_next hp' with
  | polled hi hr | selected hi hr => obtain ⟨c, idle, -, rfl⟩ | ⟨-, rfl⟩ := receive_cases hr <;> rfl
  | @send i c =>
    split
    · rfl
    · obtain ⟨j, recvq, -, heq⟩ | ⟨-, -, heq⟩ | ⟨-, -, heq⟩ :=
        offer_cases { p.goto i .out with mu := none } c <;> rw [heq] <;> rfl
  | _ => rfl

/-! ### Those who wait -/

/-- `p.active.Load()` sees a holder if it sees a positive count. -/
theorem State.Counted.live_of_active (h : p.Counted) (ha : 1 ≤ p.active) :
    ∃ j c, p.pc j = .holding c := by
  obtain ⟨hs, -, hmem, hactive⟩ := h
  cases hs with
  | nil =>
    rw [hactive] at ha
    exact absurd ha (by decide)
  | cons j hs => exact ⟨j, (hmem j).1 List.mem_cons_self⟩

/-- While the pool is open, a caller that waits has a connection to wait for. -/
def State.Provided (p : State) : Prop := p.closed = false → (∃ i, (p.pc i).Waits) → p.Live

theorem State.Provided.goto
    (hlive : p.closed = false → (pc.Waits ∨ ∃ j, j ≠ i ∧ (p.pc j).Waits) → (p.goto i pc).Live) :
    (p.goto i pc).Provided :=
  fun hopen hw => hlive hopen (waits_goto hw)

/-- A caller that backs nobody goes on to where it does not wait. -/
theorem State.Provided.step (h : p.Provided) {pc : Pc} (hbacks : ¬ (p.pc i).Backs)
    (hwaits : ¬ pc.Waits) : (p.goto i pc).Provided := by
  refine .goto fun hopen hw => ?_
  obtain ⟨j, -, hj⟩ := hw.resolve_left hwaits
  exact (h hopen ⟨j, hj⟩).goto hbacks pc

theorem State.Provided.receive (h : p.Provided) (hbacks : ¬ (p.pc i).Backs)
    (hwaits : ¬ onClosed.Waits) (hp' : p.receive i onClosed = some p') : p'.Provided := by
  obtain ⟨c, idle, -, rfl⟩ | ⟨-, rfl⟩ := receive_cases hp'
  · exact fun _ _ => .inr ⟨i, backs_goto p i trivial⟩
  · exact h.step hbacks hwaits

/-- `Put` hands a connection over, or the channel is full. -/
theorem offer_live (hsize : 1 ≤ p.maxSize) (c : ConnId) : (p.offer c).Live := by
  obtain ⟨j, recvq, -, heq⟩ | ⟨-, -, heq⟩ | ⟨-, hfull, heq⟩ := offer_cases p c
  · rw [heq]
    exact .inr ⟨j, backs_goto p j trivial⟩
  · rw [heq]
    exact .inl (by simp)
  · rw [heq]
    refine .inl fun hidle => ?_
    rw [hidle, List.length_nil] at hfull
    omega

/-- The comparison in `Get` sends a caller to wait: it has seen a holder, or the channel is not
empty. -/
theorem Inv.full (h : Inv p) {active : Int} (hi : p.pc i = .counted active)
    (hfull : ¬ active + p.idle.length < p.maxSize) (hopen : p.closed = false) : p.Live := by
  have hsize := h.size
  by_cases ha : 1 ≤ active
  · refine h.backed hopen ⟨i, ?_⟩
    rw [hi]
    exact ha
  · refine .inl fun hidle => hfull ?_
    rw [hidle]
    simp only [List.length_nil]
    omega

/-- A caller loses its connection: others are left, or nobody waits. -/
theorem provided_of_without (hl : p.LiveWithout i ∨ ∀ j, ¬ (p.pc j).Waits)
    (hwaits : ¬ pc.Waits) : (p.goto i pc).Provided := by
  refine .goto fun _ hw => ?_
  rcases hl with hl | hl
  · exact live_of_without hl
  · obtain ⟨j, -, hj⟩ := hw.resolve_left hwaits
    exact absurd hj (hl j)

theorem next_provided (h : Inv p) (hl : Backed p l) (hp' : p.next l = some p') :
    p'.Provided := by
  have hbacked : p.Provided := h.backed
  cases step_of_next hp' with
  | get hi => split <;> exact hbacked.step (by simp [hi, Pc.Backs]) id
  | polled hi hr | selected hi hr => exact hbacked.receive (by simp [hi, Pc.Backs]) id hr
  | load hi =>
    refine .goto fun hopen hw => State.Live.goto ?_ (by simp [hi, Pc.Backs]) _
    rcases hw with ha | ⟨j, -, hj⟩
    · obtain ⟨j, c, hj⟩ := h.holders.live_of_active ha
      refine .inr ⟨j, ?_⟩
      rw [hj]
      trivial
    · exact hbacked hopen ⟨j, hj⟩
  | full hi hfull =>
    exact .goto fun hopen _ => (h.full hi hfull hopen).goto (by simp [hi, Pc.Backs]) _
  | dialFailed hi => exact provided_of_without hl id
  | drop hi => exact provided_of_without hl id
  | waits hi => exact .goto fun _ _ => State.Live.goto hl (by simp [hi, Pc.Backs]) _
  | @park i hi =>
    have hmoved : (p.goto i .parked).Provided := by
      refine .goto fun hopen _ => State.Live.goto ?_ (by simp [hi, Pc.Backs]) _
      refine hbacked hopen ⟨i, ?_⟩
      rw [hi]
      trivial
    exact hmoved
  | @send i c hi =>
    split
    · rename_i hclosed
      exact fun hopen => absurd (hclosed.symm.trans hopen) (by simp)
    · exact fun _ _ => offer_live (p := { p.goto i .out with mu := none }) h.size c
  | swap => exact fun hopen => by cases hopen
  | closeConns hi => exact fun hopen => absurd ((h.shut _ (.inl hi)).symm.trans hopen) (by simp)
  | drain hi => exact fun hopen => absurd ((h.shut _ (.inr hi)).symm.trans hopen) (by simp)
  -- the caller itself has, or is about to have, a connection
  | dial | dialed => exact fun _ _ => .inr ⟨_, backs_goto p _ trivial⟩
  | @checkOut i | @put i | @lock i => exact fun _ _ => .inr ⟨i, backs_goto p i trivial⟩
  | missed hi | expired hi | cancel hi | unpark hi | discard hi | close hi | again hi | drained hi =>
    exact hbacked.step (by simp [hi, Pc.Backs]) id

/-- **Every step that meets the condition keeps the invariant.** -/
theorem next_inv (h : Inv p) (hl : Backed p l) (hp' : p.next l = some p') :
    Inv p' where
  size := (next_maxSize hp').symm ▸ h.size
  holders := next_counted h.holders h.queue hp'
  queue := next_queued h.queue hp'
  shut := next_shut h.shut hp'
  backed := next_provided h hl hp'

/-! ## Runs -/

/-- The runs of callers on a new pool. -/
abbrev Runs (opts : Options) (dials : List ConnId) (tr : List Label) (p : State) : Prop :=
  Machine.exec State.next (new opts dials) tr = some p

theorem new_inv (opts : Options) (dials : List ConnId) : Inv (new opts dials) where
  size := by
    unfold new
    dsimp only
    split <;> omega
  holders := ⟨[], List.nodup_nil, by simp [new], rfl⟩
  queue := ⟨List.nodup_nil, fun _ hi => (List.not_mem_nil hi).elim⟩
  shut i hi := by simp [new] at hi
  backed _ hw := by
    obtain ⟨i, hi⟩ := hw
    exact hi.elim

/-- A parked `Get` of an open pool has a connection that can come back to it. -/
def ParkedBacked (p : State) : Prop := p.closed = false → ∀ i, p.pc i = .parked → p.Live

/-- **If every `Drop` and every failed dial leaves a connection to those who wait, no `Get`
is parked on an open pool without one.** -/
theorem parkedBacked_of_backed {opts : Options} {dials : List ConnId} {tr : List Label}
    (hback : Machine.Meets State.next Backed (new opts dials) tr) (h : Runs opts dials tr p) :
    ParkedBacked p := by
  have hinv : Inv p := Machine.invariant_of_meets (I := fun _ p => Inv p) (new_inv opts dials)
    (fun _ _ _ _ _ hI hC hnext => next_inv hI hC hnext) hback h
  intro hopen i hi
  refine hinv.backed hopen ⟨i, ?_⟩
  rw [hi]
  trivial

/-- Caller 0 dials the only connection of the pool, and caller 1 parks. -/
def parkOne : List Label :=
  [.get 0, .poll 0, .load 0, .compare 0, .dialed 0 7, .checkOut 0,
    .get 1, .poll 1, .load 1, .compare 1, .select 1]

/-- Caller 0 is going to return the connection. -/
theorem parkedBacked_of_backed_parkOne : ∃ p, Runs { maxSize := 1 } [] (parkOne ++ [.put 0]) p ∧
    p.pc 1 = .parked ∧ ParkedBacked p := by
  have hrun : Runs { maxSize := 1 } [] (parkOne ++ [.put 0]) _ := rfl
  have hback : Machine.Meets State.next Backed (new { maxSize := 1 } []) (parkOne ++ [.put 0]) := by
    intro pre l post s htr _
    have hl : l ∈ parkOne ++ [.put 0] := by simp [htr]
    simp only [parkOne, List.cons_append, List.nil_append, List.mem_cons, List.not_mem_nil,
      or_false] at hl
    rcases hl with rfl | rfl | rfl | rfl | rfl | rfl | rfl | rfl | rfl | rfl | rfl | rfl <;> trivial
  exact ⟨_, hrun, rfl, parkedBacked_of_backed hback hrun⟩

/-- Caller 0 drops the connection instead, and caller 1 waits for a pool without any. -/
theorem drop_strands_parked :
    ¬ ∀ opts dials tr p, Runs opts dials tr p → ParkedBacked p := by
  intro h
  have hrun : Runs { maxSize := 1 } [] (parkOne ++ [.drop 0]) _ := rfl
  rcases h _ _ _ _ hrun rfl 1 rfl with hidle | ⟨i, hi⟩
  · exact hidle rfl
  · match i, hi with
    | 0, hi => exact hi
    | 1, hi => exact hi
    | _ + 2, hi => exact hi

end RespProxy.Pool
