import Mathlib.Data.List.Nodup
import RespProxy.Lib.Custody
import RespProxy.Pool.Bound

/-! # Where the connections of a pool are

The pool with a record of the connections that its dials have opened and of those that
have been closed. `dial` opens a connection first and may still fail, then it closes it
itself. So an open connection is in the channel, with one caller, or with the `dial` that
has opened it; `Custody` says so of every connection there ever was.

* `Ledger`: the pool and the record, `Event`: its steps;
* `Locked`, `Emptied`: the lock, and how far `Close` has come;
* `ledger_accounts`: what follows for whole runs.
-/

namespace RespProxy.Pool

variable {p p' : State} {i j : Caller} {c : ConnId} {l : Label}
variable {onClosed : Pc} {pc : Caller → Pc} {tr : List Event} {opts : Options} {f : Prefill}

/-- The connection the caller has. -/
@[simp] def Pc.conn : Pc → Option ConnId
  | .got c | .holding c | .putting c | .returning c | .dropping c => some c
  | _ => none

/-- The pool, the connections that a `dial` has opened and not returned yet, and the
connections that were opened and closed. -/
structure Ledger where
  pool : State
  opening : Caller → Option ConnId := fun _ => none
  opened : List ConnId
  shut : List ConnId

inductive Event where
  /-- `dial`: the connection is open -/
  | opens (i : Caller) (c : ConnId)
  | step (l : Label)

/-- The connections that a step closes. -/
def Ledger.closes (s : Ledger) : Label → List ConnId
  | .dialFailed i => (s.opening i).toList
  | .send i =>
    if s.pool.closed ∨ (s.pool.recvq = [] ∧ s.pool.maxSize ≤ s.pool.idle.length) then
      (s.pool.pc i).conn.toList
    else []
  | .discard i => (s.pool.pc i).conn.toList
  | .drain _ => s.pool.idle.take 1
  | _ => []

/-- A `dial` that returns has no connection any more. -/
def Ledger.openingAfter (s : Ledger) : Label → Caller → Option ConnId
  | .dialed i _ | .dialFailed i => Function.update s.opening i none
  | _ => s.opening

/-- A `dial` returns the connection that it has opened. -/
def Ledger.allows (s : Ledger) : Label → Bool
  | .dialed i c => decide (s.opening i = some c)
  | _ => true

def Ledger.next (s : Ledger) : Event → Option Ledger
  | .opens i c =>
    if s.pool.pc i = .dialing ∧ s.opening i = none ∧ c ∉ s.opened then
      some { s with opening := Function.update s.opening i (some c), opened := c :: s.opened }
    else none
  | .step l =>
    if s.allows l then
      (s.pool.next l).map fun p =>
        { s with pool := p, opening := s.openingAfter l, shut := s.closes l ++ s.shut }
    else none

/-- What the dials of `New` did: the connections they returned, and one that was opened by a dial
that failed. -/
structure Prefill where
  dials : List ConnId := []
  failed : Option ConnId := none
  fresh : (dials ++ failed.toList).Nodup

/-- A new pool. -/
def Ledger.new (opts : Options) (f : Prefill) : Ledger where
  pool := Pool.new opts f.dials
  opened := (Pool.new opts f.dials).idle ++ f.failed.toList
  shut := f.failed.toList

/-! ## The lock -/

/-- The caller is in a part of `Put` or `Close` that has the lock. -/
@[simp] def Pc.Locks : Pc → Prop
  | .returning _ | .closing | .sealing | .draining => True
  | _ => False

/-- Only one caller has the lock. -/
def State.Locked (p : State) : Prop := ∀ i, (p.pc i).Locks → p.mu = some i

theorem State.Locked.goto (h : p.Locked) {new : Pc} (hnew : new.Locks → p.mu = some i) :
    (p.goto i new).Locked := by
  intro j hj
  by_cases hne : j = i
  · subst hne
    rw [goto_self] at hj
    exact hnew hj
  · rw [goto_other p new hne] at hj
    exact h j hj

theorem State.Locked.lock (h : p.Locked) (hmu : p.mu = none) (new : Pc) :
    State.Locked { p.goto i new with mu := some i } := by
  intro j hj
  by_cases hne : j = i
  · rw [hne]
  · have hlocked := h j (by simpa [State.goto, hne] using hj)
    rw [hmu] at hlocked
    cases hlocked

theorem State.Locked.unlock (h : p.Locked) (hi : (p.pc i).Locks) {new : Pc} (hnew : ¬ new.Locks) :
    State.Locked { p.goto i new with mu := none } := by
  intro j hj
  -- only `i` had the lock, and it is behind its part now
  exfalso
  by_cases hne : j = i
  · subst hne
    exact hnew (by simpa using hj)
  · have hmu := (h j (by simpa [State.goto, hne] using hj)).symm.trans (h i hi)
    exact hne (Option.some.inj hmu)

theorem State.Locked.receive (h : p.Locked) (hnew : ¬ onClosed.Locks)
    (hp' : p.receive i onClosed = some p') : p'.Locked := by
  obtain ⟨c, idle, -, rfl⟩ | ⟨-, rfl⟩ := receive_cases hp'
  · exact h.goto (by simp)
  · exact h.goto fun hl => absurd hl hnew

theorem State.Locked.offer (h : p.Locked) (c : ConnId) : (p.offer c).Locked := by
  obtain ⟨j, recvq, -, heq⟩ | ⟨-, -, heq⟩ | ⟨-, -, heq⟩ := offer_cases p c
  · rw [heq]
    exact h.goto (by simp)
  · rw [heq]
    exact h
  · rw [heq]
    exact h

theorem State.Locked.sealConns (h : p.Locked) (hi : p.pc i = .sealing) :
    (p.sealConns i).Locked := by
  intro j hj
  dsimp only [State.sealConns] at hj
  split at hj
  · rename_i hji
    exact hji ▸ h i (by simp [hi])
  · split at hj
    · exact hj.elim
    · exact h j hj

theorem next_locked (h : p.Locked) (hp' : p.next l = some p') : p'.Locked := by
  cases step_of_next hp' with
  | get hi => split <;> exact h.goto (by simp)
  | polled hi hr | selected hi hr => exact h.receive id hr
  | lock hi hmu | close hi hmu => exact h.lock hmu _
  | @send i c hi =>
    have hout : State.Locked { p.goto i .out with mu := none } := h.unlock (by simp [hi]) id
    split
    · exact hout
    · exact hout.offer c
  | again hi | drained hi => exact h.unlock (by simp [hi]) id
  | swap hi => exact h.goto fun _ => h _ (by simp [hi])
  | closeConns hi => exact h.sealConns hi
  | drain => exact h
  | missed | load | dial | full | dialed | dialFailed | expired | waits | park | cancel | unpark
  | checkOut | put | drop | discard => exact h.goto (by simp)

/-! ## How far `Close` has come -/

/-- The caller is in `Close`, behind `closed.Swap(true)`. -/
@[simp] def Pc.Closes : Pc → Prop
  | .sealing | .draining => True
  | _ => False

/-- The channel is closed only in a closed pool, ahead of the drain loop, and a closed pool is
being emptied or empty. -/
def State.Emptied (p : State) : Prop :=
  (p.sealed = true → p.closed = true) ∧ (∀ i, p.pc i = .draining → p.sealed = true) ∧
    (p.closed = true → (∃ i, (p.pc i).Closes) ∨ (p.sealed = true ∧ p.idle = []))

/-- A move that is not one of `Close`. -/
theorem State.Emptied.goto (h : p.Emptied) {new : Pc} (hi : ¬ (p.pc i).Closes)
    (hnew : ¬ new.Closes) : (p.goto i new).Emptied := by
  obtain ⟨hclosed, hsealed, hempty⟩ := h
  refine ⟨hclosed, fun j hj => ?_, fun hc => (hempty hc).imp ?_ id⟩
  · by_cases hne : j = i
    · subst hne
      rw [goto_self] at hj
      subst hj
      exact absurd trivial hnew
    · rw [goto_other p new hne] at hj
      exact hsealed j hj
  · rintro ⟨j, hj⟩
    have hne : j ≠ i := by
      rintro rfl
      exact hi hj
    refine ⟨j, ?_⟩
    rwa [goto_other p new hne]

theorem State.Emptied.receive (h : p.Emptied) (hi : ¬ (p.pc i).Closes)
    (hnew : ¬ onClosed.Closes) (hp' : p.receive i onClosed = some p') : p'.Emptied := by
  obtain ⟨c, idle, hidle, rfl⟩ | ⟨-, rfl⟩ := receive_cases hp'
  · have hmoved : (p.goto i (.got c)).Emptied := h.goto hi id
    refine ⟨hmoved.1, hmoved.2.1, fun hc => .inl ((hmoved.2.2 hc).resolve_right fun hdone => ?_)⟩
    -- the channel was not empty
    have hnil : p.idle = [] := hdone.2
    rw [hidle] at hnil
    cases hnil
  · exact h.goto hi hnew

/-- `Put` hands a connection over while the pool is open. -/
theorem State.Emptied.offer (h : p.Emptied) (hq : p.Queued) (hopen : p.closed = false)
    (c : ConnId) : (p.offer c).Emptied := by
  obtain ⟨j, recvq, hrecvq, heq⟩ | ⟨-, -, heq⟩ | ⟨-, -, heq⟩ := offer_cases p c
  · have hj := hq.parked hrecvq
    rw [heq]
    exact h.goto (by simp [hj]) id
  · rw [heq]
    exact ⟨h.1, h.2.1, fun hclosed => absurd (hopen.symm.trans hclosed) (by simp)⟩
  · rw [heq]
    exact h

/-- **A closed pool is being emptied or empty.** -/
theorem next_emptied (h : p.Emptied) (hq : p.Queued) (hshut : p.Shut)
    (hp' : p.next l = some p') : p'.Emptied := by
  cases step_of_next hp' with
  | get hi => split <;> exact h.goto (by simp [hi]) id
  | polled hi hr | selected hi hr => exact h.receive (by simp [hi]) id hr
  | @send i c hi =>
    have hout : State.Emptied { p.goto i .out with mu := none } := h.goto (by simp [hi]) id
    split
    · exact hout
    · rename_i hopen
      exact hout.offer (hq.goto (by simp [hi])) (Bool.eq_false_iff.2 hopen) c
  | @swap i hi hopen =>
    refine ⟨fun _ => rfl, fun j hj => ?_, fun _ => .inl ⟨i, by simp⟩⟩
    by_cases hne : j = i
    · subst hne
      simp at hj
    · exact h.2.1 j (by simpa [State.goto, hne] using hj)
  | @closeConns i hi =>
    exact ⟨fun _ => hshut i (.inl hi), fun _ _ => rfl, fun _ => .inl ⟨i, by simp [State.sealConns]⟩⟩
  | @drain i c idle hi hidle =>
    exact ⟨h.1, h.2.1, fun _ => .inl ⟨i, by simp [hi]⟩⟩
  | @drained i hi hidle =>
    -- the drain loop ends when the channel is empty, and nothing comes into it any more
    refine ⟨h.1, fun j hj => ?_, fun _ => .inr ⟨h.2.1 i hi, hidle⟩⟩
    by_cases hne : j = i
    · subst hne
      simp at hj
    · exact h.2.1 j (by simpa [State.goto, hne] using hj)
  | missed hi | load hi | dial hi | full hi | dialed hi | dialFailed hi | expired hi | waits hi
  | park hi | cancel hi | unpark hi | checkOut hi | put hi | lock hi | drop hi | discard hi
  | close hi | again hi => exact h.goto (by simp [hi]) id

/-! ## The pool in any run -/

/-- What holds of the pool in every run. -/
structure State.Sound (p : State) : Prop where
  holders : p.Counted
  queue : p.Queued
  closed : p.Shut
  locked : p.Locked
  emptied : p.Emptied

theorem new_sound (opts : Options) (dials : List ConnId) : (new opts dials).Sound where
  holders := (new_inv opts dials).holders
  queue := (new_inv opts dials).queue
  closed := (new_inv opts dials).shut
  locked _ hi := hi.elim
  emptied := ⟨fun hs => (Bool.false_ne_true hs).elim, fun _ hi => Pc.noConfusion hi,
    fun hc => (Bool.false_ne_true hc).elim⟩

theorem next_sound (h : p.Sound) (hp' : p.next l = some p') : p'.Sound where
  holders := next_counted h.holders h.queue hp'
  queue := next_queued h.queue hp'
  closed := next_shut h.closed hp'
  locked := next_locked h.locked hp'
  emptied := next_emptied h.emptied h.queue h.closed hp'

/-! ## Who has a connection -/

/-- The connection a caller has, that of its `dial` included. -/
def carriedBy (opening : Caller → Option ConnId) (pc : Caller → Pc) (i : Caller) : Option ConnId :=
  (opening i).or (pc i).conn

def Ledger.carried (s : Ledger) : Caller → Option ConnId := carriedBy s.opening s.pool.pc

section

variable {opening : Caller → Option ConnId}

theorem carriedBy_of_none (h : opening i = none) :
    carriedBy opening pc i = (pc i).conn := by
  rw [carriedBy, h, Option.none_or]

theorem carriedBy_goto (opening : Caller → Option ConnId) (p : State) (i : Caller) (new : Pc) :
    carriedBy opening (p.goto i new).pc =
      Function.update (carriedBy opening p.pc) i ((opening i).or new.conn) := by
  funext j
  by_cases hne : j = i
  · subst hne
    simp [carriedBy]
  · simp [carriedBy, goto_other p new hne, hne]

/-- The caller keeps what it has. -/
theorem carriedBy_keep {new : Pc} (h : (p.pc i).conn = new.conn) :
    carriedBy opening (p.goto i new).pc = carriedBy opening p.pc := by
  rw [carriedBy_goto, ← h]
  exact Function.update_eq_self i _

/-- The caller gives its connection away. -/
theorem carriedBy_leave (ho : opening i = none) {new : Pc} (h : new.conn = none) :
    carriedBy opening (p.goto i new).pc = Function.update (carriedBy opening p.pc) i none := by
  rw [carriedBy_goto, ho, h, Option.none_or]

/-- The caller gets a connection. -/
theorem carriedBy_got (ho : opening i = none) :
    carriedBy opening (p.goto i (.got c)).pc =
      Function.update (carriedBy opening p.pc) i (some c) := by
  rw [carriedBy_goto, ho, Option.none_or]
  rfl

/-- A `dial` opens a connection. -/
theorem carriedBy_open :
    carriedBy (Function.update opening i (some c)) pc =
      Function.update (carriedBy opening pc) i (some c) := by
  funext j
  by_cases hne : j = i
  · subst hne
    simp [carriedBy]
  · simp [carriedBy, hne]

/-- A `dial` ends. -/
theorem carriedBy_dialEnds (p : State) (i : Caller) (new : Pc) :
    carriedBy (Function.update opening i none) (p.goto i new).pc =
      Function.update (carriedBy opening p.pc) i new.conn := by
  funext j
  by_cases hne : j = i
  · subst hne
    simp [carriedBy]
  · simp [carriedBy, goto_other p new hne, hne]

theorem carriedBy_sealConns (hq : p.Queued) (hi : p.pc i = .sealing) :
    carriedBy opening (p.sealConns i).pc = carriedBy opening p.pc := by
  funext j
  unfold carriedBy
  dsimp only [State.sealConns]
  split
  · rename_i hj
    rw [hj, hi]
    rfl
  · split
    · rename_i hj
      rw [hq.2 j hj]
      rfl
    · rfl

end

/-! ## The invariant -/

structure Ledger.Sound (s : Ledger) : Prop where
  sound : s.pool.Sound
  opening : ∀ i, s.pool.pc i ≠ .dialing → s.opening i = none
  custody : Custody s.pool.idle s.carried s.shut s.opened

variable {s s' : Ledger}

/-- The connections of callers outside of `dial`. -/
theorem Ledger.Sound.carried_eq (h : s.Sound) (hi : s.pool.pc i ≠ .dialing) :
    s.carried i = (s.pool.pc i).conn :=
  carriedBy_of_none (h.opening i hi)

/-- `Get` receives a connection, or `nil`. -/
theorem Ledger.Sound.receive (h : s.Sound) (hdial : s.pool.pc i ≠ .dialing)
    (hconn : (s.pool.pc i).conn = none) (hnew : onClosed.conn = none)
    (hp' : s.pool.receive i onClosed = some p') :
    Custody p'.idle (carriedBy s.opening p'.pc) s.shut s.opened := by
  have hcustody := h.custody
  obtain ⟨c, idle, hidle, rfl⟩ | ⟨-, rfl⟩ := receive_cases hp'
  · rw [hidle] at hcustody
    have hgot := carriedBy_got (p := s.pool) (c := c) (h.opening i hdial)
    show Custody idle (carriedBy s.opening (s.pool.goto i (.got c)).pc) s.shut s.opened
    rw [hgot]
    exact hcustody.take ((h.carried_eq hdial).trans hconn)
  · rw [carriedBy_keep (hconn.trans hnew.symm)]
    exact hcustody

/-- The end of `Put`. -/
theorem Ledger.Sound.send (h : s.Sound) (hi : s.pool.pc i = .returning c) {p' : State}
    (hp' : p' = if s.pool.closed then { s.pool.goto i .out with mu := none }
      else State.offer { s.pool.goto i .out with mu := none } c) :
    Custody p'.idle (carriedBy s.opening p'.pc) (s.closes (.send i) ++ s.shut) s.opened := by
  have hdial : s.pool.pc i ≠ .dialing := by simp [hi]
  have hc : s.carried i = some c := (h.carried_eq hdial).trans (by simp [hi])
  have hleave : carriedBy s.opening (s.pool.goto i .out).pc = Function.update s.carried i none :=
    carriedBy_leave (h.opening i hdial) rfl
  have hcloses : s.closes (.send i) = if s.pool.closed ∨
      (s.pool.recvq = [] ∧ s.pool.maxSize ≤ s.pool.idle.length) then [c] else [] := by
    rw [Ledger.closes, hi]
    rfl
  -- the connection is closed
  have hshut : Custody s.pool.idle (carriedBy s.opening (s.pool.goto i .out).pc) (c :: s.shut)
      s.opened := by
    rw [hleave]
    exact h.custody.discard hc
  split at hp'
  · rename_i hclosed
    subst hp'
    rw [hcloses, if_pos (.inl hclosed)]
    exact hshut
  · rename_i hopen
    obtain ⟨j, recvq, hrecvq, heq⟩ | ⟨hrecvq, hroom, heq⟩ | ⟨hrecvq, hfull, heq⟩ :=
      offer_cases { s.pool.goto i .out with mu := none } c
    · -- a parked receiver gets it
      have hne : j ≠ i := by
        rintro rfl
        have hparked : (s.pool.goto j .out).pc j = .parked :=
          (h.sound.queue.goto (by simp [hi])).parked hrecvq
        simp at hparked
      have hj : s.pool.pc j = .parked := h.sound.queue.parked hrecvq
      have hjdial : s.pool.pc j ≠ .dialing := by simp [hj]
      have hfree : Function.update s.carried i none j = none := by
        rw [Function.update_of_ne hne, h.carried_eq hjdial, hj]
        rfl
      have hgot : carriedBy s.opening ((s.pool.goto i .out).goto j (.got c)).pc =
          Function.update (Function.update s.carried i none) j (some c) := by
        rw [carriedBy_got (h.opening j hjdial), hleave]
      have hrecvq' : s.pool.recvq = j :: recvq := hrecvq
      rw [hp', heq, hcloses, if_neg (by simp [hopen, hrecvq'])]
      show Custody s.pool.idle (carriedBy s.opening ((s.pool.goto i .out).goto j (.got c)).pc)
        s.shut s.opened
      rw [hgot]
      exact h.custody.pass hc hfree
    · -- it goes into the channel
      have hroom' : ¬ s.pool.maxSize ≤ s.pool.idle.length := Int.not_le.2 hroom
      rw [hp', heq, hcloses, if_neg (by simp [hopen, hroom'])]
      show Custody (s.pool.idle ++ [c]) (carriedBy s.opening (s.pool.goto i .out).pc) s.shut s.opened
      rw [hleave]
      exact (h.custody.lay hc).perm (List.perm_append_singleton c s.pool.idle).symm
    · rw [hp', heq, hcloses, if_pos (.inr ⟨hrecvq, hfull⟩)]
      exact hshut

/-- A `dial` fails, and closes what it has opened. -/
theorem Ledger.Sound.dialFailed (h : s.Sound) (hi : s.pool.pc i = .dialing) :
    Custody s.pool.idle (carriedBy (Function.update s.opening i none) (s.pool.goto i .failed).pc)
      ((s.opening i).toList ++ s.shut) s.opened := by
  rw [carriedBy_dialEnds]
  have hcarried : s.carried i = s.opening i := by
    rw [Ledger.carried, carriedBy, hi]
    exact Option.or_none
  cases hopening : s.opening i with
  | none =>
    rw [hopening] at hcarried
    have hsame : Function.update s.carried i none = s.carried := by
      rw [← hcarried]
      exact Function.update_eq_self i _
    show Custody s.pool.idle (Function.update s.carried i none) s.shut s.opened
    rw [hsame]
    exact h.custody
  | some c => exact h.custody.discard (hcarried.trans hopening)

/-- **Every step hands over at most one connection.** -/
theorem Ledger.Sound.step (h : s.Sound) (hl : s.allows l = true) (hp' : s.pool.next l = some p') :
    Custody p'.idle (carriedBy (s.openingAfter l) p'.pc) (s.closes l ++ s.shut) s.opened := by
  have hcustody : Custody s.pool.idle (carriedBy s.opening s.pool.pc) s.shut s.opened := h.custody
  have hkeep : ∀ {i : Caller} {new : Pc}, (s.pool.pc i).conn = new.conn →
      Custody s.pool.idle (carriedBy s.opening (s.pool.goto i new).pc) s.shut s.opened := by
    intro i new hconn
    rw [carriedBy_keep hconn]
    exact hcustody
  cases step_of_next hp' with
  | get hi => split <;> exact hkeep (by simp [hi])
  | polled hi hr | selected hi hr =>
    exact h.receive (by simp [hi]) (by simp [hi]) rfl hr
  | @dialed i c hi =>
    -- the caller has had the connection since `dial` opened it
    have hcarried : carriedBy s.opening s.pool.pc i = some c := by
      rw [carriedBy, show s.opening i = some c from of_decide_eq_true hl]
      rfl
    show Custody s.pool.idle (carriedBy (Function.update s.opening i none)
      (s.pool.goto i (.got c)).pc) s.shut s.opened
    rw [carriedBy_dialEnds, Pc.conn, ← hcarried, Function.update_eq_self]
    exact hcustody
  | dialFailed hi => exact h.dialFailed hi
  | send hi => exact h.send hi rfl
  | @discard i c hi =>
    have hdial : s.pool.pc i ≠ .dialing := by simp [hi]
    have hc : s.carried i = some c := (h.carried_eq hdial).trans (by simp [hi])
    have hcloses : s.closes (.discard i) = [c] := by
      rw [Ledger.closes, hi]
      rfl
    show Custody s.pool.idle (carriedBy s.opening (s.pool.goto i .out).pc)
      (s.closes (.discard i) ++ s.shut) s.opened
    rw [hcloses, carriedBy_leave (h.opening i hdial) rfl]
    exact h.custody.discard hc
  | closeConns hi =>
    show Custody s.pool.idle (carriedBy s.opening (s.pool.sealConns _).pc) s.shut s.opened
    rw [carriedBy_sealConns h.sound.queue hi]
    exact hcustody
  | @drain i c idle hi hidle =>
    show Custody idle (carriedBy s.opening s.pool.pc) (s.pool.idle.take 1 ++ s.shut) s.opened
    rw [hidle] at hcustody ⊢
    exact hcustody.clear
  | @drained i hi hidle =>
    show Custody s.pool.idle (carriedBy s.opening (s.pool.goto i .out).pc)
      (s.pool.idle.take 1 ++ s.shut) s.opened
    have hmoved : Custody s.pool.idle (carriedBy s.opening (s.pool.goto i .out).pc) s.shut
        s.opened := hkeep (by simp [hi])
    rw [hidle] at hmoved ⊢
    exact hmoved
  | missed hi | load hi | dial hi | full hi | expired hi | waits hi | park hi | cancel hi | unpark hi
  | checkOut hi | put hi | lock hi | drop hi | close hi | again hi | swap hi =>
    exact hkeep (by simp [hi])

/-- A caller stays in `dial` until that returns. -/
theorem next_dialing (hq : p.Queued) (hp' : p.next l = some p') (hj : p.pc j = .dialing) :
    p'.pc j = .dialing ∨ (∃ c, l = .dialed j c) ∨ l = .dialFailed j := by
  have hother : ∀ {q : State} {i : Caller} {old : Pc} (new : Pc), q.pc j = .dialing →
      q.pc i = old → old ≠ .dialing → (q.goto i new).pc j = .dialing := by
    rintro q i old new hq rfl hold
    rw [goto_other q new, hq]
    rintro rfl
    exact hold hq
  cases step_of_next hp' with
  | get hi => split <;> exact .inl (hother _ hj hi (by simp))
  | polled hi hr | selected hi hr =>
    obtain ⟨c, idle, -, rfl⟩ | ⟨-, rfl⟩ := receive_cases hr
    · exact .inl (hother _ hj hi (by simp))
    · exact .inl (hother _ hj hi (by simp))
  | @dialed i c hi =>
    by_cases hne : j = i
    · exact .inr (.inl ⟨c, by rw [hne]⟩)
    · exact .inl ((goto_other p _ hne).trans hj)
  | @dialFailed i hi =>
    by_cases hne : j = i
    · exact .inr (.inr (by rw [hne]))
    · exact .inl ((goto_other p _ hne).trans hj)
  | @send i c hi =>
    have hout : (p.goto i .out).pc j = .dialing := hother _ hj hi (by simp)
    split
    · exact .inl hout
    · obtain ⟨k, recvq, hrecvq, heq⟩ | ⟨-, -, heq⟩ | ⟨-, -, heq⟩ :=
        offer_cases { p.goto i .out with mu := none } c
      · have hk : (p.goto i .out).pc k = .parked := (hq.goto (by simp [hi])).parked hrecvq
        rw [heq]
        exact .inl (hother (q := p.goto i .out) _ hout hk (by simp))
      · rw [heq]
        exact .inl hout
      · rw [heq]
        exact .inl hout
  | @closeConns i hi =>
    left
    dsimp only [State.sealConns]
    rw [if_neg, if_neg]
    · exact hj
    · intro hmem
      rw [hq.2 j hmem] at hj
      cases hj
    · rintro rfl
      rw [hi] at hj
      cases hj
  | drain => exact .inl hj
  | missed hi | load hi | dial hi | full hi | expired hi | waits hi | park hi | cancel hi | unpark hi
  | checkOut hi | put hi | lock hi | drop hi | discard hi | close hi | again hi | swap hi
  | drained hi => exact .inl (hother _ hj hi (by simp))

theorem Ledger.Sound.opening_step (h : s.Sound) (hp' : s.pool.next l = some p')
    (hi : p'.pc i ≠ .dialing) : s.openingAfter l i = none := by
  have hold : s.opening i = none → s.openingAfter l i = none := by
    intro ho
    unfold Ledger.openingAfter
    split
    · simp [Function.update_apply, ho]
    · simp [Function.update_apply, ho]
    · exact ho
  by_cases hdial : s.pool.pc i = .dialing
  · obtain hstay | ⟨c, rfl⟩ | rfl := next_dialing h.sound.queue hp' hdial
    · exact absurd hstay hi
    · simp [Ledger.openingAfter]
    · simp [Ledger.openingAfter]
  · exact hold (h.opening i hdial)

/-- **Every event keeps the invariant.** -/
theorem Ledger.Sound.next (h : s.Sound) {e : Event} (hs' : s.next e = some s') : s'.Sound := by
  cases e with
  | opens i c =>
    rw [Ledger.next, Option.ite_none_right_eq_some] at hs'
    obtain ⟨⟨hi, ho, hc⟩, hs'⟩ := hs'
    cases hs'
    refine ⟨h.sound, fun j hj => ?_, ?_⟩
    · have hne : j ≠ i := by
        rintro rfl
        exact hj hi
      show Function.update s.opening i (some c) j = none
      rw [Function.update_of_ne hne]
      exact h.opening j hj
    · have hfree : s.carried i = none := by
        rw [Ledger.carried, carriedBy, ho, hi]
        rfl
      show Custody s.pool.idle (carriedBy (Function.update s.opening i (some c)) s.pool.pc) s.shut
        (c :: s.opened)
      rw [carriedBy_open]
      exact (h.custody.make hc).take hfree
  | step l =>
    rw [Ledger.next, Option.ite_none_right_eq_some] at hs'
    obtain ⟨hl, hs'⟩ := hs'
    obtain ⟨p', hp', rfl⟩ := Option.map_eq_some_iff.1 hs'
    exact ⟨next_sound h.sound hp', fun i hi => h.opening_step hp' hi, h.step hl hp'⟩

/-! ## Runs -/

/-- The runs of callers on a new pool, with the record of its connections. -/
abbrev Ledger.Runs (opts : Options) (f : Prefill) (tr : List Event) (s : Ledger) : Prop :=
  Machine.exec Ledger.next (.new opts f) tr = some s

theorem Ledger.new_sound (opts : Options) (f : Prefill) : (Ledger.new opts f).Sound where
  sound := Pool.new_sound opts f.dials
  opening _ _ := rfl
  custody := by
    have hsub : (Pool.new opts f.dials).idle.Sublist f.dials := List.take_sublist _ _
    exact Custody.start (f.fresh.sublist (hsub.append_right f.failed.toList))

/-- The step of the pool. -/
def Event.label : Event → Option Label
  | .opens _ _ => none
  | .step l => some l

/-- **The pool runs as it does without the record.** -/
theorem Ledger.runs_pool
    (h : Ledger.Runs opts f tr s) : Pool.Runs opts f.dials (tr.filterMap Event.label) s.pool := by
  refine Machine.invariant
    (I := fun tr s => Pool.Runs opts f.dials (tr.filterMap Event.label) s.pool) rfl ?_ h
  intro tr s e s' _ hrun hs'
  rw [List.filterMap_append]
  cases e with
  | opens i c =>
    rw [Ledger.next, Option.ite_none_right_eq_some] at hs'
    cases hs'.2
    exact (List.append_nil (tr.filterMap Event.label)).symm ▸ hrun
  | step l =>
    rw [Ledger.next, Option.ite_none_right_eq_some] at hs'
    obtain ⟨p', hp', rfl⟩ := Option.map_eq_some_iff.1 hs'.2
    exact Machine.exec_snoc.2 ⟨s.pool, hrun, hp'⟩

theorem Ledger.runs_sound (h : Ledger.Runs opts f tr s) : s.Sound :=
  Machine.invariant (I := fun _ s => s.Sound) (Ledger.new_sound opts f)
    (fun _ _ _ _ _ hI hnext => hI.next hnext) h

/-- No call is in progress. -/
def State.Quiet (p : State) : Prop := ∀ i, p.pc i = .out ∨ ∃ c, p.pc i = .holding c

/-- The caller is about to send a connection to the channel. -/
def State.Sends (p : State) (i : Caller) : Prop := (∃ c, p.pc i = .returning c) ∧ p.closed = false

theorem Ledger.Sound.carried_of_conn (h : s.Sound) (hi : (s.pool.pc i).conn = some c) :
    s.carried i = some c := by
  refine (h.carried_eq fun hdial => ?_).trans hi
  rw [hdial] at hi
  cases hi

theorem Ledger.Sound.holder_unique (h : s.Sound) (hi : (s.pool.pc i).conn = some c)
    (hj : (s.pool.pc j).conn = some c) : i = j :=
  h.custody.carrier_unique (h.carried_of_conn hi) (h.carried_of_conn hj)

/-- The connections of the holders, one for each. -/
theorem Ledger.Sound.checkedOut (h : s.Sound) : ∃ out : List ConnId, out.Nodup ∧
    (∀ c, c ∈ out ↔ ∃ i, s.pool.pc i = .holding c) ∧ s.pool.active = wrap32 out.length := by
  obtain ⟨hs, hnodup, hmem, hactive⟩ := h.sound.holders
  have hconn : ∀ i c, s.pool.pc i = .holding c → ((s.pool.pc i).conn).getD 0 = c := by
    intro i c hi
    rw [hi]
    rfl
  refine ⟨hs.map fun i => ((s.pool.pc i).conn).getD 0, ?_, fun c => ?_, ?_⟩
  · refine List.Nodup.map_on (fun i hi j hj heq => ?_) hnodup
    obtain ⟨c, hc⟩ := (hmem i).1 hi
    obtain ⟨c', hc'⟩ := (hmem j).1 hj
    rw [hconn i c hc, hconn j c' hc'] at heq
    subst heq
    exact h.holder_unique (by rw [hc, Pc.conn]) (by rw [hc', Pc.conn])
  · rw [List.mem_map]
    constructor
    · rintro ⟨i, hi, rfl⟩
      obtain ⟨c, hc⟩ := (hmem i).1 hi
      exact ⟨i, by rw [hconn i c hc, hc]⟩
    · rintro ⟨i, hi⟩
      exact ⟨i, (hmem i).2 ⟨c, hi⟩, hconn i c hi⟩
  · rw [hactive, List.length_map]

/-- A closed pool without callers is empty. -/
theorem Ledger.Sound.all_closed (h : s.Sound) (hclosed : s.pool.closed = true)
    (hout : ∀ i, s.pool.pc i = .out) (hc : c ∈ s.opened) : c ∈ s.shut := by
  have hidle : s.pool.idle = [] := by
    rcases h.sound.emptied.2.2 hclosed with ⟨i, hi⟩ | ⟨-, hidle⟩
    · rw [hout i] at hi
      exact hi.elim
    · exact hidle
  refine h.custody.all_gone hidle (fun i => ?_) hc
  rw [h.carried_eq (by simp [hout i]), hout i]
  rfl

/-- **Where the connections of a pool are.** In every run of callers that release what they have
checked out: nothing is sent on the closed channel, and nobody closes the pool while a `Put` has
the lock; a connection with a caller is with no other one and not in the channel; `active` is the
number of the connections that are checked out; and once the pool is closed, no call is in progress
and nothing is checked out, every connection that was opened has been closed. -/
theorem ledger_accounts {opts : Options} {f : Prefill} {tr : List Event}
    (h : Ledger.Runs opts f tr s) :
    (∀ i, s.pool.Sends i → s.pool.sealed = false) ∧
    (∀ i c, s.pool.pc i = .returning c → ∀ j, j ≠ i → ¬ (s.pool.pc j).Locks) ∧
    (∀ i j c, (s.pool.pc i).conn = some c → (s.pool.pc j).conn = some c → i = j) ∧
    (∀ i c, (s.pool.pc i).conn = some c → c ∉ s.pool.idle ∧ c ∉ s.shut) ∧
    (s.pool.Quiet → ∃ out : List ConnId, out.Nodup ∧
      (∀ c, c ∈ out ↔ ∃ i, s.pool.pc i = .holding c) ∧ s.pool.active = wrap32 out.length ∧
      ((out.length : Int) < 2 ^ 31 → s.pool.active = out.length)) ∧
    (s.pool.closed = true → s.pool.Quiet → (∀ i c, s.pool.pc i ≠ .holding c) →
      ∀ c ∈ s.opened, c ∈ s.shut) := by
  have hsound := Ledger.runs_sound h
  refine ⟨?_, ?_, fun i j c => hsound.holder_unique, ?_, ?_, ?_⟩
  · rintro i ⟨-, hopen⟩
    cases hsealed : s.pool.sealed with
    | false => rfl
    | true => exact absurd (hopen.symm.trans (hsound.sound.emptied.1 hsealed)) (by simp)
  · intro i c hi j hne hj
    have hmu := (hsound.sound.locked j hj).symm.trans (hsound.sound.locked i (by simp [hi]))
    exact hne (Option.some.inj hmu)
  · intro i c hi
    have hcarried := hsound.carried_of_conn hi
    exact ⟨fun hidle => hsound.custody.not_carried hidle hcarried,
      fun hshut => (hsound.custody.not_back hshut).2 i hcarried⟩
  · intro _
    obtain ⟨out, hnodup, hmem, hactive⟩ := hsound.checkedOut
    refine ⟨out, hnodup, hmem, hactive, fun hlt => ?_⟩
    rw [hactive, wrap32_of_small hlt]
  · intro hclosed hquiet hnone c hc
    refine hsound.all_closed hclosed (fun i => ?_) hc
    refine (hquiet i).resolve_right ?_
    rintro ⟨c', hc'⟩
    exact hnone i c' hc'

/-- Caller 0 holds the connection that `New` has dialed, and caller 2 closes the pool while caller 1
dials another one. -/
def closeMeanwhile : List Event :=
  [.step (.get 0), .step (.poll 0), .step (.checkOut 0),
    .step (.get 1), .step (.poll 1), .step (.load 1), .step (.compare 1), .opens 1 7,
    .step (.close 2), .step (.swap 2), .step (.closeConns 2), .step (.drain 2),
    .step (.dialed 1 7), .step (.checkOut 1), .step (.put 0), .step (.lock 0), .step (.send 0),
    .step (.drop 1), .step (.discard 1)]

theorem ledger_accounts_closeMeanwhile : ∃ s,
    Ledger.Runs { minIdle := 1, maxSize := 2 } { dials := [3], fresh := by simp } closeMeanwhile s ∧
      s.opened = [7, 3] ∧ ∀ c ∈ s.opened, c ∈ s.shut := by
  obtain ⟨s, hrun, hopened, hclosed, hout⟩ : ∃ s, Ledger.Runs { minIdle := 1, maxSize := 2 }
      { dials := [3], fresh := by simp } closeMeanwhile s ∧ s.opened = [7, 3] ∧
      s.pool.closed = true ∧ ∀ i, s.pool.pc i = .out := by
    refine ⟨_, rfl, rfl, rfl, fun i => ?_⟩
    rcases i with _ | _ | _ | i <;> rfl
  obtain ⟨-, -, -, -, -, hshut⟩ := ledger_accounts hrun
  refine ⟨s, hrun, hopened, hshut hclosed (fun i => .inl (hout i)) fun i c hi => ?_⟩
  rw [hout i] at hi
  cases hi

end RespProxy.Pool
