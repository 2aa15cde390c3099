import RespProxy.Cluster.Topology
import RespProxy.Lib.Machine

/-! # The server

`Serve` accepts clients, each with a goroutine of its own, until the listener fails. `sem` bounds
their number, and `waitDrain` waits for the goroutines.
-/

namespace RespProxy.Proxy

open Cluster

def respErrBusy : String := "-ERR max client connections reached\r\n"

/-- Where a client is: its goroutine is started, in `handleConn`, behind it, without a place in
`sem` again, or through; or the client was turned away. -/
inductive ClientPhase where
  | spawned | active | left | released | gone | refused (reply : String)
deriving DecidableEq

/-- The client has a place in `sem`. -/
def ClientPhase.holds (p : ClientPhase) : Bool := p = .spawned || p = .active || p = .left

/-- `wg` counts the goroutine. -/
def ClientPhase.busy (p : ClientPhase) : Bool := p.holds || p = .released

/-- `Serve` accepts, is in `waitDrain`, or has returned. -/
inductive ServePhase where
  | accepting | draining (err : Option Err) | returned (err : Option Err) (timedOut : Bool)
deriving DecidableEq

/-- `Server`, with `ctx` and the length of `sem`. -/
structure Server where
  cancelled : Bool := false
  phase : ServePhase := .accepting
  clients : List ClientPhase := []
  sem : Nat := 0
  wg : Int := 0
  active : Int := 0

inductive ServerLabel where
  | cancel
  | accept
  | acceptErr (err : Err) (timeout : Bool)
  | goroutine (i : Nat)
  | stop (timedOut : Bool)

namespace Server

/-- `cap` is `MaxClientConns`. -/
def next (cap : Nat) (s : Server) : ServerLabel → Option Server
  | .cancel => some { s with cancelled := true }
  | .accept =>
    -- also behind `cancel`, until the listener is closed
    if s.phase ≠ .accepting then none
    else if s.sem < cap then
      some { s with clients := s.clients ++ [.spawned], sem := s.sem + 1, wg := s.wg + 1 }
    else some { s with clients := s.clients ++ [.refused respErrBusy] }
  | .acceptErr err timeout =>
    if s.phase ≠ .accepting then none
    else if s.cancelled then some { s with phase := .draining none }
    else if timeout then some s
    else some { s with phase := .draining (some err) }
  | .goroutine i =>
    match s.clients[i]? with
    | some .spawned => some { s with clients := s.clients.set i .active, active := s.active + 1 }
    | some .active => some { s with clients := s.clients.set i .left, active := s.active - 1 }
    | some .left =>
      if s.sem = 0 then none
      else some { s with clients := s.clients.set i .released, sem := s.sem - 1 }
    | some .released => some { s with clients := s.clients.set i .gone, wg := s.wg - 1 }
    | _ => none
  | .stop timedOut =>
    match s.phase with
    | .draining err =>
      if timedOut ∨ s.wg = 0 then some { s with phase := .returned err timedOut } else none
    | _ => none

variable {cap : Nat} {s s' : Server} {l : ServerLabel}

/-- The counters count clients, and `Serve` returns for a reason. -/
structure Inv (cap : Nat) (s : Server) : Prop where
  sem : s.sem = s.clients.countP ClientPhase.holds
  room : s.sem ≤ cap
  active : s.active = s.clients.countP (· = .active)
  wg : s.wg = s.clients.countP ClientPhase.busy
  drained : ∀ err, s.phase = .returned err false → s.wg = 0
  cancelled : s.phase = .draining none ∨ (∃ b, s.phase = .returned none b) → s.cancelled = true

theorem countP_set {ps : List ClientPhase} {i : Nat} {p : ClientPhase} (hp : ps[i]? = some p)
    (q : ClientPhase) (P : ClientPhase → Bool) :
    (ps.set i q).countP P + (P p).toNat = ps.countP P + (P q).toNat := by
  obtain ⟨hi, hget⟩ := List.getElem?_eq_some_iff.1 hp
  have hpos : P p = true → 0 < ps.countP P :=
    fun h => List.countP_pos_iff.2 ⟨p, List.mem_of_getElem? hp, h⟩
  rw [List.countP_set hi, hget]
  cases hP : P p with
  | false => cases P q <;> simp
  | true =>
    have := hpos hP
    cases P q <;> simp <;> omega

/-- A goroutine goes on, and sets the counters. -/
theorem Inv.moved {i sem : Nat} {wg active : Int} {p : ClientPhase} (h : s.Inv cap)
    (hp : s.clients[i]? = some p) (q : ClientPhase) (hle : sem ≤ s.sem)
    (hsem : sem + p.holds.toNat = s.sem + q.holds.toNat)
    (hactive : active + (decide (p = .active)).toNat = s.active + (decide (q = .active)).toNat)
    (hwg : wg + 1 = s.wg + q.busy.toNat) (hbusy : p.busy = true) :
    Inv cap { s with clients := s.clients.set i q, sem, wg, active } := by
  have hholds := countP_set hp q ClientPhase.holds
  have hin := countP_set hp q (· = .active)
  have hcount := countP_set hp q ClientPhase.busy
  have hone := Bool.toNat_le q.busy
  rw [hbusy, Bool.toNat_true] at hcount
  obtain ⟨hs, hroom, ha, hw, hdrained, hcancel⟩ := h
  refine ⟨?_, Nat.le_trans hle hroom, ?_, ?_, fun err herr => ?_, hcancel⟩ <;> dsimp only
  · omega
  · omega
  · omega
  · -- the goroutine was counted, so this does not happen behind a drain
    have := hdrained err herr
    omega

theorem Inv.next (h : s.Inv cap) (hl : s.next cap l = some s') : s'.Inv cap := by
  cases l with
  | cancel =>
    cases hl
    exact { h with cancelled := fun _ => rfl }
  | accept =>
    rw [Server.next, Option.ite_none_left_eq_some, not_not] at hl
    obtain ⟨hphase, hl⟩ := hl
    split at hl <;> cases hl
    · refine ⟨?_, ‹_›, ?_, ?_, by simp [hphase], by simp [hphase]⟩ <;>
        simp [h.sem, h.active, h.wg, ClientPhase.busy, ClientPhase.holds]
    · refine ⟨?_, h.room, ?_, ?_, h.drained, h.cancelled⟩ <;>
        simp [h.sem, h.active, h.wg, ClientPhase.busy, ClientPhase.holds]
  | acceptErr err timeout =>
    rw [Server.next, Option.ite_none_left_eq_some] at hl
    replace hl := hl.2
    split at hl
    · cases hl
      exact { h with drained := by simp, cancelled := fun _ => ‹_› }
    split at hl <;> cases hl
    · exact h
    · exact { h with drained := by simp, cancelled := by simp }
  | goroutine i =>
    rw [Server.next] at hl
    split at hl
    · next hp =>
      cases hl
      exact h.moved hp .active (Nat.le_refl _) rfl (by simp) rfl rfl
    · next hp =>
      cases hl
      exact h.moved hp .left (Nat.le_refl _) rfl (by simp) rfl rfl
    · next hp =>
      obtain ⟨hpos, hl⟩ := Option.ite_none_left_eq_some.1 hl
      cases hl
      exact h.moved hp .released (Nat.sub_le _ _) (Nat.succ_pred hpos) (by simp) rfl rfl
    · next hp =>
      cases hl
      exact h.moved hp .gone (Nat.le_refl _) rfl (by simp)
        ((Int.sub_add_cancel _ _).trans (Int.add_zero _).symm) rfl
    · cases hl
  | stop timedOut =>
    rw [Server.next] at hl
    split at hl
    · next err herr =>
      obtain ⟨hstop, hl⟩ := Option.ite_none_right_eq_some.1 hl
      cases hl
      refine { h with drained := fun _ hr => ?_, cancelled := fun hr => h.cancelled (.inl ?_) }
      · cases hr
        simpa using hstop
      · simp at hr
        rw [herr, hr]
    · cases hl

/-- **Clients are served within the bound, and waited for.** At most `MaxClientConns` of them are
in `handleConn`, and one is turned away exactly if so many have a place. If `Serve` has returned
ahead of the timeout no goroutine is left, and if it has returned nil the context is cancelled. -/
theorem serve_bounded {tr : List ServerLabel} (h : Machine.exec (Server.next cap) {} tr = some s) :
    s.active ≤ cap ∧
      (s.next cap .accept = some { s with clients := s.clients ++ [.refused respErrBusy] } ↔
        s.phase = .accepting ∧ s.clients.countP ClientPhase.holds = cap) ∧
      (∀ err, s.phase = .returned err false → ∀ p ∈ s.clients, p.busy = false) ∧
      ∀ b, s.phase = .returned none b → s.cancelled = true := by
  have hinv : s.Inv cap := by
    refine Machine.invariant (I := fun _ s => Inv cap s) ?_ (fun _ _ _ _ _ hI => hI.next) h
    exact ⟨rfl, Nat.zero_le _, rfl, rfl, by simp, by simp⟩
  have hle : s.active ≤ s.sem := by
    rw [hinv.active, hinv.sem]
    exact Int.ofNat_le.2 (List.countP_mono_left fun p _ hp => by
      rw [of_decide_eq_true hp]
      rfl)
  refine ⟨Int.le_trans hle (Int.ofNat_le.2 hinv.room), ⟨fun ha => ?_, ?_⟩, fun err herr => ?_,
    fun b hb => hinv.cancelled (.inr ⟨b, hb⟩)⟩
  · rw [next, Option.ite_none_left_eq_some, not_not] at ha
    refine ⟨ha.1, hinv.sem ▸ Nat.le_antisymm hinv.room (Nat.le_of_not_lt fun hlt => ?_)⟩
    rw [if_pos hlt] at ha
    simp at ha
  · rintro ⟨hphase, hfull⟩
    rw [next, if_neg (not_not.2 hphase), if_neg (by rw [hinv.sem, hfull]; exact Nat.lt_irrefl _)]
  · have hzero := hinv.wg.symm.trans (hinv.drained err herr)
    simpa using List.countP_eq_zero.1 (Int.ofNat_eq_zero.1 hzero)

/-- A second client is turned away, and the first one does not leave in time. -/
theorem serve_bounded_one : ∃ s : Server,
    Machine.exec (Server.next 1) {} [.accept, .accept, .cancel, .acceptErr "closed" false,
      .stop true] = some s ∧ s.clients = [.spawned, .refused respErrBusy] ∧ s.cancelled = true := by
  have hrun : Machine.exec (Server.next 1) {} [.accept, .accept, .cancel, .acceptErr "closed" false,
    .stop true] = some _ := rfl
  exact ⟨_, hrun, rfl, (serve_bounded hrun).2.2.2 _ rfl⟩

end Server

end RespProxy.Proxy
