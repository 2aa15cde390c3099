import Mathlib.Algebra.Group.Int.Defs
import Mathlib.Data.List.Perm.Subperm
import RespProxy.Pool

/-! # How many connections a pool has open

`Get` compares `active` and the length of the channel with `MaxSize`, dials, and only
then adds to `active`; `Put` and `Drop` take away from `active` before the connection is
back in the channel or closed. So the count that a caller compares can be behind: it is
right if no other caller is on one of these ways (`Exclusive`).
-/

namespace RespProxy.Pool

variable {p p' : State} {i j : Caller} {c : ConnId} {hs : List Caller}

/-- The caller has an open connection. -/
@[simp] def Pc.Open : Pc → Prop
  | .got _ | .holding _ | .putting _ | .returning _ | .dropping _ => True
  | _ => False

/-- The caller has a connection that `active` does not count, or is about to. -/
def Pc.InFlight : Pc → Prop
  | .dialing | .got _ | .putting _ | .returning _ | .dropping _ => True
  | _ => False

/-- The open connections, idle and with callers, are at most `MaxSize`. -/
def State.Within (p : State) : Prop :=
  ∀ hs : List Caller, hs.Nodup → (∀ i ∈ hs, (p.pc i).Open) →
    (p.idle.length + hs.length : Int) ≤ p.maxSize

/-- The condition on the comparison in `Get`: nobody is between a comparison and
`active.Add(1)`, or between `active.Add(-1)` and the end of `Put` or `Drop`; `active` has
not grown since it was read; and it does not overflow. -/
def Exclusive (p : State) : Label → Prop
  | .compare i => p.maxSize < 2 ^ 31 ∧ (∀ j, ¬ (p.pc j).InFlight) ∧
      ∀ active, p.pc i = .counted active → p.active ≤ active
  | _ => True

/-! ## The invariant -/

/-- The caller has a connection, or is about to. -/
@[simp] def Pc.Reserves (pc : Pc) : Prop := pc.Open ∨ pc = .dialing

/-- The connections, those about to be dialed included, are at most `MaxSize`. -/
def State.Fits (p : State) : Prop :=
  ∀ hs : List Caller, hs.Nodup → (∀ i ∈ hs, (p.pc i).Reserves) →
    (p.idle.length + hs.length : Int) ≤ p.maxSize

structure Bounded (p : State) : Prop where
  holders : p.Counted
  queue : p.Queued
  fits : p.Fits

theorem State.Fits.within (h : p.Fits) : p.Within :=
  fun hs hnodup hopen => h hs hnodup fun i hi => .inl (hopen i hi)

/-- Only callers that had a connection before have one now. -/
theorem State.Fits.mono (h : p.Fits) (hidle : p'.idle.length ≤ p.idle.length)
    (hmax : p'.maxSize = p.maxSize) (hpc : ∀ i, (p'.pc i).Reserves → (p.pc i).Reserves) :
    p'.Fits := by
  intro hs hnodup hres
  have hle := h hs hnodup fun i hi => hpc i (hres i hi)
  rw [hmax]
  omega

theorem State.Fits.goto (h : p.Fits) {pc : Pc} (hpc : pc.Reserves → (p.pc i).Reserves) :
    (p.goto i pc).Fits := by
  refine h.mono (Nat.le_refl _) rfl fun j hj => ?_
  by_cases hne : j = i
  · subst hne
    rw [goto_self] at hj
    exact hpc hj
  · rwa [goto_other p pc hne] at hj

/-- Callers other than `i` that have a connection behind a move had it before. -/
theorem reserves_erase {pc : Pc} (hnodup : hs.Nodup)
    (hres : ∀ j ∈ hs, ((p.goto i pc).pc j).Reserves) : ∀ j ∈ hs.erase i, (p.pc j).Reserves := by
  intro j hj
  obtain ⟨hne, hj⟩ := hnodup.mem_erase_iff.1 hj
  have hr := hres j hj
  rwa [goto_other p pc hne] at hr

theorem length_le_erase (hs : List Caller) (i : Caller) :
    (hs.length : Int) ≤ (hs.erase i).length + 1 := by
  have hle : hs.length - 1 ≤ (hs.erase i).length := List.le_length_erase
  omega

/-- One caller more, if there is room for it. -/
theorem State.Fits.one_more (h : ∀ hs : List Caller, hs.Nodup → (∀ j ∈ hs, (p.pc j).Reserves) →
    (p.idle.length + hs.length : Int) < p.maxSize) (pc : Pc) : (p.goto i pc).Fits := by
  intro hs hnodup hres
  have hlt := h (hs.erase i) (hnodup.erase i) (reserves_erase hnodup hres)
  have hle := length_le_erase hs i
  show (p.idle.length + hs.length : Int) ≤ p.maxSize
  omega

/-- A caller that gives its connection away leaves room for one. -/
theorem State.Fits.room (h : p.Fits) (hi : (p.pc i).Reserves) {pc : Pc} (hpc : ¬ pc.Reserves)
    (hnodup : hs.Nodup) (hres : ∀ j ∈ hs, ((p.goto i pc).pc j).Reserves) :
    (p.idle.length + hs.length : Int) < p.maxSize := by
  have hnot : i ∉ hs := by
    intro hmem
    have hr := hres i hmem
    rw [goto_self] at hr
    exact hpc hr
  have hle := h (i :: hs) (List.nodup_cons.2 ⟨hnot, hnodup⟩) fun j hj => by
    rcases List.mem_cons.1 hj with rfl | hmem
    · exact hi
    · have hne : j ≠ i := by
        rintro rfl
        exact hnot hmem
      have hr := hres j hmem
      rwa [goto_other p pc hne] at hr
  rw [List.length_cons, Int.natCast_add] at hle
  omega

/-- A receive from the channel. -/
theorem State.Fits.receive (h : p.Fits) {onClosed : Pc}
    (hpc : onClosed.Reserves → (p.pc i).Reserves) (hp' : p.receive i onClosed = some p') :
    p'.Fits := by
  obtain ⟨c, idle, hidle, rfl⟩ | ⟨-, rfl⟩ := receive_cases hp'
  · -- one connection less in the channel, one caller more with one
    intro hs hnodup hres
    have hle := h (hs.erase i) (hnodup.erase i) (reserves_erase hnodup hres)
    have hlen := length_le_erase hs i
    rw [hidle, List.length_cons, Int.natCast_add] at hle
    show (idle.length + hs.length : Int) ≤ p.maxSize
    omega
  · exact h.goto hpc

theorem wrap32_of_small {n : Nat} (h : (n : Int) < 2 ^ 31) : wrap32 n = n := by
  unfold wrap32
  rw [Int.bmod_eq_of_le_mul_two (by omega) (by omega)]

/-- A comparison at a quiet moment lets a caller dial only if there is room. -/
theorem Bounded.compare (h : Bounded p) {active : Int} (hi : p.pc i = .counted active)
    (hex : Exclusive p (.compare i)) (hlt : active + p.idle.length < p.maxSize) :
    (p.goto i .dialing).Fits := by
  obtain ⟨hmax, hquiet, hread⟩ := hex
  obtain ⟨hs₀, hnodup₀, hmem, hcount⟩ := h.holders
  have hfits₀ := h.fits hs₀ hnodup₀ fun j hj => by
    obtain ⟨c, hc⟩ := (hmem j).1 hj
    rw [hc]
    exact .inl trivial
  have hactive : (hs₀.length : Int) ≤ active := by
    have hle := hread active hi
    rw [hcount, wrap32_of_small (by omega)] at hle
    exact hle
  refine State.Fits.one_more (fun hs hnodup hres => ?_) _
  -- at a quiet moment all connections are with holders
  have hsub : hs ⊆ hs₀ := by
    intro j hj
    rw [hmem]
    have hr := hres j hj
    have hq := hquiet j
    cases hpc : p.pc j <;> simp_all [Pc.Reserves, Pc.Open, Pc.InFlight]
  have hlen : hs.length ≤ hs₀.length := (List.Nodup.subperm hnodup hsub).length_le
  omega

theorem State.Fits.send (h : p.Fits) (hi : p.pc i = .returning c) :
    State.Fits (if p.closed then { p.goto i .out with mu := none }
      else State.offer { p.goto i .out with mu := none } c) := by
  have hroom : ∀ hs : List Caller, hs.Nodup → (∀ j ∈ hs, ((p.goto i .out).pc j).Reserves) →
      (p.idle.length + hs.length : Int) < p.maxSize :=
    fun hs => h.room (by simp [hi]) (by simp)
  have hout : (p.goto i .out).Fits :=
    fun hs hnodup hres => Int.le_of_lt (hroom hs hnodup hres)
  split
  · exact hout
  · obtain ⟨j, recvq, -, heq⟩ | ⟨-, -, heq⟩ | ⟨-, -, heq⟩ :=
      offer_cases { p.goto i .out with mu := none } c
    · rw [heq]
      exact State.Fits.one_more (p := p.goto i .out) hroom _
    · rw [heq]
      intro hs hnodup hres
      have hlt := hroom hs hnodup hres
      show ((p.idle ++ [c]).length + hs.length : Int) ≤ p.maxSize
      rw [List.length_append, List.length_singleton, Int.natCast_add]
      omega
    · rw [heq]
      exact hout

/-- `close(p.conns)` checks nothing out. -/
theorem State.Fits.sealConns (h : p.Fits) (i : Caller) : (p.sealConns i).Fits := by
  refine h.mono (Nat.le_refl _) rfl fun j hj => ?_
  dsimp only [State.sealConns] at hj
  split at hj
  · simp at hj
  · split at hj
    · simp at hj
    · exact hj

theorem next_fits {l : Label} (h : Bounded p) (hl : Exclusive p l) (hp' : p.next l = some p') :
    p'.Fits := by
  have hfits := h.fits
  cases step_of_next hp' with
  | get hi => split <;> exact hfits.goto (by simp)
  | polled hi hr | selected hi hr => exact hfits.receive (by simp) hr
  | dial hi hlt => exact h.compare hi hl hlt
  | dialed hi | checkOut hi | put hi | lock hi | drop hi => exact hfits.goto (by simp [hi])
  | send hi => exact hfits.send hi
  | @closeConns i _ => exact hfits.sealConns i
  | drain hi hidle => exact hfits.mono (by simp [hidle]) rfl fun _ hj => hj
  | missed | load | full | dialFailed | expired | waits | park | cancel | unpark | discard | close
  | again | swap | drained => exact hfits.goto (by simp)

/-- **Every step keeps the bound, if comparisons are made at quiet moments.** -/
theorem next_bounded {l : Label} (h : Bounded p) (hl : Exclusive p l) (hp' : p.next l = some p') :
    Bounded p' where
  holders := next_counted h.holders h.queue hp'
  queue := next_queued h.queue hp'
  fits := next_fits h hl hp'

/-! ## Runs -/

theorem new_bounded (opts : Options) (dials : List ConnId) : Bounded (new opts dials) where
  holders := (new_inv opts dials).holders
  queue := (new_inv opts dials).queue
  fits := by
    intro hs _ hres
    have hnil : hs = [] := List.eq_nil_iff_forall_not_mem.2 fun i hi => by
      simpa [new] using hres i hi
    have hsize := (new_inv opts dials).size
    have hidle : (new opts dials).idle.length ≤ (min opts.minIdle (new opts dials).maxSize).toNat :=
      List.length_take_le _ _
    rw [hnil, List.length_nil]
    omega

/-- **If every comparison is made at a quiet moment, the pool never has more than `MaxSize`
connections open.** -/
theorem within_of_exclusive {opts : Options} {dials : List ConnId} {tr : List Label}
    (hex : Machine.Meets State.next Exclusive (new opts dials) tr) (h : Runs opts dials tr p) :
    p.Within :=
  (Machine.invariant_of_meets (I := fun _ p => Bounded p) (new_bounded opts dials)
    (fun _ _ _ _ _ hI hC hnext => next_bounded hI hC hnext) hex h).fits.within

/-- Caller 0 dials the only connection of the pool and returns it; caller 1 takes it. -/
def inTurn : List Label :=
  [.get 0, .poll 0, .load 0, .compare 0, .dialed 0 7, .checkOut 0, .put 0, .lock 0, .send 0,
    .get 1, .poll 1, .checkOut 1]

theorem within_of_exclusive_inTurn :
    ∃ p, Runs { maxSize := 1 } [] inTurn p ∧ p.pc 1 = .holding 7 ∧ p.Within := by
  have hrun : Runs { maxSize := 1 } [] inTurn _ := rfl
  have hex : Machine.Meets State.next Exclusive (new { maxSize := 1 } []) inTurn := by
    iterate 3 refine Machine.meets_cons trivial fun _ h => ?_; cases h
    refine Machine.meets_cons ⟨by decide, fun j => ?_, ?_⟩ fun _ h => ?_
    · by_cases hj : j = 0 <;> simp [State.goto, State.receive, new, Pc.InFlight, hj]
    · rintro active ⟨⟩
      exact Int.le_refl _
    cases h
    iterate 8 refine Machine.meets_cons trivial fun _ h => ?_; cases h
    exact Machine.meets_nil
  exact ⟨_, hrun, rfl, within_of_exclusive hex hrun⟩

/-- Two callers compare before either has dialed. -/
def bothDial : List Label :=
  [.get 0, .poll 0, .load 0, .compare 0, .get 1, .poll 1, .load 1, .compare 1,
    .dialed 0 7, .dialed 1 8]

theorem two_dials_exceed_maxSize :
    ¬ ∀ opts dials tr p, Runs opts dials tr p → p.Within := by
  intro h
  have hrun : Runs { maxSize := 1 } [] bothDial _ := rfl
  have hle := h _ _ _ _ hrun [0, 1] (by decide) (by
    intro i hi
    simp only [List.mem_cons, List.not_mem_nil, or_false] at hi
    rcases hi with rfl | rfl <;> trivial)
  exact absurd hle (by decide)

end RespProxy.Pool
