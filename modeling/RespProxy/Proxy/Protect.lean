import RespProxy.Proxy.Names
import RespProxy.Proxy.Watch

/-! # The protection of `WATCH`

A client that was told `OK` for a `WATCH` relies on its next `EXEC` to be issued on the
connection that watches the key. `Watch` remembers this connection, and what the session
has done since; `Promised` is the states a session reaches with the watches that were
acknowledged since the last command that takes them back.

As long as the pinned connection is not lost while keys are watched, `EXEC` goes where the
watches are (`protected_of_unbroken`). It is lost without notice in two ways: a further
`WATCH` fails (`Unbroken`), or the classification pass of a slow batch comes upon a `RESET`
(`Unreset`), which it carries out ahead of the commands before it.
-/

namespace RespProxy.Proxy

open Cluster Command Resp Interact

variable {cfg : Config} {s s' : Session} {c : ClientCmd} {tr tr' : Trace} {r : Session × Outcome}
variable {b : List ClientCmd} {conn : ConnId} {v : Value}

/-! ## Acknowledged watches -/

/-- A `WATCH` that a backend acknowledged: its connection, and what happened since. -/
structure Watch where
  conn : ConnId
  since : Trace

def Watch.later (tr : Trace) (w : Watch) : Watch := { w with since := w.since ++ tr }

/-- The acknowledgements in a trace. -/
def acked : Trace → List Watch
  | [] => []
  | ⟨.read conn _, .ok v⟩ :: tr =>
    if v = plusOK then { conn, since := tr } :: acked tr else acked tr
  | _ :: tr => acked tr

/-- The commands that take watches back. -/
def releasingNames : List String := ["EXEC", "DISCARD", "UNWATCH", "RESET"]

/-- The acknowledged watches when a command is handled. -/
def watchesAfter (W : List Watch) (c : ClientCmd) (tr : Trace) : List Watch :=
  if c.name ∈ releasingNames then []
  else W.map (Watch.later tr) ++ if c.name = "WATCH" then acked tr else []

/-- The acknowledged watches when a fast batch is handled. -/
def watchesPiped (W : List Watch) (b : List ClientCmd) (tr : Trace) : List Watch :=
  if ∃ c ∈ b, c.name ∈ releasingNames then [] else W.map (Watch.later tr)

/-- The states a session reaches between commands, with the watches that are acknowledged,
if every command that is handled meets `D` and every slow batch meets `C`. -/
inductive Promised (cfg : Config) (D : StepCond) (C : Session → List ClientCmd → Prop) :
    Session → List Watch → Prop where
  | new : Promised cfg D C (newSession cfg) []
  | handled {s s' : Session} {W : List Watch} {c : ClientCmd} {tr : Trace}
      (h : Promised cfg D C s W) (hD : D s c tr) (hrun : (handle cfg s c).Runs tr (s', .ok)) :
      Promised cfg D C s' (watchesAfter W c tr)
  /-- the classification pass of a slow batch -/
  | passed {s : Session} {W : List Watch} {tr : Trace} (b : List ClientCmd)
      (h : Promised cfg D C s W) (hs : batchSlow cfg s b = true) (hC : C s b)
      (hq : IdleTrace tr) : Promised cfg D C (batchState cfg s b) (W.map (Watch.later tr))
  /-- a fast batch -/
  | piped {s s' : Session} {W : List Watch} {b : List ClientCmd} {ks : List Classified}
      {tr tr' : Trace} (h : Promised cfg D C s W) (hs : batchSlow cfg s b = false)
      (hk : ClassifiesAll cfg s b ks) (hq : IdleTrace tr)
      (hrun : (execFastPipeline cfg (batchState cfg s b) b ks).Runs tr' (s', .ok)) :
      Promised cfg D C s' (watchesPiped W b (tr ++ tr'))

/-- `UNWATCH` or `EXEC` is written to the connection. -/
def Releases (conn : ConnId) (e : Event) : Prop :=
  match e.op with
  | .write d fs => d = conn ∧ ∃ f ∈ fs, nameOf f.argv ∈ ["EXEC", "UNWATCH"]
  | _ => False

/-- A `WATCH` does not fail while keys are watched. -/
def Unbroken : StepCond := fun s c tr => c.name = "WATCH" → s.watched = [] ∨ NoFault tr

/-- No `RESET` is in a slow batch while keys are watched. -/
def Unreset (s : Session) (b : List ClientCmd) : Prop :=
  s.watched = [] ∨ ∀ c ∈ b, c.name ≠ "RESET"

/-! ## What commands write -/

theorem unsent_releasing : Unsent ["EXEC", "UNWATCH"] := ⟨by decide, by decide, by decide⟩

/-- A trace without `EXEC` and `UNWATCH`. -/
def Holds (tr : Trace) : Prop :=
  ∀ e ∈ tr, Foot (fun f => nameOf f.argv ∉ ["EXEC", "UNWATCH"]) (fun _ _ => True) e

theorem Holds.not_releases (h : Holds tr) {e : Event} (he : e ∈ tr) (conn : ConnId) :
    ¬ Releases conn e := by
  have hfoot := h e he
  obtain ⟨o, x⟩ := e
  cases o with
  | write d fs =>
    rintro ⟨-, f, hf, hname⟩
    exact hfoot f hf hname
  | _ => exact id

theorem Quiet.holds (h : Quiet tr) : Holds tr :=
  fun e he => (h e he).mono (fun _ hf => hf.elim) fun _ _ _ => trivial

theorem finish_holds {id : CmdId} (h : (finish s id v).Runs tr r) : Holds tr :=
  ((finish_sends (R := fun _ _ => True) trivial).runs h fun _ _ => (trivial : anyAnswer _)).1

theorem Holds.append (h : Holds tr) (h' : Holds tr') : Holds (tr ++ tr') :=
  List.forall_mem_append.2 ⟨h, h'⟩

/-- Only `EXEC` and `UNWATCH` write these. -/
theorem handle_holds (hs : QueueSpares ["EXEC", "UNWATCH"] s) (hn : c.name ∉ ["EXEC", "UNWATCH"])
    (h : (handle cfg s c).Runs tr r) : Holds tr := by
  obtain ⟨htr, -⟩ := (handle_sends anyAnswer cfg s c).runs h fun _ _ => trivial
  intro e he
  refine (htr e he).mono (fun f hf => ?_) fun _ _ _ => trivial
  exact hf.unsent unsent_releasing hs fun hc => absurd hc hn

theorem piped_holds {ks : List Classified} (hk : ClassifiesAll cfg s b ks)
    (h : (execFastPipeline cfg (batchState cfg s b) b ks).Runs tr r) : Holds tr := by
  obtain ⟨htr, -⟩ := (execFastPipeline_sends (A := anyAnswer) hk).runs h fun _ _ => trivial
  intro e he
  refine (htr e he).mono ?_ fun _ _ _ => trivial
  rintro f ⟨pre, c, post, -, hf⟩
  exact hf.unsent unsent_releasing

theorem localStep_sameWatch {argv : Argv} (hn : nameOf argv ≠ "RESET") :
    SameWatch s (localStep cfg s argv).1 := by
  have hl := localStep_local cfg s argv
  generalize localStep cfg s argv = x at hl
  cases hl with
  | reset _ hn' => exact absurd hn' hn
  | pass | answer | noAuth | auth | quit => exact ⟨rfl, rfl⟩

theorem ClientCmd.nameOf_ne {w : String} (hn : c.name ≠ w) (hw : w ≠ "") : nameOf c.argv ≠ w := by
  have hmem : nameOf c.argv ∉ [w] :=
    ClientCmd.nameOf_not_mem (by simpa using hn) (by simpa using hw.symm)
  simpa using hmem

theorem selectStep_sameWatch (s : Session) (c : ClientCmd) : SameWatch s (selectStep cfg s c).1 := by
  unfold selectStep Session.enqueue
  grind [SameWatch]

/-- Other commands leave watched keys and the pin alone. -/
theorem handle_sameWatch (hn : c.name ∉ ["EXEC", "WATCH", "UNWATCH", "RESET"])
    (h : (handle cfg s c).Runs tr r) : SameWatch s r.1 := by
  cases handle_runs h with
  | empty => exact ⟨rfl, rfl⟩
  | sub _ _ h =>
    rcases handleSub_watch h with hr | hr <;> rw [hr] <;> exact ⟨rfl, rfl⟩
  | select _ _ h =>
    rw [finish_state h]
    exact selectStep_sameWatch s c
  | here _ _ _ _ h =>
    rw [finish_state h]
    exact localStep_sameWatch (ClientCmd.nameOf_ne (by simp_all) (by decide))
  | remote _ _ _ h => exact (handleRemote_runs h).watch_eq (by simp_all)

theorem classifyState_sameWatch (hn : c.name ≠ "RESET") :
    SameWatch s (classifyState cfg s c) := by
  unfold classifyState
  split
  · exact ⟨rfl, rfl⟩
  split
  · unfold classifySelect
    split
    · exact ⟨rfl, rfl⟩
    · split <;> exact ⟨rfl, rfl⟩
  · exact localStep_sameWatch (ClientCmd.nameOf_ne hn (by decide))

theorem SameWatch.trans {s₁ s₂ s₃ : Session} (h : SameWatch s₁ s₂) (h' : SameWatch s₂ s₃) :
    SameWatch s₁ s₃ := ⟨h'.1.trans h.1, h'.2.trans h.2⟩

theorem batchState_sameWatch (hn : ∀ c ∈ b, c.name ≠ "RESET") :
    SameWatch s (batchState cfg s b) := by
  induction b generalizing s with
  | nil => exact ⟨rfl, rfl⟩
  | cons c cs ih =>
    have hc : SameWatch s (classifyState cfg s c) :=
      classifyState_sameWatch (hn c List.mem_cons_self)
    exact hc.trans (ih fun d hd => hn d (List.mem_cons_of_mem c hd))

theorem batchState_queueSpares {names : List String} (hs : QueueSpares names s)
    (b : List ClientCmd) : QueueSpares names (batchState cfg s b) := by
  induction b generalizing s with
  | nil => exact hs
  | cons c cs ih => exact ih (classifyState_queueSpares hs c)

/-! ## The commands of transactions -/

/-- The commands of transactions are refused without a word to a backend, or carried out. -/
theorem handle_transaction (hn : c.name ∈ ["EXEC", "WATCH", "UNWATCH"])
    (h : (handle cfg s c).Runs tr r) :
    (Holds tr ∧ SameWatch s r.1 ∧ ∀ f, answered f tr = false) ∨ RemoteRun cfg s c tr r := by
  cases handle_runs h with
  | empty => exact .inl ⟨nofun, ⟨rfl, rfl⟩, fun _ => rfl⟩
  | sub _ _ h =>
    refine .inl ⟨?_, ?_, handleSub_unheard hn h⟩
    · rw [handleSub_refuses hn] at h
      exact ((replyAll_sends (R := fun _ _ => True) fun _ _ => trivial).runs h
        fun _ _ => (trivial : anyAnswer _)).1
    · rcases handleSub_watch h with hr | hr <;> rw [hr] <;> exact ⟨rfl, rfl⟩
  | select _ hsel =>
    rw [hsel] at hn
    exact absurd hn (by decide)
  | here _ _ _ hq h =>
    refine .inl ⟨hq.quiet.holds.append (finish_holds h), ?_, fun f => ?_⟩
    · rw [finish_state h]
      refine localStep_sameWatch (ClientCmd.nameOf_ne ?_ (by decide))
      rintro hreset
      rw [hreset] at hn
      exact absurd hn (by decide)
    · rw [answered_append, finish_answered h, Bool.or_false]
      refine SetupTrace.answered (fun e he => ?_) f
      have hidle := hq e he
      obtain ⟨o, x⟩ := e
      cases o <;> trivial
  | remote _ _ _ h => exact .inr (handleRemote_runs h)

/-- The exits of `cmdWatch`. -/
inductive WatchRun (s : Session) (c : ClientCmd) : Trace → Session × Outcome → Prop where
  | panic : WatchRun s c [] (s, .panic)
  /-- no keys, or no connection for them -/
  | refused {v : Value} {t₀ t₁ : Trace} {r : Session × Outcome} (hq : SetupTrace t₀)
      (h : (finish s c.id v).Runs t₁ r) : WatchRun s c (t₀ ++ t₁) r
  /-- an I/O error on the connection -/
  | failed {tr : Trace} {r : Session × Outcome} (hf : ¬ NoFault tr)
      (hno : ∀ f, answered f tr = false) : WatchRun s c tr r
  | done {pin : ConnId} {gen : Nat} {keys : List Slice} {f : Frame} {v : Value} {t₀ t₁ : Trace}
      {r : Session × Outcome} (hq : SetupTrace t₀) (hpin : s.pin = none ∨ s.pin = some pin)
      (hkeys : keys ≠ [])
      (h : (finish { s with pin := some pin, pinGen := gen, watched := s.watched ++ keys }
        c.id v).Runs t₁ r) :
      WatchRun s c (t₀ ++ [⟨.write pin [f], none⟩, ⟨.read pin f, .ok v⟩] ++ t₁) r

theorem ensurePin_setup (slot : Nat) :
    Setup (fun x => ∀ s' pin, x = .ok (s', pin) → (s.pin = none ∨ s.pin = some pin) ∧
      ∃ gen, s' = { s with pin := some pin, pinGen := gen }) (ensurePin cfg s slot) := by
  unfold ensurePin
  cases hpin : s.pin with
  | some pin =>
    rintro s' _ ⟨⟩
    exact ⟨.inr rfl, s.pinGen, by rw [← hpin]⟩
  | none =>
    refine (checkout_setup slot).bind ?_
    intro x _
    cases x with
    | error e => exact nofun
    | ok conn =>
      intro t _
      refine ⟨trivial, ?_⟩
      rintro s' _ ⟨⟩
      exact ⟨.inl rfl, _, rfl⟩

theorem doFrame_fault {g : Frame} {e : Err}
    (h : (doFrame conn g).Runs tr (.error e)) : ¬ NoFault tr := by
  obtain ⟨x, tr, rfl, h⟩ := h
  cases x with
  | some e' => exact fun hno => (noFault_cons.1 hno).1 trivial
  | none =>
    obtain ⟨y, tr, rfl, h⟩ := h
    cases y with
    | error e' => exact fun hno => (noFault_cons.1 (noFault_cons.1 hno).2).1 trivial
    | ok v =>
      obtain ⟨-, h⟩ := h
      cases h

theorem watchKeys_runs {argv : Argv} {keys : List Slice} {slot : Nat} (hkeys : keys ≠ [])
    (h : (watchKeys cfg s c argv keys slot).Runs tr r) : WatchRun s c tr r := by
  obtain ⟨t₀, x, t₁, h₀, h₁, rfl⟩ := Prog.runs_bind.1 h
  obtain ⟨hq, hensured⟩ := Setup.runs (ensurePin_setup slot) h₀
  cases x with
  | error e => exact .refused hq h₁
  | ok y =>
    obtain ⟨s₁, pin⟩ := y
    obtain ⟨hpin, gen, rfl⟩ := hensured s₁ pin rfl
    obtain ⟨t₁, z, t₂, hdo, h₂, rfl⟩ := Prog.runs_bind.1 h₁
    cases z with
    | error e =>
      obtain ⟨t₂, s₂, t₃, hdrop, h₃, rfl⟩ := Prog.runs_bind.1 h₂
      obtain ⟨hq₂, -⟩ := Setup.runs (Idle.setup (dropPin_idle _)) hdrop
      refine .failed (fun hno => ?_) fun f => ?_
      · exact doFrame_fault hdo (noFault_append.1 (noFault_append.1 hno).2).1
      · simp only [answered_append, hq.answered, doFrame_error hdo, hq₂.answered,
          finish_answered h₃, Bool.or_self]
    | ok v =>
      rw [doFrame_ok hdo, ← List.append_assoc]
      refine .done hq hpin ?_ h₂
      simpa [cloneArgv] using hkeys

theorem cmdWatch_runs (h : (cmdWatch cfg s c).Runs tr r) : WatchRun s c tr r := by
  have hrefused : ∀ {v}, (finish s c.id v).Runs tr r → WatchRun s c tr r :=
    fun h => @WatchRun.refused s c _ [] tr r nofun h
  have hpanic : ((pure (s, .panic) : Prog (Session × Outcome)).Runs tr r) → WatchRun s c tr r := by
    rintro ⟨rfl, rfl⟩
    exact .panic
  unfold cmdWatch at h
  split at h
  · exact hrefused h
  split at h
  · exact hpanic h
  split at h
  · exact hpanic h
  · exact hrefused h
  split at h
  · exact hrefused h
  · exact watchKeys_runs (by simp) h

/-- Answers before an acknowledgement are not lost. -/
theorem acked_append (h : ∀ f, answered f tr = false) : acked (tr ++ tr') = acked tr' := by
  induction tr with
  | nil => rfl
  | cons e tr ih =>
    have hrest : ∀ f, answered f tr = false := by
      intro f
      have hf := h f
      rw [answered, List.any_cons, Bool.or_eq_false_iff] at hf
      exact hf.2
    obtain ⟨o, x⟩ := e
    cases o with
    | read conn g =>
      cases x with
      | error e => exact ih hrest
      | ok v =>
        have hg := h g
        simp [answered] at hg
    | _ => exact ih hrest

theorem acked_eq_nil (h : ∀ f, answered f tr = false) : acked tr = [] := by
  have happend : acked (tr ++ []) = acked [] := acked_append h
  rwa [List.append_nil] at happend

/-! ## The invariant -/

/-- The pinned connection has all acknowledged watches, and they were not released. -/
structure Kept (s : Session) (W : List Watch) : Prop where
  pinned : ∀ w ∈ W, s.pin = some w.conn
  clean : ∀ w ∈ W, ∀ e ∈ w.since, ¬ Releases w.conn e
  keys : W ≠ [] → s.watched ≠ []
  queue : QueueSpares ["EXEC", "UNWATCH"] s

variable {W : List Watch}

theorem Kept.nil (hq : QueueSpares ["EXEC", "UNWATCH"] s) : Kept s [] :=
  ⟨nofun, nofun, fun h => absurd rfl h, hq⟩

theorem Watch.not_released {w : Watch} (h : ∀ e ∈ w.since, ¬ Releases w.conn e) (htr : Holds tr) :
    ∀ e ∈ (w.later tr).since, ¬ Releases w.conn e := by
  intro e he
  rcases List.mem_append.1 he with he | he
  · exact h e he
  · exact htr.not_releases he _

/-- Time goes by. -/
theorem Kept.later (h : Kept s W) (hsame : SameWatch s s')
    (hq : QueueSpares ["EXEC", "UNWATCH"] s') (htr : Holds tr) :
    Kept s' (W.map (Watch.later tr)) := by
  refine ⟨List.forall_mem_map.2 fun w hw => ?_, List.forall_mem_map.2 fun w hw => ?_, fun hne => ?_,
    hq⟩
  · exact hsame.2.trans (h.pinned w hw)
  · exact Watch.not_released (h.clean w hw) htr
  · rw [hsame.1]
    exact h.keys fun hnil => hne (by rw [hnil]; rfl)

/-- `WATCH` itself. -/
theorem Kept.watch (h : Kept s W) (hrun : WatchRun s c tr r) (htr : Holds tr)
    (hq : QueueSpares ["EXEC", "UNWATCH"] r.1) (hD : s.watched = [] ∨ NoFault tr) :
    Kept r.1 (W.map (Watch.later tr) ++ acked tr) := by
  cases hrun with
  | panic =>
    rw [acked, List.append_nil]
    exact h.later ⟨rfl, rfl⟩ hq htr
  | refused hsetup hfin =>
    rw [acked_eq_nil fun f => by rw [answered_append, hsetup.answered, finish_answered hfin]; rfl,
      List.append_nil]
    exact h.later (finish_state hfin ▸ ⟨rfl, rfl⟩) hq htr
  | failed hf hno =>
    -- the pin is gone, so nothing may have been watched
    have hnil : W = [] := by
      by_contra hne
      exact hf (hD.resolve_left (h.keys hne))
    rw [hnil, acked_eq_nil hno]
    exact .nil hq
  | @done pin gen keys f v t₀ t₁ _ hsetup hpin hkeys hfin =>
    have hstate := finish_state hfin
    have hsame : ∀ w ∈ W, w.conn = pin := by
      intro w hw
      have hw := h.pinned w hw
      rcases hpin with hpin | hpin <;> rw [hpin] at hw
      · cases hw
      · exact (Option.some.inj hw).symm
    have hacked : ∀ w ∈ acked (t₀ ++ [⟨.write pin [f], none⟩, ⟨.read pin f, .ok v⟩] ++ t₁),
        w = { conn := pin, since := t₁ } := by
      have hread : acked t₁ = [] := acked_eq_nil (finish_answered hfin)
      rw [List.append_assoc, acked_append hsetup.answered]
      show ∀ w ∈ (if v = plusOK then { conn := pin, since := t₁ } :: acked t₁ else acked t₁), _
      rw [hread]
      split <;> simp
    refine ⟨List.forall_mem_append.2 ⟨List.forall_mem_map.2 fun w hw => ?_, fun w hw => ?_⟩,
      List.forall_mem_append.2 ⟨List.forall_mem_map.2 fun w hw => ?_, fun w hw e he => ?_⟩,
      fun _ => ?_, hq⟩
    · rw [hstate]
      exact congrArg some (hsame w hw).symm
    · rw [hstate, hacked w hw]
    · exact Watch.not_released (h.clean w hw) htr
    · rw [hacked w hw] at he
      exact htr.not_releases (List.mem_append_right _ he) _
    · rw [hstate]
      simp [hkeys]

theorem Kept.handled (h : Kept s W) (hD : Unbroken s c tr) (hrun : (handle cfg s c).Runs tr r) :
    Kept r.1 (watchesAfter W c tr) := by
  have hq : QueueSpares ["EXEC", "UNWATCH"] r.1 := by
    obtain ⟨-, hafter⟩ := (handle_sends anyAnswer cfg s c).runs hrun fun _ _ => trivial
    exact hafter.queueSpares h.queue (by decide) fun _ hown => by simp_all
  unfold watchesAfter
  split
  · exact .nil hq
  next hkeep =>
  have htr : Holds tr := by
    refine handle_holds h.queue (fun hn => hkeep ?_) hrun
    exact (by decide : ∀ w ∈ ["EXEC", "UNWATCH"], w ∈ releasingNames) _ hn
  split
  · next hn =>
    rcases handle_transaction (by simp [hn]) hrun with ⟨-, hsame, hno⟩ | hremote
    · rw [acked_eq_nil hno, List.append_nil]
      exact h.later hsame hq htr
    · cases hremote with
      | watch _ hw => exact h.watch (cmdWatch_runs hw) htr hq (hD hn)
      | multi hn' => exact absurd (hn.symm.trans hn') (by decide)
      | discard hn' => exact absurd (hn.symm.trans hn') (by decide)
      | exec hn' => exact absurd (hn.symm.trans hn') (by decide)
      | unwatch hn' => exact absurd (hn.symm.trans hn') (by decide)
      | queue hn' => exact absurd (by simp [hn]) hn'
      | dispatch hn' => exact absurd (by simp [hn]) hn'
      | empty _ hc => exact absurd hc (c.argv_ne_nil (by simp [hn]))
  · next hn =>
    rw [List.append_nil]
    refine h.later (handle_sameWatch (fun hmem => ?_) hrun) hq htr
    simp only [releasingNames, List.mem_cons, List.not_mem_nil, or_false, not_or] at hkeep hmem
    grind

/-- **The invariant holds in every state that is reached.** -/
theorem Promised.kept (h : Promised cfg Unbroken Unreset s W) : Kept s W := by
  induction h with
  | new => exact .nil nofun
  | handled _ hD hrun ih => exact ih.handled hD hrun
  | @passed s W tr b _ _ hC hq ih =>
    have hqueue := @batchState_queueSpares cfg _ _ ih.queue b
    rcases hC with hnone | hC
    · have hnil : W = [] := by
        by_contra hne
        exact ih.keys hne hnone
      rw [hnil]
      exact .nil hqueue
    · exact ih.later (batchState_sameWatch hC) hqueue hq.quiet.holds
  | @piped s s' W b ks tr tr' _ _ hk hq hrun ih =>
    obtain ⟨-, hr⟩ := (execFastPipeline_sends (A := anyAnswer) hk).runs hrun fun _ _ => trivial
    rw [show s' = batchState cfg s b from hr]
    have hqueue := @batchState_queueSpares cfg _ _ ih.queue b
    unfold watchesPiped
    split
    · exact .nil hqueue
    · next hkeep =>
      refine ih.later (batchState_sameWatch fun c hc hn => hkeep ⟨c, hc, ?_⟩) hqueue
        (hq.quiet.holds.append (piped_holds hk hrun))
      rw [hn]
      decide

/-! ## `EXEC` -/

/-- The one element with a property splits a list in one way. -/
theorem split_unique {α : Type} {P : α → Prop} {xs ys xs' ys' : List α} {a a' : α}
    (hx : ∀ x ∈ xs, ¬ P x) (hy : ∀ y ∈ ys, ¬ P y) (ha : P a')
    (h : xs ++ a :: ys = xs' ++ a' :: ys') : xs' = xs ∧ a' = a := by
  induction xs generalizing xs' with
  | nil =>
    cases xs' with
    | nil => exact ⟨rfl, (List.cons.inj h).1.symm⟩
    | cons x xs' =>
      obtain ⟨-, rfl⟩ := List.cons.inj h
      exact absurd ha (hy a' (by simp))
  | cons x xs ih =>
    cases xs' with
    | nil =>
      obtain ⟨rfl, -⟩ := List.cons.inj h
      exact absurd ha (hx x List.mem_cons_self)
    | cons x' xs' =>
      obtain ⟨rfl, htail⟩ := List.cons.inj h
      obtain ⟨rfl, rfl⟩ := ih (fun x hx' => hx x (List.mem_cons_of_mem _ hx')) htail
      exact ⟨rfl, rfl⟩

theorem Holds.not_mem (h : Holds tr) {f : Frame} {x : Option Err}
    (hf : nameOf f.argv ∈ ["EXEC", "UNWATCH"]) : (⟨.write conn [f], x⟩ : Event) ∉ tr :=
  fun he => h.not_releases he conn ⟨rfl, f, List.mem_singleton_self f, hf⟩

/-- The names of what `EXEC` sends ahead. -/
theorem execOpening_spares {p : ExecPlan} (hs : QueueSpares ["EXEC", "UNWATCH"] s)
    (hp : execPlan cfg s.db s.queued = some p) :
    ∀ g ∈ execOpening s c p, nameOf g.argv ∉ ["EXEC", "UNWATCH"] := by
  intro g hg
  rcases List.mem_cons.1 hg with rfl | hg
  · show nameOf [arg "MULTI"] ∉ _
    decide +kernel
  · obtain ⟨q, hq, argv, db, hargv, rfl⟩ := mem_execPlan_backend cfg hp hg
    rw [nameOf_rewriteArgv hargv]
    exact hs q hq

theorem reply_holds {id : Option CmdId} {o : Outcome} (h : (reply id v).Runs tr o) :
    Holds tr :=
  ((reply_sends (R := fun _ _ => True) trivial).runs h fun _ _ => (trivial : anyAnswer _)).1

/-- `EXEC` goes to the pinned connection. -/
theorem Kept.exec (h : Kept s W) (hrun : ExecRun cfg s c tr r) {pre post : Trace}
    (htr : tr = pre ++ ⟨.write conn [execFrame s c], none⟩ ::
      ⟨.read conn (execFrame s c), .ok v⟩ :: post) :
    ∀ w ∈ W, w.conn = conn ∧ ∀ e ∈ w.since ++ pre, ¬ Releases conn e := by
  have hname : nameOf (execFrame s c).argv ∈ ["EXEC", "UNWATCH"] := by
    show nameOf [arg "EXEC"] ∈ _
    decide +kernel
  have hwritten : (⟨.write conn [execFrame s c], none⟩ : Event) ∈ tr := by
    rw [htr]
    exact List.mem_append_right _ List.mem_cons_self
  have hanswered : answered (execFrame s c) tr = true := by
    rw [htr, answered_append]
    simp [answered]
  -- only in a run that reached a backend is there an answered `EXEC`
  cases hrun with
  | noMulti _ hfin => exact absurd hwritten ((finish_holds hfin).not_mem hname)
  | panic _ hq => exact absurd hwritten (hq.quiet.holds.not_mem hname)
  | aborted _ hq hfin =>
    exact absurd hwritten ((hq.quiet.holds.append (finish_holds hfin)).not_mem hname)
  | here _ _ _ hq hfin =>
    exact absurd hwritten ((hq.quiet.holds.append (finish_holds hfin)).not_mem hname)
  | failed _ hno hfin =>
    rw [answered_append, hno, finish_answered hfin] at hanswered
    cases hanswered
  | @done p conn' v' t₀ t₁ t₂ o _ hp _ hq hpin hdo hreply =>
    obtain ⟨t, rfl, ht⟩ := doFrames_snoc hdo
    have hopening := execOpening_spares (c := c) h.queue hp
    have hbefore : Holds (t₀ ++ t) := by
      refine hq.quiet.holds.append fun e he => ?_
      obtain ⟨g, hg, rfl | ⟨w, rfl⟩⟩ := ht e he
      · intro g' hg'
        rw [List.mem_singleton.1 hg']
        exact hopening g hg
      · trivial
    have hafter : Holds (⟨.read conn' (execFrame s c), .ok v'⟩ :: t₂ ++ [⟨.put conn', ()⟩]) := by
      refine List.forall_mem_append.2 ⟨List.forall_mem_cons.2 ⟨trivial, reply_holds hreply⟩, ?_⟩
      exact List.forall_mem_singleton.2 trivial
    -- the frames before and after it release nothing, so this is the only way to split the trace
    have hsplit : t₀ ++ t ++ ⟨.write conn' [execFrame s c], none⟩ ::
        (⟨.read conn' (execFrame s c), .ok v'⟩ :: t₂ ++ [⟨.put conn', ()⟩]) =
        pre ++ ⟨.write conn [execFrame s c], none⟩ ::
          ⟨.read conn (execFrame s c), .ok v⟩ :: post := by
      rw [← htr]
      simp
    have hreleases : Releases conn ⟨.write conn [execFrame s c], none⟩ :=
      ⟨rfl, _, List.mem_singleton_self _, hname⟩
    obtain ⟨rfl, heq⟩ := split_unique (fun e he => hbefore.not_releases he conn)
      (fun e he => hafter.not_releases he conn) hreleases hsplit
    cases heq
    intro w hw
    have hconn : w.conn = conn := by
      have hw := h.pinned w hw
      rcases hpin with hpin | hpin <;> rw [hpin] at hw
      · cases hw
      · exact (Option.some.inj hw).symm
    refine ⟨hconn, List.forall_mem_append.2 ⟨fun e he => ?_, fun e he => hbefore.not_releases he _⟩⟩
    exact hconn ▸ h.clean w hw e he

/-! ## Runs -/

variable {D : StepCond} {C : Session → List ClientCmd → Prop}

theorem Promised.seq {cs : List ClientCmd} (hreach : Promised cfg D C s W)
    (h : SeqRun cfg D s cs tr r) (hok : r.2 = .ok) : ∃ W', Promised cfg D C r.1 W' := by
  induction h generalizing W with
  | nil => exact ⟨W, hreach⟩
  | stop _ _ ho => exact absurd hok ho
  | step hD h _ ih => exact ih (hreach.handled hD h) hok

theorem Promised.batch (hreach : Promised cfg D C s W) (hC : C s b)
    (h : BatchRun cfg D s b tr r) (hok : r.2 = .ok) : ∃ W', Promised cfg D C r.1 W' := by
  obtain ⟨s', o⟩ := r
  cases hok
  cases h with
  | one hD h => exact ⟨_, hreach.handled hD h⟩
  | slow _ hs hq h => exact (hreach.passed b hs hC hq).seq h rfl
  | fast _ hs hq hk _ h => exact ⟨_, hreach.piped hs hk hq h⟩

/-- Every run of a session whose commands meet `D` and whose batches meet `C` goes through
these states. -/
theorem promised_of_runs {bs : List (List ClientCmd)}
    (h : RunsBy cfg (fun s b tr r => C s b ∧ BatchRun cfg D s b tr r) bs tr (s, .ok)) :
    ∃ W, Promised cfg D C s W := by
  obtain ⟨tr₁, tr₂, hloop, -, -⟩ := h
  generalize hs₀ : newSession cfg = s₀ at hloop
  have hreach : ∃ W, Promised cfg D C s₀ W := ⟨[], hs₀ ▸ .new⟩
  clear hs₀
  generalize hr : (s, Outcome.ok) = r at hloop
  induction hloop with
  | nil | quit =>
    cases hr
    exact hreach
  | cancelled => cases hr
  | stop _ _ ho =>
    cases hr
    exact absurd rfl ho
  | step _ h _ ih =>
    obtain ⟨W, hreach⟩ := hreach
    exact ih (hreach.batch h.1 h.2 rfl) hr

/-- Commands one after the other, each with the answers of its own environment. -/
def advance (cfg : Config) (D : StepCond) [∀ s c tr, Decidable (D s c tr)] :
    Session → List Watch → List (ClientCmd × ((o : Op) → Res o)) → Option (Session × List Watch)
  | s, W, [] => some (s, W)
  | s, W, (c, env) :: rest =>
    let x := scripted (fun _ => env) (handle cfg s c)
    if D s c x.2 ∧ x.1.2 = .ok then advance cfg D x.1.1 (watchesAfter W c x.2) rest else none

theorem Promised.advance [∀ s c tr, Decidable (D s c tr)]
    {cs : List (ClientCmd × ((o : Op) → Res o))} {W' : List Watch}
    (hreach : Promised cfg D C s W) (h : advance cfg D s W cs = some (s', W')) :
    Promised cfg D C s' W' := by
  induction cs generalizing s W with
  | nil =>
    cases h
    exact hreach
  | cons x cs ih =>
    obtain ⟨c, env⟩ := x
    simp only [Proxy.advance, Option.ite_none_right_eq_some] at h
    obtain ⟨⟨hD, hok⟩, h⟩ := h
    have hrun := scripted_runs (fun _ => env) (handle cfg s c)
    rw [← Prod.eta (scripted _ _).1, hok] at hrun
    exact ih (hreach.handled hD hrun) h

instance (e : Event) : Decidable (Fault e) := by
  unfold Fault
  split <;> infer_instance

instance (s : Session) (c : ClientCmd) (tr : Trace) : Decidable (Unbroken s c tr) := by
  unfold Unbroken NoFault
  infer_instance

end RespProxy.Proxy
