import RespProxy.Command.Translate
import RespProxy.Proxy.Sends

/-! # What is sent for a batch

The classification pass reads the topology and may close a pinned connection; which state it
leaves and whether it finds a slow command are functions of the session and the batch
(`batchState`, `batchSlow`). From there a batch is either a sequence of
commands for `handle` or a fast one, whose frames are `FastSent`.
-/

namespace RespProxy.Proxy

open Cluster Command Resp

variable {A : Event → Prop} {S : Frame → Prop} {R : Option CmdId → Value → Prop} {cfg : Config}
variable {c : ClientCmd} {ks : List Classified} {b : List ClientCmd} {s : Session}
variable {Rel : Session → ClientCmd → Classified → Prop} {k : Classified} {its : List SendItem}
  {it : SendItem}

/-! ## The classification pass -/

/-- The command has keys in several slots and is split for them. -/
def fansOut (cfg : Config) (s : Session) (c : ClientCmd) : Bool :=
  match rewriteArgv c.argv s.db with
  | none => false
  | some argv =>
    match extractKeys argv with
    | none => false
    | some keys => crossSlot cfg keys && decide (fanoutOf argv ≠ .none)

/-- `classifyPipe` finds the command slow. -/
def slowHere (cfg : Config) (s : Session) (c : ClientCmd) : Bool :=
  s.sub.isSome || pipelineSlow c ||
    (decide (c.name ≠ "SELECT") && (localStep cfg s c.argv).2.isNone && fansOut cfg s c)

/-- The state `classifyPipe` leaves. -/
def classifyState (cfg : Config) (s : Session) (c : ClientCmd) : Session :=
  if s.sub.isSome || pipelineSlow c then s
  else if c.name = "SELECT" then (classifySelect cfg s c).1
  else (localStep cfg s c.argv).1

/-- The classification pass finds a slow command. -/
def batchSlow (cfg : Config) : Session → List ClientCmd → Bool
  | _, [] => false
  | s, c :: cs => slowHere cfg s c || batchSlow cfg (classifyState cfg s c) cs

/-- The state the classification pass leaves. -/
def batchState (cfg : Config) : Session → List ClientCmd → Session
  | s, [] => s
  | s, c :: cs => batchState cfg (classifyState cfg s c) cs

theorem classifyState_sub (s : Session) (c : ClientCmd) :
    (classifyState cfg s c).sub = s.sub := by
  unfold classifyState classifySelect
  split
  · rfl
  split
  · split
    · rfl
    · split <;> rfl
  · exact localStep_sub s c.argv

/-- The classification pass leaves the mode alone. -/
theorem batchState_mode (s : Session) (b : List ClientCmd) : (batchState cfg s b).sub = s.sub := by
  induction b generalizing s with
  | nil => rfl
  | cons c cs ih => exact (ih _).trans (classifyState_sub s c)

theorem batchState_sub (hs : s.sub = none) (b : List ClientCmd) : (batchState cfg s b).sub = none := (batchState_mode s b).trans hs

/-- The command is one that a fast batch sends in state `s`. -/
structure Forwarded (cfg : Config) (s : Session) (c : ClientCmd) : Prop where
  sub : s.sub = none
  notSlow : pipelineSlow c = false
  notSelect : c.name ≠ "SELECT"
  notLocal : (localStep cfg s c.argv).2 = none
  nonempty : c.argv ≠ []

/-- The replies of `classifyPipe` itself. -/
inductive HereReply (cfg : Config) (s : Session) (c : ClientCmd) : Value → Prop where
  | select (hn : c.name = "SELECT") : HereReply cfg s c (classifySelect cfg s c).2
  | answer {v : Value} (hn : c.name ≠ "SELECT") (hl : (localStep cfg s c.argv).2 = some v) :
      HereReply cfg s c v
  | cross {argv : Argv} {keys : List Slice} (hn : c.name ≠ "SELECT")
      (hl : (localStep cfg s c.argv).2 = none) (ha : rewriteArgv c.argv s.db = some argv)
      (hk : extractKeys argv = some keys) (hx : crossSlot cfg keys = true) :
      HereReply cfg s c errCross
  | noNodes (hl : (localStep cfg s c.argv).2 = none) :
      HereReply cfg s c (error "ERR no backend nodes")

/-- What `classifyPipe` finds for a command. -/
inductive Classifies (cfg : Config) (s : Session) (c : ClientCmd) : Classified → Prop where
  | slow (h : slowHere cfg s c = true) : Classifies cfg s c .slow
  | here {v : Value} (h : slowHere cfg s c = false) (hv : HereReply cfg s c v) :
      Classifies cfg s c (.here v)
  | send {argv : Argv} {keys : List Slice} {addr : Addr} (h : slowHere cfg s c = false)
      (hf : Forwarded cfg s c) (ha : rewriteArgv c.argv s.db = some argv)
      (hk : extractKeys argv = some keys) (hx : crossSlot cfg keys = false) :
      Classifies cfg s c (.send ((keys.head?.map (slotOf cfg)).getD 0) addr
        (frameFor argv (if s.db > 0 then [] else c.raw) (c.src s))
        (decide (kindOf (nameOf c.argv) = .read)))
  | panic : Classifies cfg s c .panic

/-- What `classifyPipe` finds for a command where `O` is known of the owners of slots, and
why it finds it. -/
inductive Finding (O : Nat → Option Addr → Prop) (cfg : Config) (s : Session) (c : ClientCmd) :
    Classified → Prop where
  | slow (h : slowHere cfg s c = true) : Finding O cfg s c .slow
  | select (h : slowHere cfg s c = false) (hn : c.name = "SELECT") :
      Finding O cfg s c (.here (classifySelect cfg s c).2)
  | answer {v : Value} (h : slowHere cfg s c = false) (hn : c.name ≠ "SELECT")
      (hl : (localStep cfg s c.argv).2 = some v) : Finding O cfg s c (.here v)
  | cross {argv : Argv} {keys : List Slice} (h : slowHere cfg s c = false)
      (hf : Forwarded cfg s c) (ha : rewriteArgv c.argv s.db = some argv)
      (hk : extractKeys argv = some keys) (hx : crossSlot cfg keys = true)
      (hfan : fanoutOf argv = .none) : Finding O cfg s c (.here errCross)
  | noNodes {slot : Nat} (h : slowHere cfg s c = false) (hl : (localStep cfg s c.argv).2 = none)
      (ho : O slot none) : Finding O cfg s c (.here (error "ERR no backend nodes"))
  | send {argv : Argv} {keys : List Slice} {addr : Addr} (h : slowHere cfg s c = false)
      (hf : Forwarded cfg s c) (ha : rewriteArgv c.argv s.db = some argv)
      (hk : extractKeys argv = some keys) (hx : crossSlot cfg keys = false)
      (ho : O ((keys.head?.map (slotOf cfg)).getD 0) (some addr)) :
      Finding O cfg s c (.send ((keys.head?.map (slotOf cfg)).getD 0) addr
        (frameFor argv (if s.db > 0 then [] else c.raw) (c.src s))
        (decide (kindOf (nameOf c.argv) = .read)))
  | panic (hsub : s.sub = none) (hslow : pipelineSlow c = false)
      (hl : (localStep cfg s c.argv).2 = none) (hc : c.argv = [] ∨ hugeNumkeys c.argv = true) :
      Finding O cfg s c .panic

theorem fast_of_slowHere (h : slowHere cfg s c = false) :
    s.sub = none ∧ pipelineSlow c = false := by
  simp only [slowHere, Bool.or_eq_false_iff] at h
  exact ⟨by simpa using h.1.1, h.1.2⟩

section

variable {O : Nat → Option Addr → Prop}

theorem Finding.classifies (h : Finding O cfg s c k) : Classifies cfg s c k := by
  cases h with
  | slow h => exact .slow h
  | select h hn => exact .here h (.select hn)
  | answer h hn hl => exact .here h (.answer hn hl)
  | cross h hf ha hk hx => exact .here h (.cross hf.notSelect hf.notLocal ha hk hx)
  | noNodes h hl => exact .here h (.noNodes hl)
  | send h hf ha hk hx => exact .send h hf ha hk hx
  | panic => exact .panic

theorem nonempty_of_cross {argv : Argv} {keys : List Slice}
    (ha : rewriteArgv c.argv s.db = some argv) (hk : extractKeys argv = some keys)
    (hx : crossSlot cfg keys = true) : c.argv ≠ [] := by
  intro hc
  rw [hc, rewriteArgv, if_pos (.inr (by simp [needsDBRewrite]))] at ha
  cases ha
  cases hk
  cases hx

theorem classifyForward_found (howner : ∀ slot, Idle A (O slot) (owner cfg slot false))
    (hsub : s.sub = none) (hslow : pipelineSlow c = false) (hsel : c.name ≠ "SELECT")
    (hl : (localStep cfg s c.argv).2 = none) :
    Idle A (Finding O cfg s c) (classifyForward cfg s c) := by
  have hhere : slowHere cfg s c = fansOut cfg s c := by
    simp [slowHere, hsub, hslow, hsel, hl]
  unfold classifyForward
  cases ha : rewriteArgv c.argv s.db with
  | none => exact Finding.panic hsub hslow hl (.inr (rewriteArgv_eq_none_iff.1 ha).2)
  | some argv =>
    cases hk : extractKeys argv with
    | none =>
      simp only [hk]
      exact Finding.panic hsub hslow hl (.inr (huge_of_extractKeys ha hk))
    | some keys =>
      have hfans : fansOut cfg s c = (crossSlot cfg keys && decide (fanoutOf argv ≠ .none)) := by
        simp only [fansOut, ha, hk]
      simp only [hk]
      split
      · rename_i hx
        split
        · rename_i hf
          exact Finding.slow (by simp [hhere, hfans, hx, hf])
        · rename_i hf
          exact Finding.cross (by simp [hhere, hfans, hf])
            ⟨hsub, hslow, hsel, hl, nonempty_of_cross ha hk hx⟩ ha hk hx (by simpa using hf)
      · rename_i hx
        have hfast : slowHere cfg s c = false := by simp [hhere, hfans, hx]
        refine (howner _).bind ?_
        intro addr ho
        cases addr with
        | none => exact Finding.noNodes hfast hl ho
        | some addr =>
          dsimp only
          split
          · exact Finding.panic hsub hslow hl (.inl ‹_›)
          · rename_i hc
            exact Finding.send hfast ⟨hsub, hslow, hsel, hl, hc⟩ ha hk (by simpa using hx) ho

theorem classifyPipe_found (howner : ∀ slot, Idle A (O slot) (owner cfg slot false))
    (s : Session) (c : ClientCmd) :
    Idle A (fun r => r.1 = classifyState cfg s c ∧ Finding O cfg s c r.2)
      (classifyPipe cfg s c) := by
  unfold classifyPipe classifyState
  split
  · rename_i h
    exact ⟨rfl, .slow (by simp [slowHere, h])⟩
  · rename_i h
    obtain ⟨hsub, hslow⟩ : s.sub = none ∧ pipelineSlow c = false := by simpa using h
    split
    · rename_i hsel
      exact ⟨rfl, .select (by simp [slowHere, hsub, hslow, hsel]) hsel⟩
    · rename_i hsel
      refine (handleLocal_idle s c.argv).bind ?_
      rintro r rfl
      cases hl : (localStep cfg s c.argv).2 with
      | some v =>
        rw [localStep_eq_some hl]
        exact ⟨rfl, .answer (by simp [slowHere, hsub, hslow, hl]) hsel hl⟩
      | none =>
        rw [localStep_eq_none hl]
        exact (classifyForward_found howner hsub hslow hsel hl).bind fun _ hk => ⟨rfl, hk⟩

end

theorem classifyPipe_idle (s : Session) (c : ClientCmd) :
    Idle A (fun r => r.1 = classifyState cfg s c ∧ Classifies cfg s c r.2)
      (classifyPipe cfg s c) :=
  (classifyPipe_found (O := fun _ _ => True) (fun slot => owner_idle cfg slot false) s c).mono
    (fun _ _ he => he) fun _ hr => ⟨hr.1, hr.2.classifies⟩

/-- Findings for a batch, each of them `Rel` in the state the pass has reached. -/
inductive Passes (cfg : Config) (Rel : Session → ClientCmd → Classified → Prop) :
    Session → List ClientCmd → List Classified → Prop where
  | nil {s : Session} : Passes cfg Rel s [] []
  | cons {s : Session} {c : ClientCmd} {k : Classified} {cs : List ClientCmd}
      {ks : List Classified} (h : Rel s c k) (hp : k ≠ .panic)
      (hs : Passes cfg Rel (classifyState cfg s c) cs ks) : Passes cfg Rel s (c :: cs) (k :: ks)

theorem Passes.not_panic (h : Passes cfg Rel s b ks) : .panic ∉ ks := by
  induction h with
  | nil => simp
  | cons _ hp _ ih => simp [hp.symm, ih]

theorem Passes.of_mem (h : Passes cfg Rel s b ks) (hk : k ∈ ks) : ∃ s c, Rel s c k := by
  induction h with
  | nil => cases hk
  | cons h _ _ ih =>
    rcases List.mem_cons.1 hk with rfl | hk
    · exact ⟨_, _, h⟩
    · exact ih hk

/-- What `classifyPipe` finds for each command, the pass finds for the batch. -/
theorem classifyAll_passes
    (hpipe : ∀ s c, Idle A (fun r => r.1 = classifyState cfg s c ∧ Rel s c r.2)
      (classifyPipe cfg s c)) (s : Session) (b : List ClientCmd) :
    Idle A (fun r => ∀ ks, r.2 = some ks → r.1 = batchState cfg s b ∧ Passes cfg Rel s b ks)
      (classifyAll cfg s b) := by
  induction b generalizing s with
  | nil =>
    rintro ks hks
    cases hks
    exact ⟨rfl, .nil⟩
  | cons c cs ih =>
    refine (hpipe s c).bind ?_
    rintro ⟨s', k⟩ ⟨hs', hk⟩
    cases hs'
    have hrest : k ≠ .panic → Idle A (fun r : Session × Option (List Classified) =>
        ∀ ks, r.2 = some ks →
          r.1 = batchState cfg s (c :: cs) ∧ Passes cfg Rel s (c :: cs) ks)
        (classifyAll cfg (classifyState cfg s c) cs >>= fun x =>
          pure (x.1, x.2.map (k :: ·))) := by
      intro hp
      refine (ih (classifyState cfg s c)).bind ?_
      rintro ⟨s₂, kso⟩ hr ks hks
      obtain ⟨ks', rfl, rfl⟩ := Option.map_eq_some_iff.1 hks
      obtain ⟨rfl, hall⟩ := hr ks' rfl
      exact ⟨rfl, .cons hk hp hall⟩
    cases k with
    | panic =>
      intro ks hks
      cases hks
    | slow => exact hrest (by simp)
    | here v => exact hrest (by simp)
    | send slot addr f read => exact hrest (by simp)

/-- The findings for a batch, each in the state the pass has reached. -/
inductive ClassifiesAll (cfg : Config) : Session → List ClientCmd → List Classified → Prop where
  | nil {s : Session} : ClassifiesAll cfg s [] []
  | cons {s : Session} {c : ClientCmd} {k : Classified} {cs : List ClientCmd}
      {ks : List Classified} (h : Classifies cfg s c k) (hp : k ≠ .panic)
      (hs : ClassifiesAll cfg (classifyState cfg s c) cs ks) :
      ClassifiesAll cfg s (c :: cs) (k :: ks)

theorem Passes.classifiesAll (h : Passes cfg (Classifies cfg) s b ks) : ClassifiesAll cfg s b ks := by
  induction h with
  | nil => exact .nil
  | cons h hp _ ih => exact .cons h hp ih

theorem classifyAll_idle (s : Session) (b : List ClientCmd) :
    Idle A (fun r => ∀ ks, r.2 = some ks → r.1 = batchState cfg s b ∧ ClassifiesAll cfg s b ks)
      (classifyAll cfg s b) :=
  (classifyAll_passes classifyPipe_idle s b).mono (fun _ _ he => he)
    fun _ hr ks hks => (hr ks hks).imp id Passes.classifiesAll

theorem ClassifiesAll.length_eq (h : ClassifiesAll cfg s b ks) : ks.length = b.length := by
  induction h with
  | nil => rfl
  | cons _ _ _ ih => simp [ih]

theorem ClassifiesAll.slow_eq
    (h : ClassifiesAll cfg s b ks) : ks.any Classified.isSlow = batchSlow cfg s b := by
  induction h with
  | nil => rfl
  | cons hk hp _ ih =>
    rw [List.any_cons, batchSlow, ih]
    congr 1
    cases hk with
    | slow h => exact h.symm
    | here h => exact h.symm
    | send h => exact h.symm
    | panic => exact absurd rfl hp

theorem ClassifiesAll.not_panic (h : ClassifiesAll cfg s b ks) : .panic ∉ ks := by
  induction h with
  | nil => simp
  | cons _ hp _ ih => simp [hp.symm, ih]

theorem ClassifiesAll.get (h : ClassifiesAll cfg s b ks) {i : Nat}
    (hc : b[i]? = some c) (hk : ks[i]? = some k) :
    Classifies cfg (batchState cfg s (b.take i)) c k := by
  induction h generalizing i with
  | nil => simp at hc
  | cons h _ _ ih =>
    cases i with
    | zero =>
      cases hc
      cases hk
      exact h
    | succ i => exact ih hc hk

/-- A frame that is sent belongs to a command of the batch, in the state the pass
had reached there. -/
theorem ClassifiesAll.of_mem (h : ClassifiesAll cfg s b ks) (hk : k ∈ ks) :
    ∃ pre c post, b = pre ++ c :: post ∧ Classifies cfg (batchState cfg s pre) c k := by
  induction h with
  | nil => cases hk
  | @cons s c k' cs ks h _ _ ih =>
    rcases List.mem_cons.1 hk with rfl | hk
    · exact ⟨[], c, cs, rfl, h⟩
    · obtain ⟨pre, d, post, rfl, hd⟩ := ih hk
      exact ⟨c :: pre, d, post, rfl, hd⟩

/-- A batch that is not slow has no command that is slow by name. -/
theorem not_slow_of_mem (h : batchSlow cfg s b = false) (hc : c ∈ b) : pipelineSlow c = false := by
  induction b generalizing s with
  | nil => cases hc
  | cons d ds ih =>
    rw [batchSlow, Bool.or_eq_false_iff] at h
    rcases List.mem_cons.1 hc with rfl | hc
    · exact (fast_of_slowHere h.1).2
    · exact ih h.2 hc

theorem name_ne_of_not_slow (h : pipelineSlow c = false) {w : String}
    (hw : w ∈ slowNames) : c.name ≠ w := by
  rintro rfl
  simp [pipelineSlow, hw] at h

/-- The commands the pass may carry out are not slow by name. -/
theorem pipelineSlow_of_name
    (hn : c.name ∈ ["SELECT", "AUTH", "HELLO", "RESET"]) : pipelineSlow c = false := by
  have hne := c.argv_ne_of_mem hn (by decide)
  have hall : ∀ w ∈ ["SELECT", "AUTH", "HELLO", "RESET"], w ∉ slowNames ∧
      (lookup w).any (fun m => m.kind = .block) = false ∧ w ∉ ["XREAD", "XREADGROUP"] := by decide
  obtain ⟨hslow, hblock, hread⟩ := hall _ hn
  rw [pipelineSlow, isBlocking, ← ClientCmd.name_of_ne hne, hblock, decide_eq_false hread,
    decide_eq_false hslow]
  simp

/-! ## Fast batches -/

/-- The frames a fast batch sends for one of its commands. -/
inductive FastFrame (cfg : Config) (s : Session) (c : ClientCmd) : Frame → Prop where
  | plain {argv : Argv} (hf : Forwarded cfg s c) (ha : rewriteArgv c.argv s.db = some argv) :
      FastFrame cfg s c { argv, src := c.src s }
  | raw (hf : Forwarded cfg s c) (hdb : s.db = 0) :
      FastFrame cfg s c { argv := c.argv, raw := c.raw, src := c.src s }
  | asking (hf : Forwarded cfg s c) : FastFrame cfg s c { argv := [arg "ASKING"], src := c.src s }

/-- The frames a fast batch sends. -/
def FastSent (cfg : Config) (s : Session) (b : List ClientCmd) (f : Frame) : Prop :=
  ∃ pre c post, b = pre ++ c :: post ∧ FastFrame cfg (batchState cfg s pre) c f

/-- The replies to a fast batch: to its commands, or one error for all of it. -/
def FastAnswers (b : List ClientCmd) (id : Option CmdId) (_ : Value) : Prop :=
  id = none ∨ ∃ c ∈ b, id = some c.id

theorem frameFor_fast {argv : Argv} (hf : Forwarded cfg s c)
    (ha : rewriteArgv c.argv s.db = some argv) :
    FastFrame cfg s c (frameFor argv (if s.db > 0 then [] else c.raw) (c.src s)) := by
  unfold frameFor
  by_cases hdb : s.db = 0
  · have hargv := rewriteArgv_zero ha hdb
    subst hargv
    split
    · exact .plain hf ha
    · simpa [hdb] using FastFrame.raw hf hdb
  · simpa [Nat.pos_of_ne_zero hdb] using FastFrame.plain hf ha

/-- An item of the batch may be sent as it is, without the client's bytes, and
behind an `ASKING`. -/
def Sendable (S : Frame → Prop) (it : SendItem) : Prop :=
  S it.frame ∧ S { it.frame with raw := [] } ∧ S (askingFrame it.frame)

theorem mem_sendItems :
    it ∈ sendItems ks ↔ ks[it.idx]? = some (.send it.slot it.addr it.frame it.read) := by
  rw [sendItems, List.mem_filterMap]
  constructor
  · rintro ⟨⟨k, i⟩, hk, hit⟩
    have hget := List.mem_zipIdx_iff_getElem?.1 hk
    cases k with
    | send slot addr f read =>
      cases hit
      exact hget
    | _ => cases hit
  · intro h
    exact ⟨(_, it.idx), List.mem_zipIdx_iff_getElem?.2 h, rfl⟩

theorem ClassifiesAll.sendable (h : ClassifiesAll cfg s b ks) (hit : it ∈ sendItems ks) :
    Sendable (FastSent cfg s b) it := by
  obtain ⟨pre, c, post, hb, hc⟩ := h.of_mem (List.mem_of_getElem? (mem_sendItems.1 hit))
  generalize hk : Classified.send it.slot it.addr it.frame it.read = k at hc
  cases hc with
  | slow | here | panic => cases hk
  | send _ hfwd ha =>
    injection hk with _ _ hf _
    unfold Sendable
    rw [hf]
    exact ⟨⟨pre, c, post, hb, frameFor_fast hfwd ha⟩, ⟨pre, c, post, hb, .plain hfwd ha⟩,
      ⟨pre, c, post, hb, .asking hfwd⟩⟩

/-- The value was read as the reply to the item, with or without the client's bytes. -/
def Got (A : Event → Prop) (cfg : Config) (it : SendItem) (v : Value) : Prop :=
  cfg.movedHopLimit = 0 ∨
    ∃ conn f, (f = it.frame ∨ f = { it.frame with raw := [] }) ∧ A ⟨.read conn f, .ok v⟩

/-- A reply for each item, in their order, if there are replies at all. -/
def GotAll (A : Event → Prop) (cfg : Config) (its : List SendItem)
    (r : Except Err (List Value)) : Prop :=
  ∀ vs, r = .ok vs → List.Forall₂ (Got A cfg) its vs

theorem gotAll_error (e : Err) : GotAll A cfg its (.error e) :=
  fun _ h => by cases h

theorem readReplies_silent (cfg : Config) (conn : ConnId) (its : List SendItem) :
    Silent A (GotAll A cfg its) (readReplies conn its) := by
  induction its with
  | nil =>
    intro vs h
    cases h
    exact .nil
  | cons it its ih =>
    intro r hread
    refine ⟨trivial, ?_⟩
    cases r with
    | error e => exact gotAll_error e
    | ok v =>
      refine ih.bindOk (fun e => gotAll_error e) fun vs hr => ?_
      intro vs' h
      cases h
      exact .cons (.inr ⟨conn, it.frame, .inl rfl, hread⟩) (hr vs rfl)

theorem followOne_sends {v : Value} (hS : Sendable S it) (hv : Got A cfg it v) :
    Sends A S R (fun r => ∀ w, r = .ok w → Got A cfg it w) (followOne cfg it v) := by
  unfold followOne
  split
  · intro w h
    cases h
    exact hv
  · refine (exec_reads cfg hS.2.1 hS.2.2 it.slot it.read).imp ?_
    intro r hr w hw
    rcases hr w hw with h | ⟨c, h⟩
    · exact .inl h
    · exact .inr ⟨c, _, .inr rfl, h⟩

theorem followRedirects_sends {vs : List Value}
    (hS : ∀ it ∈ its, Sendable S it) (h : List.Forall₂ (Got A cfg) its vs) :
    Sends A S R (GotAll A cfg its) (followRedirects cfg (its.zip vs)) := by
  induction h with
  | nil =>
    intro vs h
    cases h
    exact .nil
  | @cons it v its vs hv _ ih =>
    refine (followOne_sends (hS it List.mem_cons_self) hv).bindOk (fun e => gotAll_error e)
      fun w hr => ?_
    refine (ih fun x hx => hS x (List.mem_cons_of_mem _ hx)).bind ?_
    intro r hrest
    cases r with
    | error e => exact gotAll_error e
    | ok ws =>
      intro ws' h
      cases h
      exact .cons (hr w rfl) (hrest ws rfl)

/-- A group is written in one piece; without an error there is a reply for each item. -/
theorem flushGroup_sends {addr : Addr} (hS : ∀ it ∈ its, Sendable S it) :
    Sends A S R (GotAll A cfg its) (flushGroup cfg addr its) := by
  refine (Silent.sends (getConn_silent cfg addr false)).bindOk (fun e => gotAll_error e)
    fun conn _ => ?_
  intro r _
  refine ⟨?_, ?_⟩
  · intro f hf
    obtain ⟨it, hit, rfl⟩ := List.mem_map.1 hf
    exact (hS it hit).1
  · cases r with
    | some e => exact fun _ _ => ⟨trivial, gotAll_error e⟩
    | none =>
      refine (Silent.sends (readReplies_silent cfg conn its)).bind ?_
      intro r hr
      cases r with
      | error e => exact fun _ _ => ⟨trivial, gotAll_error e⟩
      | ok vs => exact fun _ _ => ⟨trivial, followRedirects_sends hS (hr vs rfl)⟩

theorem writeReplies_sends {out : List (CmdId × Value)} (hR : ∀ x ∈ out, R (some x.1) x.2) :
    Sends A S R (fun _ => True) (writeReplies out) := by
  induction out with
  | nil =>
    refine fun r _ => ⟨trivial, ?_⟩
    cases r <;> trivial
  | cons x out ih =>
    obtain ⟨id, v⟩ := x
    refine fun r _ => ⟨hR _ List.mem_cons_self, ?_⟩
    cases r with
    | some e => trivial
    | none => exact ih fun y hy => hR y (List.mem_cons_of_mem _ hy)

/-- What is found for the command at some place of a batch, and the reply to it. -/
theorem ClassifiesAll.reply (h : ClassifiesAll cfg s b ks) {replies : List (Nat × Value)}
    {x : ClientCmd × Classified × Nat} (hx : x ∈ b.zip ks.zipIdx) :
    ∃ pre post, b = pre ++ x.1 :: post ∧ x.2.1 ∈ ks ∧
      Classifies cfg (batchState cfg s pre) x.1 x.2.1 ∧
      ∀ w, x.2.1 = .here w → replyAt replies x.2.1 x.2.2 = w := by
  obtain ⟨c, k, i⟩ := x
  obtain ⟨j, hj⟩ := List.getElem?_of_mem hx
  obtain ⟨hc, hk⟩ := List.getElem?_zip_eq_some.1 hj
  rw [List.getElem?_zipIdx, Option.map_eq_some_iff] at hk
  obtain ⟨k', hkj, heq⟩ := hk
  obtain rfl : k' = k := congrArg Prod.fst heq
  obtain ⟨hlt, hget⟩ := List.getElem?_eq_some_iff.1 hc
  refine ⟨b.take j, b.drop (j + 1), ?_, List.mem_of_getElem? hkj, h.get hc hkj, ?_⟩
  · rw [← hget, List.getElem_cons_drop, List.take_append_drop]
  · rintro w rfl
    rfl

/-- A fast batch sends its frames, answers its commands and leaves the session alone. What
the classification pass has answered itself is only stripped of key prefixes. -/
theorem execFastPipeline_answers {s' : Session}
    (h : ClassifiesAll cfg s b ks) (hnone : ∀ v, R none v)
    (hsome : ∀ pre c post k v, b = pre ++ c :: post → k ∈ ks →
      Classifies cfg (batchState cfg s pre) c k →
      (∀ w, k = .here w → v = clientReply c.name s'.db w) → R (some c.id) v) :
    Sends A (FastSent cfg s b) R (fun r => r.1 = s') (execFastPipeline cfg s' b ks) := by
  refine (Interact.Prog.ensures_parList (R := fun _ _ => True) ?_).bind ?_
  · intro g hg
    refine Sends.any (flushGroup_sends ?_)
    intro it hit
    obtain ⟨-, hg⟩ := Group.mem_groupBy.1 hg
    rw [hg] at hit
    exact h.sendable (List.mem_filter.1 hit).1
  · intro rs _
    split
    · refine (pickErr_inner _).sends.bind ?_
      intro e _
      exact (reply_sends (hnone _)).bind fun _ _ => rfl
    · refine fun r _ => ⟨trivial, ?_⟩
      cases r with
      | some e => rfl
      | none =>
        refine (writeReplies_sends ?_).bind fun _ _ => rfl
        intro x hx
        obtain ⟨y, hy, rfl⟩ := List.mem_map.1 hx
        obtain ⟨pre, post, hb, hmem, hk, hw⟩ := h.reply hy
        exact hsome pre _ post _ _ hb hmem hk fun w hkw => by rw [hw w hkw]

theorem execFastPipeline_sends {s' : Session} (h : ClassifiesAll cfg s b ks) :
    Sends A (FastSent cfg s b) (FastAnswers b) (fun r => r.1 = s')
      (execFastPipeline cfg s' b ks) := by
  refine execFastPipeline_answers h (fun _ => .inl rfl) ?_
  intro pre c post k v hb _ _ _
  exact .inr ⟨c, by simp [hb], rfl⟩

end RespProxy.Proxy
