import RespProxy.Proxy.Gate
import RespProxy.Proxy.Panic

/-! # Subscribe mode

A session is in subscribe mode while `s.sub` is set: it then takes subscription
commands, `PING` and `QUIT` only. What the client is subscribed to is what it was
told: the channels and patterns of the subscriptions that were confirmed, without
those whose end was confirmed (`activeAfter`).

`enterSub` sets `s.sub` before it knows the outcome, and nothing takes it back.
So the mode and the subscriptions agree as long as every subscription that opens
the mode is served (`Serves`) and no command ends the last one.
-/

namespace RespProxy.Proxy

open Cluster Command Resp Interact

variable {cfg : Config} {s s' : Session} {c : ClientCmd} {tr : Trace}
variable {bs : List (List ClientCmd)} {b : List ClientCmd}

variable {S : List Subscription} {r : Session × Outcome}

/-! ## What a client is subscribed to -/

/-- Whether a command asks to end a subscription; without channels, to end them all. -/
def ClientCmd.ends (c : ClientCmd) (x : Subscription) : Bool :=
  decide (closes (classifyPubSub (nameOf c.argv)) = some x.1) &&
    (decide (c.argv.drop 1 = []) || (leaves c.argv).contains x)

/-- Confirmations are arrays or pushes; errors and `QUEUED` are not. -/
def confirms (v : Value) : Bool := decide (v.type = .array ∨ v.type = .push)

def confirmed (c : ClientCmd) (tr : Trace) : Bool :=
  (replies tr).any fun r => decide (r.1 = some c.id) && confirms r.2.1

/-- The active subscriptions after a command, by the replies the client was sent. -/
def activeAfter (tr : Trace) (S : List Subscription) (c : ClientCmd) : List Subscription :=
  if confirmed c tr then begins c.argv ++ S.filter fun x => !c.ends x else S

theorem confirmed_iff : confirmed c tr = true ↔
    ∃ v r, (some c.id, v, r) ∈ replies tr ∧ confirms v = true := by
  simp only [confirmed, List.any_eq_true, Bool.and_eq_true, decide_eq_true_eq]
  constructor
  · rintro ⟨⟨_, v, r⟩, hmem, rfl, hv⟩
    exact ⟨v, r, hmem, hv⟩
  · rintro ⟨v, r, hmem, hv⟩
    exact ⟨_, hmem, rfl, hv⟩

/-- The commands that open subscribe mode. -/
def subscribeNames : List String := ["SUBSCRIBE", "PSUBSCRIBE", "SSUBSCRIBE"]

theorem argv_ne_of_subscribe (h : c.name ∈ subscribeNames) : c.argv ≠ [] :=
  c.argv_ne_of_mem h (by decide)

theorem begins_eq_nil (h : c.name ∉ subscribeNames) : begins c.argv = [] := by
  by_cases hne : c.argv = []
  · rw [hne]
    rfl
  · have hnone : opens (classifyPubSub c.name) = none := by
      unfold classifyPubSub
      simp only [subscribeNames, List.mem_cons, List.not_mem_nil, or_false, not_or] at h
      grind [opens]
    rw [begins, ← ClientCmd.name_of_ne hne, hnone]
    rfl

theorem begins_ne_nil (h : c.name ∈ subscribeNames) (hch : c.argv.drop 1 ≠ []) :
    begins c.argv ≠ [] := by
  have hsome : (opens (classifyPubSub c.name)).isSome = true :=
    (by decide : ∀ w ∈ subscribeNames, (opens (classifyPubSub w)).isSome = true) _ h
  obtain ⟨k, hk⟩ := Option.isSome_iff_exists.1 hsome
  rw [begins, ← ClientCmd.name_of_ne (argv_ne_of_subscribe h), hk]
  exact fun hnil => hch (List.map_eq_nil_iff.1 hnil)

theorem activeAfter_nil (h : c.name ∉ subscribeNames ∨ confirmed c tr = false) :
    activeAfter tr [] c = [] := by
  unfold activeAfter
  split
  · rename_i hconf
    rw [begins_eq_nil (h.resolve_right (by simp [hconf]))]
    rfl
  · rfl

/-- A subscription that is not ended stays active. -/
theorem activeAfter_ne_nil (h : ∃ x ∈ S, c.ends x = false) :
    activeAfter tr S c ≠ [] := by
  obtain ⟨x, hx, hend⟩ := h
  unfold activeAfter
  split
  · refine List.ne_nil_of_mem (a := x) (List.mem_append_right _ ?_)
    simp [hx, hend]
  · exact List.ne_nil_of_mem hx

/-! ## Reachable states -/

/-- A condition on a command in a state, with the active subscriptions, and on what
happens. -/
abbrev SubCond := Session → List Subscription → ClientCmd → Trace → Prop

/-- The states a session reaches between commands, with the active subscriptions, if
every command that is handled meets `D`. -/
inductive Reaches (cfg : Config) (D : SubCond) : Session → List Subscription → Prop where
  | new : Reaches cfg D (newSession cfg) []
  | handled {s s' : Session} {S : List Subscription} {c : ClientCmd} {tr : Trace}
      (h : Reaches cfg D s S) (hD : D s S c tr) (hrun : (handle cfg s c).Runs tr (s', .ok)) :
      Reaches cfg D s' (activeAfter tr S c)
  /-- the classification pass of a slow batch -/
  | passed {s : Session} {S : List Subscription} (b : List ClientCmd) (h : Reaches cfg D s S)
      (hs : batchSlow cfg s b = true) : Reaches cfg D (batchState cfg s b) S
  /-- a fast batch -/
  | piped {s s' : Session} {S : List Subscription} {b : List ClientCmd} {ks : List Classified}
      {tr : Trace} (h : Reaches cfg D s S) (hs : batchSlow cfg s b = false)
      (hk : ClassifiesAll cfg s b ks)
      (hrun : (execFastPipeline cfg (batchState cfg s b) b ks).Runs tr (s', .ok)) :
      Reaches cfg D s' (b.foldl (activeAfter tr) S)

/-- No condition. -/
abbrev anyCond : SubCond := fun _ _ _ _ => True

theorem Reaches.seq {cs : List ClientCmd}
    (hreach : Reaches cfg anyCond s S) (h : SeqRun cfg anyStep s cs tr r) (hok : r.2 = .ok) :
    ∃ S', Reaches cfg anyCond r.1 S' := by
  induction h generalizing S with
  | nil => exact ⟨S, hreach⟩
  | stop _ _ ho => exact absurd hok ho
  | step _ h _ ih => exact ih (hreach.handled trivial h) hok

theorem Reaches.batch
    (hreach : Reaches cfg anyCond s S) (h : BatchRun cfg anyStep s b tr r) (hok : r.2 = .ok) :
    ∃ S', Reaches cfg anyCond r.1 S' := by
  obtain ⟨s', o⟩ := r
  cases hok
  cases h with
  | one _ h => exact ⟨_, hreach.handled trivial h⟩
  | slow _ hs _ h => exact (hreach.passed b hs).seq h rfl
  | fast _ hs _ hk _ h => exact ⟨_, hreach.piped hs hk h⟩

theorem Reaches.loop
    (hreach : Reaches cfg anyCond s S) (h : LoopRun (Handles cfg) s bs tr r) (hok : r.2 = .ok) :
    ∃ S', Reaches cfg anyCond r.1 S' := by
  induction h generalizing S with
  | nil => exact ⟨S, hreach⟩
  | quit => exact ⟨S, hreach⟩
  | cancelled => cases hok
  | stop _ _ ho => exact absurd hok ho
  | step _ h _ ih =>
    obtain ⟨S₁, h₁⟩ := hreach.batch (handleBatch_runs h) rfl
    exact ih h₁ hok

/-- Every run of a session goes through reachable states. -/
theorem reaches_of_runs
    (h : (run cfg (newSession cfg) bs).Runs tr (s, .ok)) : ∃ S, Reaches cfg anyCond s S := by
  obtain ⟨tr₁, tr₂, hloop, -, -⟩ := run_runs.1 h
  exact Reaches.new.loop hloop rfl

/-! ## Subscriptions that are served -/

/-- The answer lets the subscription `c` come about: connections are checked out and
written to, acknowledgements arrive, and patterns do not meet a Dragonfly cluster. -/
def Serves (c : ClientCmd) (e : Event) : Prop :=
  match e with
  | ⟨.get _ _, .error _⟩ | ⟨.write _ _, some _⟩ | ⟨.waitAck _, .error _⟩ => False
  | ⟨.waitAck _, .ok v⟩ => confirms v = true
  | ⟨.load, some t⟩ => c.name = "PSUBSCRIBE" → t.flavor ≠ .dragonfly
  | ⟨.flavor, f⟩ => c.name = "PSUBSCRIBE" → f ≠ .dragonfly
  | _ => True

/-- The program's result satisfies `Q` if `c` is served. -/
abbrev Yields {α : Type} (c : ClientCmd) (Q : α → Prop) (p : Prog α) : Prop :=
  p.Ensures (Serves c) (fun _ => True) Q

theorem newMode_yields (hn : c.name = "PSUBSCRIBE") :
    Yields c (fun mode => mode = .passthrough) newMode := by
  have hflavor : Yields c (fun f => f ≠ .dragonfly) currentFlavor := by
    intro t ht
    refine ⟨trivial, ?_⟩
    cases t with
    | none => exact fun f hf => ⟨trivial, hf hn⟩
    | some t =>
      show Yields c _ (if t.flavor ≠ .unknown then _ else _)
      split
      · exact ht hn
      · exact fun f hf => ⟨trivial, hf hn⟩
  refine hflavor.bind fun f hf => ?_
  rw [if_neg hf]
  rfl

section

variable (hseeds : cfg.clusterSeeds ≠ [])

include hseeds

theorem anyMaster_yields : Yields c (fun n => ∃ m, n = some m) (anyMaster cfg) :=
  Prog.Ensures.mono (anyMaster_loads hseeds) (fun _ _ _ => trivial) fun _ h => h

theorem owner_yields (slot : Nat) :
    Yields c (fun a => ∃ addr, a = some addr) (owner cfg slot false) :=
  Prog.Ensures.mono (owner_loads hseeds slot false) (fun _ _ _ => trivial) fun _ h => h

omit hseeds in
theorem ensureBackend_yields (addr : Addr) :
    Yields c (fun r => ∃ conn, r = .ok conn) (ensureBackend cfg addr) := by
  intro b _
  refine ⟨trivial, ?_⟩
  cases b with
  | some conn => exact ⟨conn, rfl⟩
  | none =>
    intro r hr
    refine ⟨trivial, ?_⟩
    cases r with
    | error e => exact hr.elim
    | ok conn => exact fun _ _ => ⟨trivial, conn, rfl⟩

omit hseeds in
theorem subRoundTrip_yields (conn : ConnId) (f : Frame) :
    Yields c (fun r => ∃ v, r = .ok v ∧ confirms v = true) (subRoundTrip conn f) := by
  intro r hr
  refine ⟨trivial, ?_⟩
  cases r with
  | some e => exact hr.elim
  | none =>
    intro r hr
    refine ⟨trivial, ?_⟩
    cases r with
    | error e => exact hr.elim
    | ok v => exact ⟨v, rfl, hr⟩

omit hseeds in
theorem clientAck_confirms {v : Value} (h : confirms v = true) (kind : String) (ch : Slice)
    (count : Nat) (rewrite : Bool) : confirms (clientAck v kind ch count rewrite) = true := by
  unfold clientAck
  split
  · exact h
  · rfl

theorem subscribeLoop_yields (src : Origin) (cmd kind : String) (rewrite : Bool)
    (chs : List Slice) (vs : List Value) (hvs : chs ≠ [] ∨ vs ≠ [])
    (hconf : ∀ v ∈ vs, confirms v = true) :
    Yields c (fun vs => vs ≠ [] ∧ ∀ v ∈ vs, confirms v = true)
      (subscribeLoop cfg src cmd kind rewrite chs vs) := by
  induction chs generalizing vs with
  | nil => exact ⟨hvs.resolve_left fun h => h rfl, hconf⟩
  | cons ch chs ih =>
    refine (owner_yields hseeds _).bind ?_
    rintro _ ⟨addr, rfl⟩
    refine (ensureBackend_yields addr).bind ?_
    rintro _ ⟨conn, rfl⟩
    refine (subRoundTrip_yields conn _).bind ?_
    rintro _ ⟨ack, rfl, hack⟩
    refine fun count _ => ⟨trivial, ih _ (.inr (by simp)) ?_⟩
    intro v hv
    rcases List.mem_append.1 hv with hv | hv
    · exact hconf v hv
    · rw [List.mem_singleton.1 hv]
      exact clientAck_confirms hack _ _ _ _

theorem patternRoundTrip_yields (src : Origin) (argv : Argv) :
    Yields c (fun vs => vs ≠ [] ∧ ∀ v ∈ vs, confirms v = true)
      (patternRoundTrip cfg src argv) := by
  refine (anyMaster_yields hseeds).bind ?_
  rintro _ ⟨n, rfl⟩
  refine (ensureBackend_yields n.addr).bind ?_
  rintro _ ⟨conn, rfl⟩
  refine (subRoundTrip_yields conn _).bind ?_
  rintro _ ⟨ack, rfl, hack⟩
  exact ⟨by simp, by simpa using hack⟩

theorem handleClientCmd_yields (hn : c.name ∈ subscribeNames) (hch : c.argv.drop 1 ≠ [])
    (src : Origin) {mode : Mode} (hmode : c.name = "PSUBSCRIBE" → mode = .passthrough) :
    Yields c (fun vs => vs ≠ [] ∧ ∀ v ∈ vs, confirms v = true)
      (handleClientCmd cfg mode src c.argv) := by
  have hne := argv_ne_of_subscribe hn
  have hname := ClientCmd.name_of_ne hne
  have hsub : ∀ fromGlobal, Yields c (fun vs => vs ≠ [] ∧ ∀ v ∈ vs, confirms v = true)
      (subscribe cfg mode src (c.argv.drop 1) fromGlobal) := by
    intro fromGlobal
    unfold subscribe
    dsimp only
    rw [if_neg hch]
    exact subscribeLoop_yields hseeds _ _ _ _ _ _ (.inl hch) (by simp)
  unfold handleClientCmd
  rw [← hname]
  simp only [subscribeNames, List.mem_cons, List.not_mem_nil, or_false] at hn
  rcases hn with hn | hn | hn
  · rw [hn]
    exact hsub true
  · rw [hn]
    show Yields c _ (if mode = .shardedRewrite then _ else _)
    rw [if_neg (by simp [hmode hn])]
    exact patternRoundTrip_yields hseeds _ _
  · rw [hn]
    exact hsub false

end

/-- When the session goes on, all replies have been written. -/
theorem replyAll_replies {id : CmdId} {vs : List Value}
    (h : (replyAll s id vs).Runs tr r) (hok : r.2 = .ok) :
    r.1 = s ∧ ∀ v ∈ vs, (some id, v, none) ∈ replies tr := by
  induction vs generalizing tr with
  | nil =>
    obtain ⟨rfl, rfl⟩ := h
    exact ⟨rfl, by simp⟩
  | cons v vs ih =>
    obtain ⟨t₁, o, t₂, h₁, h₂, rfl⟩ := Prog.runs_bind.1 h
    cases o with
    | ok =>
      obtain ⟨hr, hrest⟩ := ih h₂
      refine ⟨hr, ?_⟩
      intro w hw
      rw [replies, List.filterMap_append]
      rcases List.mem_cons.1 hw with rfl | hw
      · refine List.mem_append_left _ ?_
        have hv := reply_sat _ _ t₁ .ok h₁ rfl
        rw [replies] at hv
        rw [hv]
        exact List.mem_cons_self
      · exact List.mem_append_right _ (hrest w hw)
    | err e | panic | running =>
      obtain ⟨rfl, rfl⟩ := h₂
      cases hok

/-! ## The steps -/

/-- What keeps the mode and the subscriptions together: a subscription that opens the
mode names a channel and is served, and no command ends the last subscription. -/
structure InMode (cfg : Config) (s : Session) (S : List Subscription) (c : ClientCmd)
    (tr : Trace) : Prop where
  opened : s.sub = none → s.multi = false → Admitted cfg s → c.name ∈ subscribeNames →
    c.argv.drop 1 ≠ [] ∧ ∀ e ∈ tr, Serves c e
  kept : S ≠ [] → ∃ x ∈ S, c.ends x = false

theorem subscribeNames_remote {w : String} (h : w ∈ subscribeNames) :
    w ∉ localNames ∧ w ≠ "COMMAND" ∧ w ∉ ["SELECT", "MULTI", "DISCARD", "EXEC", "WATCH", "UNWATCH"] ∧
      (classifyPubSub w = .subscribe ∨ classifyPubSub w = .psubscribe ∨
        classifyPubSub w = .ssubscribe) :=
  (by decide : ∀ w ∈ subscribeNames, w ∉ localNames ∧ w ≠ "COMMAND" ∧
    w ∉ ["SELECT", "MULTI", "DISCARD", "EXEC", "WATCH", "UNWATCH"] ∧
    (classifyPubSub w = .subscribe ∨ classifyPubSub w = .psubscribe ∨
      classifyPubSub w = .ssubscribe)) w h

theorem localStep_subscribe (h : c.name ∈ subscribeNames) :
    (localStep cfg s c.argv).2 = none ↔ Admitted cfg s := by
  have hne := argv_ne_of_subscribe h
  obtain ⟨hl, hcmd, -⟩ := subscribeNames_remote h
  rw [ClientCmd.name_of_ne hne] at hl hcmd
  exact localStep_none_iff hne hl hcmd

/-- Outside `MULTI`, a subscription of an admitted client is `enterSub`. -/
theorem handle_subscribe (hsub : s.sub = none) (hm : s.multi = false) (hadm : Admitted cfg s)
    (hn : c.name ∈ subscribeNames) (h : (handle cfg s c).Runs tr r) :
    (enterSub cfg s c).Runs tr r := by
  have hne := argv_ne_of_subscribe hn
  obtain ⟨-, -, hother, hop⟩ := subscribeNames_remote hn
  have hl := (localStep_subscribe hn).2 hadm
  have hlocal : handleLocal cfg s c.argv = pure (s, none) := by
    unfold handleLocal
    rw [if_neg]
    · exact congrArg _ (localStep_eq_none hl)
    · rintro ⟨-, hreset⟩
      rw [← ClientCmd.name_of_ne hne] at hreset
      exact absurd (hreset ▸ hn) (by decide)
  simp only [List.mem_cons, List.not_mem_nil, or_false, not_or] at hother
  obtain ⟨hsel, h₁, h₂, h₃, h₄, h₅⟩ := hother
  have hremote : handleRemote cfg s c = enterSub cfg s c := by
    unfold handleRemote dispatch
    dsimp only
    rw [if_neg h₁, if_neg h₂, if_neg h₃, if_neg h₄, if_neg h₅, hm, if_neg (by simp), if_neg hne,
      if_pos (ClientCmd.name_of_ne hne ▸ hop)]
  unfold handle at h
  rw [hsub] at h
  dsimp only at h
  rw [if_neg hsel, hlocal] at h
  rw [← hremote]
  exact h

/-- A served subscription is confirmed, and the session is in subscribe mode. -/
theorem enterSub_confirmed (hseeds : cfg.clusterSeeds ≠ []) (hn : c.name ∈ subscribeNames)
    (hch : c.argv.drop 1 ≠ []) (hserved : ∀ e ∈ tr, Serves c e)
    (h : (enterSub cfg s c).Runs tr (s', .ok)) :
    s'.sub.isSome = true ∧ confirmed c tr = true := by
  obtain ⟨t₁, mode, t', h₁, h', rfl⟩ := Prog.runs_bind.1 h
  obtain ⟨t₂, vs, t₃, h₂, h₃, rfl⟩ := Prog.runs_bind.1 h'
  obtain ⟨hs, hreplies⟩ := replyAll_replies h₃ rfl
  have hmode : c.name = "PSUBSCRIBE" → mode = .passthrough := by
    intro hp
    exact ((newMode_yields hp).runs h₁ fun e he => hserved e (by simp [he])).2
  obtain ⟨-, hvs, hconf⟩ := (handleClientCmd_yields hseeds hn hch (c.src s) hmode).runs h₂
    fun e he => hserved e (by simp [he])
  obtain ⟨v, hv⟩ := List.exists_mem_of_ne_nil vs hvs
  refine ⟨by rw [show s' = _ from hs]; rfl, confirmed_iff.2 ⟨v, none, ?_, hconf v hv⟩⟩
  rw [mem_replies]
  simp [mem_replies.1 (hreplies v hv)]

/-- A subscription that is queued, or refused before authentication, changes nothing. -/
theorem handle_not_subscribing (hsub : s.sub = none) (hn : c.name ∈ subscribeNames)
    (hno : ¬ (s.multi = false ∧ Admitted cfg s)) (h : (handle cfg s c).Runs tr (s', .ok)) :
    s'.sub = none ∧ confirmed c tr = false := by
  have hother := (subscribeNames_remote hn).2.2.1
  simp only [List.mem_cons, List.not_mem_nil, or_false, not_or] at hother
  obtain ⟨hsel, h₁, h₂, h₃, h₄, h₅⟩ := hother
  obtain ⟨htr, hafter⟩ := (handle_sends anyAnswer cfg s c).runs h fun _ _ => trivial
  have hquiet : ∀ w, answerHere cfg s c = some w → confirms w = false → confirmed c tr = false := by
    intro w hw hwc
    rw [Bool.eq_false_iff]
    intro hconf
    obtain ⟨v, r, hv, hvc⟩ := confirmed_iff.1 hconf
    have hans := htr _ (mem_replies.1 hv)
    rw [hans.2 w hw, hwc] at hvc
    cases hvc
  by_cases hadm : Admitted cfg s
  · have hl := (localStep_subscribe hn).2 hadm
    have hm : s.multi = true := by
      by_contra hm
      exact hno ⟨by simpa using hm, hadm⟩
    refine ⟨?_, hquiet queuedReply ?_ rfl⟩
    · rcases hafter.sub with hs | ⟨-, hm', -⟩
      · exact hs.trans hsub
      · rw [hm] at hm'
        cases hm'
    · rw [answerHere_remote hsub hsel hl, if_neg h₁, if_neg h₂, if_neg (by simp [h₃, h₄, h₅]),
        if_pos hm]
  · have hsome : (localStep cfg s c.argv).2 = some errNoAuth := by
      have hne := argv_ne_of_subscribe hn
      have hl := localStep_local cfg s c.argv
      have hnone := mt (localStep_subscribe hn).1 hadm
      have hnames := (subscribeNames_remote hn).1
      rw [ClientCmd.name_of_ne hne] at hnames
      generalize localStep cfg s c.argv = x at hl hnone
      cases hl with
      | noAuth => rfl
      | pass => exact absurd rfl hnone
      | answer hl => exact absurd hl hnames
      | auth hl =>
        exact absurd ((by decide : ∀ w ∈ ["AUTH", "HELLO"], w ∈ localNames) _ hl) hnames
      | quit hl => exact absurd (by rw [hl]; decide) hnames
      | reset _ hl => exact absurd (by rw [hl]; decide) hnames
    obtain ⟨-, hs⟩ := (handle_local (A := anyAnswer) hsub hsel hsome).runs h fun _ _ => trivial
    refine ⟨?_, hquiet errNoAuth ?_ rfl⟩
    · rw [show s' = _ from hs, localStep_sub, hsub]
    · simp [answerHere, hsub, hsel, hsome]

/-- The mode is that of a client with these subscriptions. -/
def Agrees (s : Session) (S : List Subscription) : Prop := s.sub.isSome = true ↔ S ≠ []

theorem agrees_none (h : Agrees s S) (hsub : s.sub = none) : S = [] := by
  by_contra hne
  have hsome := h.2 hne
  rw [hsub] at hsome
  cases hsome

theorem Agrees.handled (hseeds : cfg.clusterSeeds ≠ []) {S : List Subscription}
    (h : Agrees s S) (hD : InMode cfg s S c tr) (hrun : (handle cfg s c).Runs tr (s', .ok)) :
    Agrees s' (activeAfter tr S c) := by
  obtain ⟨-, hafter⟩ := (handle_sends anyAnswer cfg s c).runs hrun fun _ _ => trivial
  cases hsub : s.sub with
  | some mode =>
    have hS : S ≠ [] := h.1 (by simp [hsub])
    refine iff_of_true ?_ (activeAfter_ne_nil (hD.kept hS))
    rcases hafter.sub with hs | ⟨hs, -⟩
    · simp [show s'.sub = _ from hs, hsub]
    · rw [hsub] at hs
      cases hs
  | none =>
    cases agrees_none h hsub
    by_cases hn : c.name ∈ subscribeNames
    · by_cases henter : s.multi = false ∧ Admitted cfg s
      · obtain ⟨hm, hadm⟩ := henter
        obtain ⟨hch, hserved⟩ := hD.opened hsub hm hadm hn
        obtain ⟨hs, hconf⟩ := enterSub_confirmed hseeds hn hch hserved
          (handle_subscribe hsub hm hadm hn hrun)
        refine iff_of_true hs ?_
        rw [activeAfter, if_pos hconf]
        exact List.append_ne_nil_of_left_ne_nil (begins_ne_nil hn hch) _
      · obtain ⟨hs, hconf⟩ := handle_not_subscribing hsub hn henter hrun
        exact iff_of_false (by simp [hs]) (by simp [activeAfter_nil (.inr hconf)])
    · have hs : s'.sub = none := by
        rcases hafter.sub with hs | ⟨-, -, hn'⟩
        · exact hs.trans hsub
        · exact absurd hn' hn
      exact iff_of_false (by simp [hs]) (by simp [activeAfter_nil (.inl hn)])

theorem Agrees.piped {S : List Subscription} {ks : List Classified}
    (h : Agrees s S) (hs : batchSlow cfg s b = false) (hk : ClassifiesAll cfg s b ks)
    (hrun : (execFastPipeline cfg (batchState cfg s b) b ks).Runs tr (s', .ok)) :
    Agrees s' (b.foldl (activeAfter tr) S) := by
  obtain ⟨-, hr⟩ := (execFastPipeline_sends (A := anyAnswer) hk).runs hrun fun _ _ => trivial
  have hsame : s'.sub = s.sub := by rw [show s' = _ from hr, batchState_mode]
  cases hb : b with
  | nil =>
    unfold Agrees
    rw [hsame]
    exact h
  | cons c cs =>
    -- a subscribed session has no fast batches
    have hsub : s.sub = none := by
      rw [hb] at hs
      by_contra hne
      simp [batchSlow, slowHere, Option.isSome_iff_ne_none.2 hne] at hs
    have hnil : ∀ ds ⊆ b, ds.foldl (activeAfter tr) [] = [] := by
      intro ds hds
      induction ds with
      | nil => rfl
      | cons d ds ih =>
        have hslow : pipelineSlow d = false := not_slow_of_mem hs (hds List.mem_cons_self)
        have hn : d.name ∉ subscribeNames := by
          intro hn
          have hmem : d.name ∈ slowNames :=
            (by decide : ∀ w ∈ subscribeNames, w ∈ slowNames) _ hn
          simp [pipelineSlow, hmem] at hslow
        rw [List.foldl_cons, activeAfter_nil (.inl hn)]
        exact ih fun x hx => hds (List.mem_cons_of_mem d hx)
    rw [agrees_none h hsub, ← hb, hnil b (List.Subset.refl b)]
    exact iff_of_false (by simp [hsame, hsub]) (by simp)

/-- **Subscribe mode.** As long as the subscriptions that open the mode are served and no
command ends the last one, a session is in subscribe mode if and only if its client has
an active subscription. -/
theorem subscribed_iff_active (hcfg : cfg.Valid) {S : List Subscription}
    (h : Reaches cfg (InMode cfg) s S) : s.sub.isSome = true ↔ S ≠ [] := by
  induction h with
  | new => exact iff_of_false (by simp [newSession]) (by simp)
  | handled _ hD hrun ih => exact Agrees.handled hcfg.seeds ih hD hrun
  | passed b _ _ ih =>
    rw [batchState_mode]
    exact ih
  | piped _ hs hk hrun ih => exact Agrees.piped ih hs hk hrun

/-- `SUBSCRIBE news`. -/
def subscribeNews : ClientCmd := { id := ⟨0, 0⟩, argv := [arg "SUBSCRIBE", arg "news"] }

/-- Backends that acknowledge. -/
def acking : (o : Op) → Res o
  | .waitAck _ => .ok (array [bulkString (arg "subscribe"), bulkString (arg "news"), integer 1])
  | o => calm (fun _ => plusOK) o

/-- Backends whose acknowledgements do not come in time. -/
def ackTimeout : (o : Op) → Res o
  | .waitAck _ => .error "i/o timeout"
  | o => calm (fun _ => plusOK) o

theorem subscribed_iff_active_news :
    ∃ s S, Reaches seeded (InMode seeded) s S ∧ (s.sub.isSome = true ↔ S ≠ []) := by
  have hrun := scripted_runs (fun _ => acking) (handle seeded (newSession seeded) subscribeNews)
  have hserves := scripted_events (fun _ => acking) (P := Serves subscribeNews)
    (fun _ o => by cases o <;> first | trivial | exact fun h => absurd h (by decide))
    (handle seeded (newSession seeded) subscribeNews)
  have hreach : Reaches seeded (InMode seeded) _ _ :=
    Reaches.new.handled ⟨fun _ _ _ _ => ⟨by decide, hserves⟩, fun h => absurd rfl h⟩ hrun
  exact ⟨_, _, hreach, subscribed_iff_active seeded_valid hreach⟩

/-- A `SUBSCRIBE` whose acknowledgement does not come is answered with an error, and the
session stays in subscribe mode. -/
theorem failed_subscribe_stays_subscribed :
    ¬ ∀ s S, Reaches seeded anyCond s S → (s.sub.isSome = true ↔ S ≠ []) := by
  intro h
  have hrun := scripted_runs (fun _ => ackTimeout)
    (handle seeded (newSession seeded) subscribeNews)
  have hagrees := h _ _ (Reaches.new.handled trivial hrun)
  exact absurd hagrees (by decide +kernel)

end RespProxy.Proxy
