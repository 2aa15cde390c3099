import RespProxy.Proxy.Plan

/-! # The order of a fast batch

While a slot stays where it is, a connection either leads to its owner, which then
executes all commands for the slot in order, or it does not, and all of them come back.
So what was executed, what the owner is going to execute, and what is written again
are, one behind the other, in the order of the batch (`Core.order`). The group that has
these commands keeps it so by its turns (`Core.turn`); the other groups and the
backends do not disturb it (`Core.other`, `Core.serve`).

If the slot moves while the group reads its replies, the commands behind a redirected
one may be executed before it is written again (`redirected_overtaken`).
-/

namespace RespProxy.Proxy

open Cluster Command Resp

variable {cfg : Config} {B : Backends} {k : Bytes}
variable {a b : Fleet × Stage} {ks : List Classified} {hs : List Happening} {ρ : Route}
variable {fs : List Frame} {back todo : List Origin} {f : Frame} {v : Value} {α : Type}
  {owner : Nat → Addr} {l : Happening} {p : Prog α} {y : Stage} {i : Nat} {o : Op}

/-! ## The group and the backends -/

/-- The connection leads to the owner of the key. -/
def Fleet.Leads (cfg : Config) (B : Backends) (k : Bytes) (s : Fleet) (c : ConnId) : Prop :=
  s.owner (keyOf cfg k) = B.node c

instance (s : Fleet) (c : ConnId) : Decidable (s.Leads cfg B k c) :=
  inferInstanceAs (Decidable (_ = _))

/-- The connection that may have commands for the key under way. -/
def Stage.dirty : Stage → Option ConnId
  | .calm _ _ => none
  | .awaiting c _ _ _ => some c
  | .failed _ c => some c

/-- The commands for the key that are still executed, in order. -/
def Stage.rest (cfg : Config) (B : Backends) (k : Bytes) (s : Fleet) : Stage → List Origin
  | .calm _ todo => todo
  | .awaiting c fs back todo =>
    if s.Leads cfg B k c then touching B k (s.links c).wire ++ todo
    else back ++ (touching B k fs ++ todo)
  | .failed _ c => if s.Leads cfg B k c then touching B k (s.links c).wire else []

theorem Stage.rest_awaiting {s : Fleet} {c : ConnId} :
    (Stage.awaiting c fs back todo).rest cfg B k s = if s.Leads cfg B k c then
      touching B k (s.links c).wire ++ todo else back ++ (touching B k fs ++ todo) := rfl

theorem Stage.rest_over {s : Fleet} {c : ConnId} {conn : Option ConnId} :
    (Stage.failed conn c).rest cfg B k s =
      if s.Leads cfg B k c then touching B k (s.links c).wire else [] := rfl

/-- A reply is a redirect where the connection does not lead to the owner. -/
def Verdict (cfg : Config) (B : Backends) (k : Bytes) (s : Fleet) (c : ConnId) (f : Frame)
    (v : Value) : Prop :=
  k ∈ B.writes f.argv → ((redirectOf v).isNone = true ↔ s.Leads cfg B k c)

/-- The connection has what the group waits for, and nothing else. -/
def Stage.Ready (cfg : Config) (B : Backends) (k : Bytes) (s : Fleet) : Stage → Prop
  | .calm (some c) _ => s.links c = {}
  | .awaiting c fs back _ =>
    (∃ served, fs = served ++ (s.links c).wire ∧
      List.Forall₂ (Verdict cfg B k s c) served (s.links c).replies) ∧
    (s.Leads cfg B k c → back = [])
  | _ => True

/-- The group that writes the key. -/
structure Core (cfg : Config) (B : Backends) (k : Bytes) (T : List Origin) (s : Fleet)
    (x : Stage) : Prop where
  ready : x.Ready cfg B k s
  wires : ∀ c, x.dirty ≠ some c → touching B k (s.links c).wire = []
  slots : ∀ c, ∀ f ∈ (s.links c).wire, OneSlot cfg B k f
  fresh : s.started = false → ∃ todo, x = .calm none todo
  order : (touching B k s.log ++ x.rest cfg B k s).Sublist T

variable {T : List Origin} {s s' : Fleet} {x : Stage} {c : ConnId}

/-- A group with a connection is not fresh. -/
theorem Core.begun (h : Core cfg B k T s x) (hx : x.conn = some c)
    (hs : s.started = false) : ∃ todo, y = .calm none todo := by
  obtain ⟨todo, rfl⟩ := h.fresh hs
  cases hx

/-- What the group does not notice. -/
theorem Core.frame (h : Core cfg B k T s x)
    (hleads : ∀ c, s'.Leads cfg B k c ↔ s.Leads cfg B k c) (hlog : s'.log = s.log)
    (hwire : ∀ c, touching B k (s'.links c).wire = touching B k (s.links c).wire)
    (hslots : ∀ c, ∀ f ∈ (s'.links c).wire, OneSlot cfg B k f)
    (hlink : ∀ c, x.conn = some c → s'.links c = s.links c)
    (hstarted : s'.started = false → s.started = false) : Core cfg B k T s' x := by
  have hrest : x.rest cfg B k s' = x.rest cfg B k s := by
    cases x with
    | calm conn todo => rfl
    | awaiting c fs back todo => simp only [Stage.rest, hleads, hwire]
    | failed conn c => simp only [Stage.rest, hleads, hwire]
  constructor
  · have hready := h.ready
    cases x with
    | calm conn todo =>
      cases conn with
      | none => trivial
      | some c => exact (hlink c rfl).trans hready
    | awaiting c fs back todo =>
      unfold Stage.Ready Verdict at hready ⊢
      simpa only [hleads, hlink c rfl] using hready
    | failed conn c => trivial
  · intro c hc
    rw [hwire]
    exact h.wires c hc
  · exact hslots
  · exact fun hs => h.fresh (hstarted hs)
  · rw [hlog, hrest]
    exact h.order

theorem Core.skip {conn : Option ConnId} {todo todo' : List Origin}
    (h : Core cfg B k T s (.calm conn todo)) (hsub : todo'.Sublist todo) :
    Core cfg B k T s (.calm conn todo') := by
  constructor
  · cases conn with
    | none => trivial
    | some c => exact h.ready
  · exact h.wires
  · exact h.slots
  · intro hs
    obtain ⟨_, heq⟩ := h.fresh hs
    cases heq
    exact ⟨todo', rfl⟩
  · exact ((List.Sublist.refl _).append hsub).trans h.order

/-- All replies are read. -/
theorem Core.answered (h : Core cfg B k T s (.awaiting c [] back todo)) :
    Core cfg B k T s (.calm (some c) (back ++ todo)) := by
  obtain ⟨⟨served, hserved, hreplies⟩, hback⟩ := h.ready
  obtain ⟨rfl, hwire⟩ := List.append_eq_nil_iff.1 hserved.symm
  constructor
  · show s.links c = {}
    generalize s.links c = link at hwire hreplies
    obtain ⟨wire, replies⟩ := link
    cases hwire
    cases hreplies
    rfl
  · intro d _
    by_cases hd : d = c
    · rw [hd, hwire]
      rfl
    · exact h.wires d fun heq => hd (Option.some.inj heq).symm
  · exact h.slots
  · exact h.begun rfl
  · have horder := h.order
    rw [Stage.rest_awaiting] at horder
    split at horder
    · next hleads =>
      rw [hback hleads]
      rwa [hwire] at horder
    · exact horder

/-- The group fails. -/
theorem Core.fail {conn : Option ConnId} (h : Core cfg B k T s x) (hx : x.conn = some c)
    (hdirty : x.dirty = none ∨ x.dirty = some c) : Core cfg B k T s (.failed conn c) := by
  constructor
  · trivial
  · intro d hd
    refine h.wires d ?_
    rcases hdirty with hdirty | hdirty <;> rw [hdirty]
    · simp
    · exact hd
  · exact h.slots
  · exact h.begun hx
  · refine ((List.Sublist.refl _).append ?_).trans h.order
    rw [Stage.rest_over]
    split
    · next hleads =>
      cases x with
      | calm conn todo =>
        cases hx
        have hlink : s.links c = {} := h.ready
        rw [hlink]
        exact List.nil_sublist _
      | awaiting d fs back todo =>
        cases hx
        rw [Stage.rest_awaiting, if_pos hleads]
        exact List.sublist_append_left _ _
      | failed conn d =>
        rcases hdirty with hdirty | hdirty <;> cases hdirty
        rw [Stage.rest_over, if_pos hleads]
    · exact List.nil_sublist _

theorem Fleet.links_deliver (s : Fleet) (c d : ConnId) (fs : List Frame) :
    (s.deliver c fs).links d =
      if d = c then { s.links c with wire := (s.links c).wire ++ fs } else s.links d := rfl

/-- The first `n` commands of a write arrive. -/
theorem Core.torn {todo : List Origin} {n : Nat}
    (h : Core cfg B k T s (.calm (some c) (touching B k fs ++ todo)))
    (hslot : ∀ f ∈ fs, OneSlot cfg B k f) :
    Core cfg B k T (s.deliver c (fs.take n)) (.failed (some c) c) := by
  have hlink : s.links c = {} := h.ready
  constructor
  · trivial
  · intro d hd
    rw [Fleet.links_deliver, if_neg fun heq => hd (congrArg some heq.symm)]
    exact h.wires d (by simp [Stage.dirty])
  · intro d f hf
    rw [Fleet.links_deliver] at hf
    split at hf
    · rw [hlink] at hf
      exact hslot f (List.mem_of_mem_take hf)
    · exact h.slots d f hf
  · exact h.begun rfl
  · refine ((List.Sublist.refl _).append ?_).trans h.order
    rw [Stage.rest_over]
    split
    · rw [Fleet.links_deliver, if_pos rfl, hlink]
      refine List.Sublist.trans ?_ (List.sublist_append_left _ _)
      exact ((List.take_sublist n fs).filter _).map _
    · exact List.nil_sublist _

/-- The commands are written. -/
theorem Core.write {todo : List Origin}
    (h : Core cfg B k T s (.calm (some c) (touching B k fs ++ todo)))
    (hslot : ∀ f ∈ fs, OneSlot cfg B k f) :
    Core cfg B k T (s.deliver c fs) (.awaiting c fs [] todo) := by
  have hlink : s.links c = {} := h.ready
  have hlink' : (s.deliver c fs).links c = { wire := fs } := by
    rw [Fleet.links_deliver, if_pos rfl, hlink]
    rfl
  constructor
  · exact ⟨⟨[], by rw [hlink']; rfl, by rw [hlink']; exact .nil⟩, fun _ => rfl⟩
  · intro d hd
    rw [Fleet.links_deliver, if_neg fun heq => hd (congrArg some heq.symm)]
    exact h.wires d (by simp [Stage.dirty])
  · intro d f hf
    by_cases hd : d = c
    · rw [hd, hlink'] at hf
      exact hslot f hf
    · rw [Fleet.links_deliver, if_neg hd] at hf
      exact h.slots d f hf
  · exact h.begun rfl
  · rw [Stage.rest_awaiting, hlink']
    split <;> exact h.order

/-- A command that does not write the key is no matter. -/
theorem touching_singleton (hf : k ∉ B.writes f.argv) : touching B k [f] = [] := by
  simp [touching, Touches, hf]

theorem Fleet.links_setLink (s : Fleet) (c d : ConnId) (link : Link) :
    (s.setLink c link).links d = if d = c then link else s.links d := rfl

/-- Replies that are read leave the commands alone. -/
theorem Fleet.wire_setLink (s : Fleet) (c : ConnId) (replies : List Value) (d : ConnId) :
    ((s.setLink c { s.links c with replies }).links d).wire = (s.links d).wire := by
  rw [Fleet.links_setLink]
  split
  · next hd => rw [hd]
  · rfl

/-- What comes back is a redirect exactly where the owner is elsewhere. -/
theorem Verdict.redirected (h : Verdict cfg B k s c f v) :
    redirected B k f v = if s.Leads cfg B k c then [] else touching B k [f] := by
  unfold Proxy.redirected
  by_cases hf : k ∈ B.writes f.argv
  · have hiff := h hf
    cases hred : redirectOf v with
    | none =>
      rw [if_pos (hiff.1 (by rw [hred]; rfl))]
      rfl
    | some red =>
      have hleads : ¬ s.Leads cfg B k c := fun hleads => by simpa [hred] using hiff.2 hleads
      rw [if_neg hleads]
      rfl
  · rw [touching_singleton hf, ite_self, ite_self]

/-- A reply is read. -/
theorem Core.read {replies : List Value} (h : Core cfg B k T s (.awaiting c (f :: fs) back todo))
    (hreplies : (s.links c).replies = v :: replies) :
    Core cfg B k T (s.setLink c { s.links c with replies })
      (.awaiting c fs (back ++ redirected B k f v) todo) := by
  obtain ⟨⟨served, hserved, hverdicts⟩, hback⟩ := h.ready
  rw [hreplies] at hverdicts
  cases hverdicts with
  | @cons g _ served _ hv hverdicts =>
    obtain ⟨rfl, hfs⟩ := List.cons.inj hserved
    have hlink : ((s.setLink c { s.links c with replies }).links c) = { s.links c with replies } := by
      rw [Fleet.links_setLink, if_pos rfl]
    have hwire := s.wire_setLink c replies
    constructor
    · refine ⟨⟨served, by rw [hwire]; exact hfs, by rw [hlink]; exact hverdicts⟩, fun hleads => ?_⟩
      rw [hv.redirected, hback hleads, if_pos (show s.Leads cfg B k c from hleads)]
      rfl
    · intro d hd
      rw [hwire]
      exact h.wires d hd
    · intro d g hg
      rw [hwire] at hg
      exact h.slots d g hg
    · exact h.begun rfl
    · have horder := h.order
      rw [Stage.rest_awaiting] at horder ⊢
      rw [hwire, hv.redirected]
      show (touching B k s.log ++ if s.Leads cfg B k c then _ else _).Sublist T
      split at horder
      · next hleads => rwa [if_pos hleads]
      · next hleads =>
        rw [if_neg hleads, if_neg hleads]
        rw [touching_cons] at horder
        simpa only [List.append_assoc] using horder

/-- A slot changes its owner. -/
theorem Core.move {slot : Nat} {addr : Addr} (h : Core cfg B k T s x)
    (hsteady : s.started = true → slot = keyOf cfg k → addr = s.owner slot) :
    Core cfg B k T { s with owner := fun n => if n = slot then addr else s.owner n } x := by
  rcases Bool.eq_false_or_eq_true s.started with hstarted | hstarted
  · refine h.frame (fun c => ?_) rfl (fun _ => rfl) h.slots (fun _ _ => rfl) fun hs => hs
    unfold Fleet.Leads
    dsimp only
    split
    · next hslot => rw [hsteady hstarted hslot.symm, hslot]
    · rfl
  · -- before the batch is on its way, nothing depends on the owner
    obtain ⟨todo, rfl⟩ := h.fresh hstarted
    exact ⟨trivial, h.wires, h.slots, h.fresh, h.order⟩

/-- A node owns all keys of a command if it owns one of them. -/
theorem OneSlot.verdict (h : OneSlot cfg B k f)
    (hserve : B.writes f.argv ≠ [] → (redirectOf v).isNone = s.owns cfg B c f) :
    Verdict cfg B k s c f v := by
  intro hk
  rw [hserve (List.ne_nil_of_mem hk), Fleet.owns, List.all_eq_true]
  constructor
  · intro hall
    exact of_decide_eq_true (hall k hk)
  · intro hleads k' hk'
    rw [h hk k' hk']
    exact decide_eq_true hleads

/-- What is executed is all that the owner is sent. -/
theorem Verdict.executed (h : Verdict cfg B k s c f v) :
    touching B k (if (redirectOf v).isNone then [f] else []) =
      if s.Leads cfg B k c then touching B k [f] else [] := by
  by_cases hf : k ∈ B.writes f.argv
  · rw [apply_ite (touching B k)]
    exact if_congr (h hf) rfl rfl
  · rw [touching_singleton hf, ite_self]
    split
    · exact touching_singleton hf
    · rfl

/-- A node takes a command. -/
theorem Core.serve {wire : List Frame} (h : Core cfg B k T s x)
    (hwire : (s.links c).wire = f :: wire)
    (hserve : B.writes f.argv ≠ [] → (redirectOf v).isNone = s.owns cfg B c f)
    (howner : s'.owner = s.owner) (hstarted : s'.started = s.started)
    (hlinks : s'.links = (s.setLink c { wire, replies := (s.links c).replies ++ [v] }).links)
    (hlog : s'.log = s.log ++ if (redirectOf v).isNone then [f] else []) :
    Core cfg B k T s' x := by
  have hf : OneSlot cfg B k f := h.slots c f (by rw [hwire]; exact List.mem_cons_self)
  have hverdict := hf.verdict hserve
  have hleads : ∀ d, s'.Leads cfg B k d ↔ s.Leads cfg B k d := fun d => by
    rw [Fleet.Leads, howner, Fleet.Leads]
  have hself : s'.links c = { wire, replies := (s.links c).replies ++ [v] } := by
    rw [hlinks, Fleet.links_setLink, if_pos rfl]
  have hother : ∀ d, d ≠ c → s'.links d = s.links d := fun d hd => by
    rw [hlinks, Fleet.links_setLink, if_neg hd]
  -- a connection without commands for the key had none to execute
  have hnone : x.dirty ≠ some c → touching B k [f] = [] ∧ touching B k wire = [] := by
    intro hd
    have htouch := h.wires c hd
    rw [hwire, touching_cons] at htouch
    exact List.append_eq_nil_iff.1 htouch
  constructor
  · have hready := h.ready
    have hclean : ∀ d, s.links d = {} → s'.links d = {} := by
      intro d hd
      rw [hother d ?_, hd]
      rintro rfl
      rw [hd] at hwire
      cases hwire
    cases x with
    | calm conn todo =>
      cases conn with
      | none => trivial
      | some d => exact hclean d hready
    | failed conn d => trivial
    | awaiting d fs back todo =>
      obtain ⟨⟨served, hserved, hverdicts⟩, hback⟩ := hready
      have hverdicts' : List.Forall₂ (Verdict cfg B k s' d) served (s.links d).replies := by
        refine hverdicts.imp fun f v hv hk => ?_
        rw [hleads]
        exact hv hk
      refine ⟨?_, fun hl => hback ((hleads d).1 hl)⟩
      by_cases hd : d = c
      · subst hd
        rw [hself]
        refine ⟨served ++ [f], by rw [hserved, hwire, List.append_assoc]; rfl, ?_⟩
        refine List.rel_append hverdicts' (.cons ?_ .nil)
        intro hk
        rw [hleads]
        exact hverdict hk
      · rw [hother d hd]
        exact ⟨served, hserved, hverdicts'⟩
  · intro d hd
    by_cases hdc : d = c
    · subst hdc
      rw [hself]
      exact (hnone hd).2
    · rw [hother d hdc]
      exact h.wires d hd
  · intro d g hg
    by_cases hdc : d = c
    · subst hdc
      rw [hself] at hg
      exact h.slots d g (by rw [hwire]; exact List.mem_cons_of_mem _ hg)
    · rw [hother d hdc] at hg
      exact h.slots d g hg
  · exact fun hs => h.fresh (hstarted ▸ hs)
  · have horder := h.order
    rw [hlog, touching_append, hverdict.executed, List.append_assoc]
    by_cases hd : x.dirty = some c
    · cases x with
      | calm conn todo => cases hd
      | awaiting d fs back todo =>
        cases hd
        rw [Stage.rest_awaiting, if_congr (hleads c) rfl rfl, hself]
        rw [Stage.rest_awaiting] at horder
        split at horder
        · next hl =>
          rw [hwire, touching_cons, List.append_assoc] at horder
          rwa [if_pos hl, if_pos hl]
        · next hl => rwa [if_neg hl, if_neg hl]
      | failed conn d =>
        cases hd
        rw [Stage.rest_over, if_congr (hleads c) rfl rfl, hself]
        rw [Stage.rest_over] at horder
        split at horder
        · next hl =>
          rw [hwire, touching_cons] at horder
          rwa [if_pos hl, if_pos hl]
        · next hl => rwa [if_neg hl, if_neg hl]
    · rw [(hnone hd).1, ite_self, List.nil_append]
      have hrest : x.rest cfg B k s' = x.rest cfg B k s := by
        cases x with
        | calm conn todo => rfl
        | awaiting d fs back todo =>
          rw [Stage.rest_awaiting, Stage.rest_awaiting, if_congr (hleads d) rfl rfl,
            hother d fun heq => hd (congrArg some heq)]
        | failed conn d =>
          rw [Stage.rest_over, Stage.rest_over, if_congr (hleads d) rfl rfl,
            hother d fun heq => hd (congrArg some heq)]
      rwa [hrest]

/-! ## One turn of a group -/

/-- What a request of a group does to the backends, and to where the group is. -/
inductive Turn (cfg : Config) (B : Backends) (k : Bytes) :
    Fleet × Stage → Fleet × Stage → Prop where
  | aside {s : Fleet} {x : Stage} : Turn cfg B k (s, x) (s, x)
  | refused {s : Fleet} {todo : List Origin} :
      Turn cfg B k (s, .calm none todo) ({ s with started := true }, .calm none todo)
  | got {s : Fleet} {c : ConnId} {todo : List Origin} (hheld : c ∉ s.held)
      (hlink : s.links c = {}) : Turn cfg B k (s, .calm none todo)
        ({ s with held := c :: s.held, started := true }, .calm (some c) todo)
  | put {s : Fleet} {c : ConnId} {todo : List Origin} : Turn cfg B k (s, .calm (some c) todo)
      ({ s with held := s.held.filter (· ≠ c) }, .calm none todo)
  | drop {s : Fleet} {c : ConnId} : Turn cfg B k (s, .failed (some c) c)
      ({ s with held := s.held.filter (· ≠ c) }, .failed none c)
  | torn {s : Fleet} {c : ConnId} {fs : List Frame} {todo : List Origin} {n : Nat}
      (hslot : ∀ f ∈ fs, OneSlot cfg B k f) :
      Turn cfg B k (s, .calm (some c) (touching B k fs ++ todo))
        (s.deliver c (fs.take n), .failed (some c) c)
  | write {s : Fleet} {c : ConnId} {fs : List Frame} {todo : List Origin}
      (hslot : ∀ f ∈ fs, OneSlot cfg B k f) :
      Turn cfg B k (s, .calm (some c) (touching B k fs ++ todo))
        (s.deliver c fs, .awaiting c fs [] todo)
  | read {s : Fleet} {c : ConnId} {f : Frame} {fs : List Frame} {back todo : List Origin}
      {v : Value} {replies : List Value} (hreplies : (s.links c).replies = v :: replies) :
      Turn cfg B k (s, .awaiting c (f :: fs) back todo)
        (s.setLink c { s.links c with replies },
          .awaiting c fs (back ++ redirected B k f v) todo)
  | unwritten {s : Fleet} {c : ConnId} {todo : List Origin} :
      Turn cfg B k (s, .calm (some c) todo) (s, .failed (some c) c)
  | unread {s : Fleet} {c : ConnId} {fs : List Frame} {back todo : List Origin} :
      Turn cfg B k (s, .awaiting c fs back todo) (s, .failed (some c) c)
  | answered {s : Fleet} {c : ConnId} {back todo : List Origin} :
      Turn cfg B k (s, .awaiting c [] back todo) (s, .calm (some c) (back ++ todo))
  | skip {s : Fleet} {conn : Option ConnId} {todo todo' : List Origin}
      (hsub : todo'.Sublist todo) : Turn cfg B k (s, .calm conn todo) (s, .calm conn todo')

/-- Requests that leave connections alone leave the backends alone. -/
theorem Aside.answer (ho : Aside o) (r : Res o) : s.answer B o r = some s := by
  cases o <;> first | exact ho.elim | rfl

/-- A program that follows a plan takes turns. -/
theorem Plan.turn {r : Res o}
    {next : Res o → Prog α} (hp : Plan cfg B k x p) (hcall : p = .call o next)
    (hl : l.event? = some ⟨o, r⟩) (hsteady : Steady cfg k ρ s l)
    (hnext : s.next cfg B l = some s') :
    ∃ y, Relation.ReflTransGen (Turn cfg B k) (s, x) (s', y) ∧ Plan cfg B k y (next r) := by
  -- only a write has two labels
  have hlabel : l = .event ⟨o, r⟩ ∨
      ∃ c fs e n, l = .torn c fs e n ∧ (⟨.write c fs, some e⟩ : Event) = ⟨o, r⟩ := by
    cases l with
    | event e => exact .inl (congrArg _ (Option.some.inj hl))
    | torn c fs e n => exact .inr ⟨c, fs, e, n, rfl, Option.some.inj hl⟩
    | serve c v => cases hl
    | move slot addr => cases hl
  induction hp with
  | ret a => cases hcall
  | failed a => cases hcall
  | answered h ih =>
    obtain ⟨y, hturns, hy⟩ := ih hcall
    exact ⟨y, .head .answered hturns, hy⟩
  | skip hsub h ih =>
    obtain ⟨y, hturns, hy⟩ := ih hcall
    exact ⟨y, .head (.skip hsub) hturns, hy⟩
  | aside ho h ih =>
    cases hcall
    rcases hlabel with rfl | ⟨c, fs, e, n, rfl, hev⟩
    · rw [Fleet.next, ho.answer] at hnext
      cases hnext
      exact ⟨_, .refl, h r⟩
    · cases hev
      exact ho.elim
  | get herr hok ih₁ ih₂ =>
    cases hcall
    rcases hlabel with rfl | ⟨c, fs, e, n, rfl, hev⟩
    · cases r with
      | error e =>
        cases hnext
        exact ⟨_, .single .refused, herr e⟩
      | ok c =>
        simp only [Fleet.next, Fleet.answer, Option.ite_none_right_eq_some] at hnext
        obtain ⟨⟨-, hheld⟩, heq⟩ := hnext
        cases heq
        exact ⟨_, .single (.got hheld hsteady), hok c⟩
    · cases hev
  | put h ih =>
    cases hcall
    rcases hlabel with rfl | ⟨c, fs, e, n, rfl, hev⟩
    · cases hnext
      exact ⟨_, .single .put, h⟩
    · cases hev
  | drop h ih =>
    cases hcall
    rcases hlabel with rfl | ⟨c, fs, e, n, rfl, hev⟩
    · cases hnext
      exact ⟨_, .single .drop, h⟩
    · cases hev
  | write hslot herr hok ih₁ ih₂ =>
    cases hcall
    rcases hlabel with rfl | ⟨c, fs, e, n, rfl, hev⟩
    · cases r with
      | none =>
        cases hnext
        exact ⟨_, .single (.write hslot), hok⟩
      | some e =>
        cases hnext
        exact ⟨_, .single .unwritten, herr e⟩
    · cases hev
      cases hnext
      exact ⟨_, .single (.torn hslot), herr e⟩
  | @read c f fs back todo next herr hok ih₁ ih₂ =>
    cases hcall
    rcases hlabel with rfl | ⟨c, fs, e, n, rfl, hev⟩
    · cases r with
      | error e =>
        cases hnext
        exact ⟨_, .single .unread, herr e⟩
      | ok v =>
        simp only [Fleet.next, Fleet.answer] at hnext
        split at hnext
        · next w replies hreplies =>
          simp only [Option.ite_none_right_eq_some] at hnext
          obtain ⟨rfl, heq⟩ := hnext
          cases heq
          exact ⟨_, .single (.read hreplies), hok v⟩
        · cases hnext
    · cases hev

/-- A turn of the group that writes the key. -/
theorem Core.turn (hturn : Turn cfg B k a b) (h : Core cfg B k T a.1 a.2) :
    Core cfg B k T b.1 b.2 := by
  cases hturn with
  | aside => exact h
  | refused => exact h.frame (fun _ => Iff.rfl) rfl (fun _ => rfl) h.slots (fun _ _ => rfl) nofun
  | got hheld hlink => exact ⟨hlink, h.wires, h.slots, nofun, h.order⟩
  | put | drop => exact ⟨trivial, h.wires, h.slots, h.begun rfl, h.order⟩
  | torn hslot => exact h.torn hslot
  | write hslot => exact h.write hslot
  | read hreplies => exact h.read hreplies
  | unwritten => exact h.fail rfl (.inl rfl)
  | unread => exact h.fail rfl (.inr rfl)
  | answered => exact h.answered
  | skip hsub => exact h.skip hsub

/-- A group without commands that write the key. -/
def Stage.Quiet (B : Backends) (k : Bytes) : Stage → Prop
  | .calm _ todo => todo = []
  | .awaiting _ fs back todo => touching B k fs = [] ∧ back = [] ∧ todo = []
  | .failed _ _ => True

theorem Turn.quiet (hturn : Turn cfg B k a b) (h : a.2.Quiet B k) :
    b.2.Quiet B k := by
  cases hturn with
  | aside | refused | got | put => exact h
  | drop | torn | unwritten | unread => trivial
  | write =>
    obtain ⟨hfs, htodo⟩ := List.append_eq_nil_iff.1 h
    exact ⟨hfs, rfl, htodo⟩
  | @read s c f fs back todo v replies hreplies =>
    obtain ⟨hfs, hback, htodo⟩ := h
    rw [touching_cons] at hfs
    obtain ⟨hf, hfs⟩ := List.append_eq_nil_iff.1 hfs
    refine ⟨hfs, ?_, htodo⟩
    rw [hback, redirected, hf, ite_self]
    rfl
  | answered =>
    obtain ⟨-, hback, htodo⟩ := h
    exact List.append_eq_nil_iff.2 ⟨hback, htodo⟩
  | skip hsub =>
    cases h
    exact List.sublist_nil.1 hsub

/-- Commands that do not write the key arrive on a connection of another group. -/
theorem Core.deliver (h : Core cfg B k T s x) (hc : x.conn ≠ some c)
    (hslot : ∀ f ∈ fs, OneSlot cfg B k f) (hfs : touching B k fs = []) :
    Core cfg B k T (s.deliver c fs) x := by
  refine h.frame (fun _ => Iff.rfl) rfl (fun d => ?_) (fun d f hf => ?_) (fun d hd => ?_) fun hs => hs
  · rw [Fleet.links_deliver]
    split
    · next hdc => rw [touching_append, hfs, List.append_nil, hdc]
    · rfl
  · rw [Fleet.links_deliver] at hf
    split at hf
    · rcases List.mem_append.1 hf with hf | hf
      · exact h.slots c f hf
      · exact hslot f hf
    · exact h.slots d f hf
  · rw [Fleet.links_deliver, if_neg]
    rintro rfl
    exact hc hd

/-- A turn of another group. -/
theorem Core.other (hturn : Turn cfg B k a b) (h : Core cfg B k T a.1 x)
    (hquiet : a.2.Quiet B k) (hapart : ∀ c, a.2.conn = some c → x.conn ≠ some c) :
    Core cfg B k T b.1 x := by
  have hstill : ∀ {s'}, s'.owner = a.1.owner → s'.links = a.1.links → s'.log = a.1.log →
      (s'.started = false → a.1.started = false) → Core cfg B k T s' x := by
    intro s' howner hlinks hlog hstarted
    refine h.frame (fun c => ?_) hlog (fun c => ?_) (fun c f hf => ?_) (fun c _ => ?_) hstarted
    · rw [Fleet.Leads, howner, Fleet.Leads]
    · rw [hlinks]
    · exact h.slots c f (hlinks ▸ hf)
    · rw [hlinks]
  cases hturn with
  | aside | unwritten | unread | answered | skip => exact h
  | refused | got => exact hstill rfl rfl rfl nofun
  | put | drop => exact hstill rfl rfl rfl fun hs => hs
  | @torn s c fs todo n hslot =>
    obtain ⟨hfs, -⟩ := List.append_eq_nil_iff.1 hquiet
    refine h.deliver (hapart c rfl) (fun f hf => hslot f (List.mem_of_mem_take hf)) ?_
    have hsub : (touching B k (fs.take n)).Sublist (touching B k fs) :=
      ((List.take_sublist n fs).filter _).map _
    exact List.sublist_nil.1 (hfs ▸ hsub)
  | @write s c fs todo hslot =>
    obtain ⟨hfs, -⟩ := List.append_eq_nil_iff.1 hquiet
    exact h.deliver (hapart c rfl) hslot hfs
  | @read s c f fs back todo v replies hreplies =>
    have hwire := s.wire_setLink c replies
    refine h.frame (fun _ => Iff.rfl) rfl (fun d => ?_) (fun d g hg => ?_) (fun d hd => ?_)
      fun hs => hs
    · rw [hwire]
    · rw [hwire] at hg
      exact h.slots d g hg
    · rw [Fleet.links_setLink, if_neg]
      rintro rfl
      exact hapart d rfl hd

/-- Connections that a group did not have were free. -/
theorem Turn.conn (hturn : Turn cfg B k a b)
    (hheld : ∀ c, a.2.conn = some c → c ∈ a.1.held) (hc : b.2.conn = some c) :
    c ∈ b.1.held ∧ (a.2.conn = some c ∨ c ∉ a.1.held) := by
  cases hturn with
  | @got s d todo hfree hlink =>
    cases hc
    exact ⟨List.mem_cons_self, .inr hfree⟩
  | refused | put | drop => cases hc
  | aside | torn | write | read | unwritten | unread | answered | skip =>
    exact ⟨hheld c hc, .inl hc⟩

/-- Connections of others stay with them. -/
theorem Turn.keeps (hturn : Turn cfg B k a b) (hc : c ∈ a.1.held)
    (hother : a.2.conn ≠ some c) : c ∈ b.1.held := by
  cases hturn with
  | got => exact List.mem_cons_of_mem _ hc
  | put | drop =>
    refine List.mem_filter.2 ⟨hc, decide_eq_true ?_⟩
    rintro rfl
    exact hother rfl
  | aside | refused | torn | write | read | unwritten | unread | answered | skip => exact hc

/-! ## The groups of a batch -/

/-- Where the groups are. All commands that write the key are in the group `g`. -/
structure Tracks (cfg : Config) (B : Backends) (k : Bytes) (T : List Origin) (g : Nat)
    (s : Fleet) (st : Nat → Stage) : Prop where
  core : Core cfg B k T s (st g)
  held : ∀ i c, (st i).conn = some c → c ∈ s.held
  apart : ∀ i j c, (st i).conn = some c → (st j).conn = some c → i = j
  quiet : ∀ i, i ≠ g → (st i).Quiet B k

variable {g : Nat} {st : Nat → Stage}

/-- **A turn of any group.** -/
theorem Tracks.turn (h : Tracks cfg B k T g s st) (hturn : Turn cfg B k (s, st i) (s', y)) :
    Tracks cfg B k T g s' (Function.update st i y) := by
  have hnew : ∀ c, y.conn = some c → c ∈ s'.held ∧ ((st i).conn = some c ∨ c ∉ s.held) :=
    fun c hc => hturn.conn (h.held i) hc
  have hclash : ∀ j c, j ≠ i → (st j).conn = some c → y.conn ≠ some c := by
    intro j c hj hjc hyc
    rcases (hnew c hyc).2 with hic | hfree
    · exact hj (h.apart j i c hjc hic)
    · exact hfree (h.held j c hjc)
  constructor
  · by_cases hg : g = i
    · subst hg
      rw [Function.update_self]
      exact Core.turn hturn h.core
    · rw [Function.update_of_ne hg]
      refine Core.other hturn h.core (h.quiet i fun hi => hg hi.symm) fun c hic hgc => ?_
      exact hg (h.apart g i c hgc hic)
  · intro j c hc
    by_cases hj : j = i
    · subst hj
      rw [Function.update_self] at hc
      exact (hnew c hc).1
    · rw [Function.update_of_ne hj] at hc
      exact hturn.keeps (h.held j c hc) fun hic => hj (h.apart j i c hc hic)
  · intro j j' c hc hc'
    by_cases hj : j = i <;> by_cases hj' : j' = i
    · rw [hj, hj']
    · subst hj
      rw [Function.update_self] at hc
      rw [Function.update_of_ne hj'] at hc'
      exact absurd hc (hclash j' c hj' hc')
    · subst hj'
      rw [Function.update_self] at hc'
      rw [Function.update_of_ne hj] at hc
      exact absurd hc' (hclash j c hj hc)
    · rw [Function.update_of_ne hj] at hc
      rw [Function.update_of_ne hj'] at hc'
      exact h.apart j j' c hc hc'
  · intro j hj
    by_cases hji : j = i
    · subst hji
      rw [Function.update_self]
      exact hturn.quiet (h.quiet j hj)
    · rw [Function.update_of_ne hji]
      exact h.quiet j hj

/-- Several turns of one group. -/
theorem Tracks.turns (h : Tracks cfg B k T g s st)
    (hturns : Relation.ReflTransGen (Turn cfg B k) (s, st i) b) :
    Tracks cfg B k T g b.1 (Function.update st i b.2) := by
  induction hturns with
  | refl =>
    rw [Function.update_eq_self]
    exact h
  | @tail b b' _ hturn ih =>
    have hturn' : Turn cfg B k (b.1, Function.update st i b.2 i) (b'.1, b'.2) := by
      rw [Function.update_self]
      exact hturn
    have hnext := ih.turn hturn'
    rwa [Function.update_idem] at hnext

/-- **A step of the backends.** -/
theorem Tracks.env (h : Tracks cfg B k T g s st)
    (hl : l.event? = none) (hsteady : Steady cfg k ρ s l) (hnext : s.next cfg B l = some s') :
    Tracks cfg B k T g s' st := by
  cases l with
  | event e => cases hl
  | torn c fs e n => cases hl
  | move slot addr =>
    cases hnext
    exact ⟨h.core.move hsteady, h.held, h.apart, h.quiet⟩
  | serve c v =>
    rw [Fleet.next] at hnext
    split at hnext
    · next f wire hwire =>
      split at hnext
      · cases hnext
      · next hguard =>
        have hserve : B.writes f.argv ≠ [] → (redirectOf v).isNone = s.owns cfg B c f := by
          intro hne
          by_contra hcon
          exact hguard ⟨hne, fun hb => hcon (Fleet.behaves_owns cfg B hb)⟩
        dsimp only at hnext
        split at hnext
        · next hex =>
          cases hnext
          refine ⟨h.core.serve hwire hserve rfl rfl rfl ?_, h.held, h.apart, h.quiet⟩
          rw [if_pos hex]
        · next hex =>
          cases hnext
          refine ⟨h.core.serve hwire hserve rfl rfl rfl ?_, h.held, h.apart, h.quiet⟩
          rw [if_neg hex, List.append_nil]
          rfl
    · cases hnext

/-- The programs of the groups, each where its group is. -/
def Underway (cfg : Config) (B : Backends) (k : Bytes) (T : List Origin) (g : Nat) {α : Type}
    (s : Fleet) (ps : List (Prog α)) : Prop :=
  ∃ st, Tracks cfg B k T g s st ∧ ∀ (i : Nat) p, ps[i]? = some p → Plan cfg B k (st i) p

theorem Plan.forks (h : Plan cfg B k x p) : p.forks = false := by
  induction h <;> first | rfl | assumption

/-- **The groups run at once.** -/
theorem Underway.run {ps : List (Prog α)} {trs : List Trace} (h : Underway cfg B k T g s ps)
    (hsteady : Machine.Meets (Fleet.next cfg B) (Steady cfg k ρ) s hs)
    (hrun : Machine.exec (Fleet.next cfg B) s hs = some s')
    (hshuffle : Interact.Shuffle trs (hs.filterMap Happening.event?))
    (hlen : trs.length = ps.length)
    (hruns : ∀ (i : Nat) (p : Prog α) tr, ps[i]? = some p → trs[i]? = some tr → ∃ a, p.Runs tr a) :
    ∃ st, Tracks cfg B k T g s' st := by
  suffices hrun : ∃ ps, Underway cfg B k T g s' (α := α) ps by
    obtain ⟨_, st, htracks, -⟩ := hrun
    exact ⟨st, htracks⟩
  refine Interact.threads_invariant ?_ ?_ ?_ hsteady hrun h hshuffle hlen hruns
  · rintro s ps ⟨st, -, hplans⟩ p hp
    obtain ⟨i, hi⟩ := List.mem_iff_getElem?.1 hp
    exact (hplans i p hi).forks
  · rintro s l s' ps ⟨st, htracks, hplans⟩ hsteady hl hnext
    exact ⟨st, htracks.env hl hsteady hnext, hplans⟩
  · rintro s l s' ps i o r next ⟨st, htracks, hplans⟩ hsteady hi hl hnext
    obtain ⟨y, hturns, hy⟩ := (hplans i _ hi).turn rfl hl hsteady hnext
    refine ⟨_, htracks.turns hturns, fun j p hj => ?_⟩
    by_cases hji : j = i
    · subst hji
      rw [List.getElem?_set_self (List.getElem?_eq_some_iff.1 hi).1] at hj
      cases hj
      rw [Function.update_self]
      exact hy
    · rw [List.getElem?_set_ne fun hij => hji hij.symm] at hj
      rw [Function.update_of_ne hji]
      exact hplans j p hj

/-! ## Fast batches -/

/-- The frame of a command that is sent. -/
def Classified.frame? : Classified → Option Frame
  | .send _ _ f _ => some f
  | _ => none

theorem frames_sendItems (ks : List Classified) :
    (sendItems ks).map SendItem.frame = ks.filterMap Classified.frame? := by
  have hfst : ks.filterMap Classified.frame? =
      ks.zipIdx.filterMap (Classified.frame? ∘ Prod.fst) := by
    rw [← List.filterMap_map, List.zipIdx_map_fst]
  rw [hfst, sendItems, List.map_filterMap]
  refine List.filterMap_congr ?_
  rintro ⟨k, i⟩ -
  cases k <;> rfl

/-- The commands that are sent are commands of the batch, in its order. -/
theorem ClassifiesAll.ids {x : Session} {b : List ClientCmd} (h : ClassifiesAll cfg x b ks) :
    ((ks.filterMap Classified.frame?).map fun f => Origin.id f.src).Sublist
      (b.map fun c => some c.id) := by
  induction h with
  | nil => exact List.Sublist.refl _
  | @cons x c k cs ks h _ _ ih =>
    cases h with
    | slow | here | panic => exact ih.cons _
    | send => exact ih.cons_cons _

/-- The keys of a command that spans no slots have the slot of the first. -/
theorem slotOf_of_not_crossSlot {keys : List Slice} (h : crossSlot cfg keys = false) {key : Slice}
    (hkey : key ∈ keys) : slotOf cfg key = (keys.head?.map (slotOf cfg)).getD 0 := by
  cases keys with
  | nil => cases hkey
  | cons key₀ keys =>
    rcases List.mem_cons.1 hkey with rfl | hkey
    · rfl
    · rw [crossSlot, List.any_eq_false] at h
      by_contra hne
      exact h key hkey (decide_eq_true hne)

/-- A command that writes the key is sent for its slot, and all keys it writes have it. -/
theorem ClassifiesAll.slot {x : Session} {b : List ClientCmd} (h : ClassifiesAll cfg x b ks)
    (hfinds : ∀ c ∈ b, ∀ db argv, rewriteArgv c.argv db = some argv → Finds B k argv)
    {it : SendItem} (hit : it ∈ sendItems ks) (hk : k ∈ B.writes it.frame.argv) :
    ∀ k' ∈ B.writes it.frame.argv, keyOf cfg k' = it.slot := by
  obtain ⟨pre, c, post, rfl, hc⟩ := h.of_mem (List.mem_of_getElem? (mem_sendItems.1 hit))
  generalize hcl : Classified.send it.slot it.addr it.frame it.read = cl at hc
  cases hc with
  | slow | here | panic => cases hcl
  | @send argv keys addr _ _ ha hkeys hcross =>
    injection hcl with hslot _ hf _
    rw [hf] at hk ⊢
    intro k' hk'
    have hmem := hfinds c (by simp) _ argv ha hk keys hkeys k' hk'
    obtain ⟨key, hkey, rfl⟩ := List.mem_map.1 hmem
    rw [hslot, ← slotOf_of_not_crossSlot hcross hkey]
    cases key <;> rfl

/-- Before any connection is asked for, nothing happens but that slots move. -/
theorem idle_run (hidle : IdleTrace (hs.filterMap Happening.event?))
    (hsteady : Machine.Meets (Fleet.next cfg B) (Steady cfg k ρ) { owner } hs)
    (hrun : Machine.exec (Fleet.next cfg B) { owner } hs = some s) :
    (∃ owner', s = { owner := owner' }) ∧
      ∀ e ∈ hs.filterMap Happening.event?, Agreed cfg (keyOf cfg k) ρ e := by
  induction hs generalizing owner with
  | nil =>
    cases hrun
    exact ⟨⟨owner, rfl⟩, nofun⟩
  | cons l hs ih =>
    obtain ⟨s₁, hl, hrest⟩ := Machine.exec_cons.1 hrun
    have hC : Steady cfg k ρ { owner } l := hsteady [] l hs _ rfl rfl
    have htail := hsteady.tail hl
    cases l with
    | serve c v => cases hl
    | torn c fs e n => exact (hidle ⟨.write c fs, some e⟩ List.mem_cons_self).elim
    | move slot addr =>
      cases hl
      exact ih hidle htail hrest
    | event e =>
      have hs₁ : s₁ = { owner } ∧ Agreed cfg (keyOf cfg k) ρ e := by
        have he := hidle e List.mem_cons_self
        obtain ⟨o, r⟩ := e
        cases o with
        | load => exact ⟨(Option.some.inj hl).symm, hC rfl⟩
        | drop c => exact ⟨(Option.some.inj hl).symm, trivial⟩
        | _ => exact he.elim
      obtain ⟨rfl, he⟩ := hs₁
      obtain ⟨hs', hagreed⟩ := ih (fun e he => hidle e (List.mem_cons_of_mem _ he)) htail hrest
      refine ⟨hs', fun e' he' => ?_⟩
      rcases List.mem_cons.1 he' with rfl | he'
      · exact he
      · exact hagreed e' he'

/-- What comes behind the groups leaves connections alone. -/
abbrev Away {α : Type} (p : Prog α) : Prop :=
  p.Ensures anyAnswer (fun e => Aside e.op) fun _ => True

theorem writeReplies_away (out : List (CmdId × Value)) : Away (writeReplies out) := by
  induction out with
  | nil =>
    intro r _
    refine ⟨trivial, ?_⟩
    cases r <;> trivial
  | cons y out ih =>
    intro r _
    refine ⟨trivial, ?_⟩
    cases r with
    | some e => trivial
    | none => exact ih

theorem replyPhase_away (x : Session) (b : List ClientCmd) (ks : List Classified)
    (replies : List (Nat × Value)) : Away (replyPhase x b ks replies) := by
  intro r _
  refine ⟨trivial, ?_⟩
  cases r with
  | some e => trivial
  | none => exact (writeReplies_away _).bind fun _ _ => trivial

theorem Tracks.away (h : Tracks cfg B k T g s st)
    (haway : ∀ e ∈ hs.filterMap Happening.event?, Aside e.op)
    (hsteady : Machine.Meets (Fleet.next cfg B) (Steady cfg k ρ) s hs)
    (hrun : Machine.exec (Fleet.next cfg B) s hs = some s') : Tracks cfg B k T g s' st := by
  induction hs generalizing s with
  | nil =>
    cases hrun
    exact h
  | cons l hs ih =>
    obtain ⟨s₁, hl, hrest⟩ := Machine.exec_cons.1 hrun
    cases he : l.event? with
    | none =>
      rw [List.filterMap_cons_none he] at haway
      exact ih (h.env he (hsteady [] l hs s rfl rfl) hl) haway (hsteady.tail hl) hrest
    | some e =>
      rw [List.filterMap_cons_some he] at haway
      have hs₁ : s₁ = s := by
        have ho := haway e List.mem_cons_self
        cases l with
        | event e' =>
          cases he
          rw [Fleet.next, ho.answer] at hl
          exact (Option.some.inj hl).symm
        | torn c fs err n =>
          cases he
          exact ho.elim
        | serve c v => cases he
        | move slot addr => cases he
      subst hs₁
      exact ih h (fun e he => haway e (List.mem_cons_of_mem _ he)) (hsteady.tail hl) hrest

/-- One group at most has the address. -/
theorem exists_group_index {gs : List (Addr × List SendItem)} (hgs : (gs.map Prod.fst).Nodup)
    (addr : Option Addr) : ∃ g, ∀ (i : Nat) gr, gs[i]? = some gr → some gr.1 = addr → i = g := by
  by_cases hex : ∃ (g : Nat) (gr : Addr × List SendItem), gs[g]? = some gr ∧ some gr.1 = addr
  · obtain ⟨g, gr, hg, haddr⟩ := hex
    refine ⟨g, fun i gr' hi haddr' => ?_⟩
    have heq : gr'.1 = gr.1 := Option.some.inj (haddr'.trans haddr.symm)
    refine (List.getElem?_inj ?_ hgs).1 ?_
    · rw [List.length_map]
      exact (List.getElem?_eq_some_iff.1 hi).1
    · rw [List.getElem?_map, List.getElem?_map, hi, hg, Option.map_some, Option.map_some, heq]
  · exact ⟨0, fun i gr hi haddr => absurd ⟨i, gr, hi, haddr⟩ hex⟩

/-- The groups of a batch before their first requests. -/
theorem groups_underway {x : Session} {b : List ClientCmd} (hk : ClassifiesAll cfg x b ks)
    (hfinds : ∀ c ∈ b, ∀ db argv, rewriteArgv c.argv db = some argv → Finds B k argv)
    (hrouted : ∀ c ∈ ks, Routed (keyOf cfg k) ρ c) (owner : Nat → Addr) :
    ∃ g, Underway cfg B k (touching B k ((sendItems ks).map SendItem.frame)) g { owner }
      ((nodeGroups (sendItems ks)).map fun gr => flushGroup cfg gr.1 gr.2) := by
  obtain ⟨g, hg⟩ := exists_group_index (Group.nodup_keys SendItem.addr (sendItems ks)) ρ.addr
  -- a command that writes the key goes where the slot is routed to
  have haddr : ∀ it ∈ sendItems ks, k ∈ B.writes it.frame.argv → some it.addr = ρ.addr := by
    intro it hit hw
    have hslot := hk.slot hfinds hit hw k hw
    exact hrouted _ (List.mem_of_getElem? (mem_sendItems.1 hit)) hslot.symm
  have hone : ∀ it ∈ sendItems ks, OneSlot cfg B k it.frame := by
    intro it hit hw k' hk'
    rw [hk.slot hfinds hit hw k' hk', hk.slot hfinds hit hw k hw]
  let gs := nodeGroups (sendItems ks)
  let todo (i : Nat) := touching B k (((gs[i]?.map Prod.snd).getD []).map SendItem.frame)
  have hgroup : ∀ (i : Nat) gr, gs[i]? = some gr →
      gr.2 = (sendItems ks).filter fun it => it.addr = gr.1 :=
    fun i gr hi => (Group.mem_groupBy.1 (List.mem_of_getElem? hi)).2
  refine ⟨g, fun i => .calm none (todo i), ⟨⟨trivial, fun _ _ => rfl, nofun, fun _ => ⟨_, rfl⟩, ?_⟩,
    nofun, nofun, ?_⟩, ?_⟩
  · show (todo g).Sublist _
    cases hgs : gs[g]? with
    | none =>
      simp only [todo, hgs]
      exact List.nil_sublist _
    | some gr =>
      simp only [todo, hgs, Option.map_some, Option.getD_some, hgroup g gr hgs]
      exact ((List.filter_sublist.map _).filter _).map _
  · intro i hi
    show todo i = []
    cases hgs : gs[i]? with
    | none =>
      simp only [todo, hgs]
      rfl
    | some gr =>
      simp only [todo, hgs, Option.map_some, Option.getD_some, touching, List.map_eq_nil_iff,
        List.filter_eq_nil_iff, hgroup i gr hgs]
      intro f hf hw
      obtain ⟨it, hit, rfl⟩ := List.mem_map.1 hf
      obtain ⟨hit, heq⟩ := List.mem_filter.1 hit
      refine hi (hg i gr hgs ?_)
      rw [← of_decide_eq_true heq]
      exact haddr it hit (of_decide_eq_true hw)
  · intro i p hp
    rw [List.getElem?_map, Option.map_eq_some_iff] at hp
    obtain ⟨gr, hgs, rfl⟩ := hp
    have hplan : Plan cfg B k (.calm none (touching B k (gr.2.map SendItem.frame)))
        (flushGroup cfg gr.1 gr.2) := by
      refine flushGroup_plan gr.1 fun it hit => hone it ?_
      rw [hgroup i gr hgs] at hit
      exact (List.mem_filter.1 hit).1
    simpa only [todo, gs, hgs, Option.map_some, Option.getD_some] using hplan

/-- The part of a history that makes a part of a trace. -/
theorem split_history {tr₁ tr₂ : Trace}
    (h : hs.filterMap Happening.event? = tr₁ ++ tr₂) : ∃ hs₁ hs₂, hs = hs₁ ++ hs₂ ∧
      hs₁.filterMap Happening.event? = tr₁ ∧ hs₂.filterMap Happening.event? = tr₂ :=
  List.filterMap_eq_append_iff.1 h

/-- What was executed of a fast batch is in order. -/
theorem execFastPipeline_ordered {x x' : Session} {b : List ClientCmd} {r : Session × Outcome}
    (hk : ClassifiesAll cfg x b ks)
    (hfinds : ∀ c ∈ b, ∀ db argv, rewriteArgv c.argv db = some argv → Finds B k argv)
    (hrouted : ∀ c ∈ ks, Routed (keyOf cfg k) ρ c)
    (hfast : (execFastPipeline cfg x' b ks).Runs (hs.filterMap Happening.event?) r)
    (hsteady : Machine.Meets (Fleet.next cfg B) (Steady cfg k ρ) { owner } hs)
    (hrun : Machine.exec (Fleet.next cfg B) { owner } hs = some s) :
    (touching B k s.log).Sublist (touching B k ((sendItems ks).map SendItem.frame)) := by
  obtain ⟨tr₁, tr₂, rs, htr, hpar, hend⟩ := execFastPipeline_runs hfast
  obtain ⟨hs₁, hs₂, rfl, rfl, rfl⟩ := split_history htr
  obtain ⟨s₁, hrun₁, hrun₂⟩ := Machine.exec_append.1 hrun
  obtain ⟨g, hunder⟩ := groups_underway hk hfinds hrouted owner
  obtain ⟨trs, hshuffle, hlen, hlenr, hruns⟩ :=
    Interact.Prog.sat_parList (R := fun gr l r => (flushGroup cfg gr.1 gr.2).Runs l r)
      (fun _ _ _ _ h => h) _ rs hpar
  obtain ⟨st, htracks⟩ := hunder.run hsteady.init hrun₁ hshuffle (by rw [hlen, List.length_map])
    (by
      intro i p tr hp htr
      rw [List.getElem?_map, Option.map_eq_some_iff] at hp
      obtain ⟨gr, hgs, rfl⟩ := hp
      have hi : i < rs.length := hlenr ▸ (List.getElem?_eq_some_iff.1 hgs).1
      exact ⟨_, hruns i gr tr rs[i] hgs htr (List.getElem?_eq_getElem hi)⟩)
  have haway : ∀ e ∈ hs₂.filterMap Happening.event?, Aside e.op := by
    rcases hend with ⟨-, e, y, tr₃, htr₃, hreply⟩ | ⟨-, hphase⟩
    · rw [htr₃]
      obtain ⟨-, rfl⟩ | ⟨e, -, rfl | rfl | rfl⟩ := reply_cases hreply <;> simp [Aside]
    · exact ((replyPhase_away _ _ _ _).runs hphase fun _ _ => trivial).1
  have horder := (htracks.away haway (hsteady.rest hrun₁) hrun₂).core.order
  exact (List.sublist_append_left _ _).trans horder

/-- Two elements of a list without duplicates come in one order. -/
theorem not_sublist_swap {l : List α} (hl : l.Nodup) {a b : α} (hab : [a, b].Sublist l) :
    ¬ [b, a].Sublist l := by
  intro hba
  induction hl with
  | nil => cases hab
  | @cons x l hx _ ih =>
    cases hab with
    | cons _ hab =>
      cases hba with
      | cons _ hba => exact ih hab hba
      | cons_cons _ hba => exact hx b (hab.subset (by simp)) rfl
    | cons_cons _ hb =>
      cases hba with
      | cons _ hba => exact hx a (hba.subset (by simp)) rfl
      | cons_cons _ ha => exact hx a (ha.subset (by simp)) rfl

/-- Commands are executed in order if their numbers are. -/
theorem inOrder_of_sublist {b : List ClientCmd} {log : List Frame}
    (hids : (b.map ClientCmd.id).Nodup)
    (h : ((touching B k log).map Origin.id).Sublist (b.map fun c => some c.id)) :
    InOrder B k b log := by
  intro c₁ c₂ hc f₁ f₂ h₁ h₂ hk₁ hk₂ hlog
  have hback : [some c₂.id, some c₁.id].Sublist (b.map fun c => some c.id) := by
    have htouch := ((hlog.filter (Touches B k)).map Frame.src).map Origin.id
    simp only [List.filter_cons, Touches, hk₁, hk₂, decide_true, if_true, List.filter_nil,
      List.map_cons, List.map_nil, h₁, h₂] at htouch
    exact htouch.trans h
  have hnodup : (b.map fun c => some c.id).Nodup :=
    List.pairwise_map.2 ((List.pairwise_map.1 hids).imp fun hne heq => hne (Option.some.inj heq))
  exact not_sublist_swap hnodup (hc.map fun c : ClientCmd => some c.id) hback

/-! ## The theorem, and two writes -/

/-- What the nodes do when a command arrives: they take it at once, and when they have
redirected it, the slot moves to `addr`. -/
def taking (answer : Frame → Value) (slot : Nat) (addr : Addr) : Event → List Happening
  | ⟨.write c fs, none⟩ => fs.flatMap fun f => .serve c (answer f) ::
      if (redirectOf (answer f)).isSome then [.move slot addr] else []
  | _ => []

/-- The history of such nodes. -/
def promptly (answer : Frame → Value) (slot : Nat) (addr : Addr) (tr : Trace) : List Happening :=
  tr.flatMap fun e => .event e :: taking answer slot addr e

theorem events_promptly (answer : Frame → Value) (slot : Nat) (addr : Addr) (tr : Trace) :
    (promptly answer slot addr tr).filterMap Happening.event? = tr := by
  have htaking : ∀ e, (taking answer slot addr e).filterMap Happening.event? = [] := by
    intro e
    unfold taking
    split
    · rw [List.filterMap_flatMap, List.flatMap_eq_nil_iff]
      intro f _
      split <;> rfl
    · rfl
  induction tr with
  | nil => rfl
  | cons e tr ih =>
    show e :: (taking answer slot addr e ++ promptly answer slot addr tr).filterMap _ = e :: tr
    rw [List.filterMap_append, htaking, ih]
    rfl

theorem promptly_runs (answer : Frame → Value) (slot : Nat) (addr : Addr) (p : Prog α) :
    p.Runs ((promptly answer slot addr (scripted (fun _ => calm answer) p).2).filterMap
      Happening.event?) (scripted (fun _ => calm answer) p).1 := by
  rw [events_promptly]
  exact scripted_runs _ p

instance {ρ : Route} (s : Fleet) (l : Happening) : Decidable (Steady cfg k ρ s l) := by
  unfold Steady
  split <;> infer_instance

/-- Backends that know `SET`; all connections lead to the seed. -/
def setBackends : Backends where
  writes argv := match argv with
    | [_, key, _] => if nameOf argv = "SET" then [key.bytes] else []
    | _ => []
  asking := rfl
  node _ := "10.0.0.1:6379"

theorem setBackends_finds (k : Bytes) (argv : Argv) : Finds setBackends k argv := by
  rintro - keys hkeys k' hk'
  dsimp only [setBackends] at hk'
  split at hk'
  · next n key v =>
    split at hk'
    · next hname =>
      obtain ⟨m, hm, hspec⟩ : ∃ m, lookup "SET" = some m ∧ m.keys = ⟨1, 1, 1⟩ :=
        Option.map_eq_some_iff.1 (by decide +kernel)
      have hset : extractKeys [n, key, v] = some [key] := by
        simp [extractKeys, keyIndexes, hname, hm, hspec, indexesBySpec]
      rw [hset] at hkeys
      cases hkeys
      simpa using hk'
    · cases hk'
  · cases hk'

/-- Two commands that write one key. -/
def twoWrites : List ClientCmd := [command 0 ["SET", "a", "1"], command 1 ["SET", "a", "2"]]

/-- The history of the two commands with nodes that answer so. -/
def writing (answer : Frame → Value) : List Happening :=
  promptly answer (keyOf seeded (lit "a")) "10.0.0.1:6379"
    (scripted (fun _ => calm answer) (handleBatch seeded (newSession seeded) twoWrites)).2

/-- **Commands of a fast batch that write one key are executed in the order they were sent,
if the topologies that it is classified with agree on the node of its slot, connections
come without anything outstanding, and the slot stays where it is from then on.** -/
theorem inOrder_of_steady {ρ : Route} {x : Session} {b : List ClientCmd} {owner : Nat → Addr}
    {hs : List Happening} {r : Session × Outcome} (hids : (b.map ClientCmd.id).Nodup)
    (hfinds : ∀ c ∈ b, ∀ db argv, rewriteArgv c.argv db = some argv → Finds B k argv)
    (hb : b.length ≠ 1) (hfast : batchSlow cfg x b = false)
    (hbatch : (handleBatch cfg x b).Runs (hs.filterMap Happening.event?) r)
    (hsteady : Machine.Meets (Fleet.next cfg B) (Steady cfg k ρ) { owner } hs)
    (hrun : Machine.exec (Fleet.next cfg B) { owner } hs = some s) : InOrder B k b s.log := by
  unfold handleBatch at hbatch
  split at hbatch
  · simp at hb
  obtain ⟨tr₁, ⟨x', kso⟩, tr₂, h₁, h₂, htr⟩ := Interact.Prog.runs_bind.1 hbatch
  obtain ⟨hs₁, hs₂, rfl, rfl, rfl⟩ := split_history htr
  obtain ⟨s₁, hrun₁, hrun₂⟩ := Machine.exec_append.1 hrun
  obtain ⟨hidle, hpost⟩ := (classifyAll_idle (A := anyAnswer) x b).runs h₁ fun _ _ => trivial
  obtain ⟨⟨owner', rfl⟩, hagreed⟩ := idle_run hidle hsteady.init hrun₁
  have hsteady₂ := hsteady.rest hrun₁
  refine inOrder_of_sublist hids ?_
  cases kso with
  | none =>
    -- the classification panics
    obtain ⟨htr₂, -⟩ := h₂
    obtain ⟨⟨owner₂, rfl⟩, -⟩ := idle_run (by rw [htr₂]; exact nofun) hsteady₂ hrun₂
    exact List.nil_sublist _
  | some ks =>
    obtain ⟨rfl, hk⟩ := hpost ks rfl
    have hrouted := ((classifyAll_routed x b).runs h₁ hagreed).2 ks rfl
    dsimp only at h₂
    rw [hk.slow_eq, hfast, if_neg Bool.false_ne_true] at h₂
    have hordered := execFastPipeline_ordered hk hfinds hrouted h₂ hsteady₂ hrun₂
    refine (hordered.map Origin.id).trans ?_
    rw [frames_sendItems, touching, List.map_map]
    exact (List.filter_sublist.map _).trans hk.ids

theorem inOrder_of_steady_seed : ∃ hs r s,
    (handleBatch seeded (newSession seeded) twoWrites).Runs (hs.filterMap Happening.event?) r ∧
      Machine.exec (Fleet.next seeded setBackends) { owner := fun _ => "10.0.0.1:6379" } hs =
        some s ∧ s.log.length = 2 ∧ InOrder setBackends (lit "a") twoWrites s.log := by
  have hruns := promptly_runs (fun _ => plusOK) (keyOf seeded (lit "a")) "10.0.0.1:6379"
    (handleBatch seeded (newSession seeded) twoWrites)
  have hsteady : Machine.checked (Fleet.next seeded setBackends)
      (Steady seeded (lit "a") (.master (some "10.0.0.1:6379")))
      { owner := fun _ => "10.0.0.1:6379" } (writing fun _ => plusOK) = true := by
    decide +kernel
  have hlog : (Machine.exec (Fleet.next seeded setBackends)
      { owner := fun _ => "10.0.0.1:6379" } (writing fun _ => plusOK)).map (·.log.length) =
        some 2 := by
    decide +kernel
  obtain ⟨s, hs, hlen⟩ := Option.map_eq_some_iff.1 hlog
  exact ⟨_, _, s, hruns, hs, hlen, inOrder_of_steady (by decide +kernel)
    (fun _ _ _ argv _ => setBackends_finds _ argv) (by decide) (by decide +kernel) hruns
    (Machine.meets_of_checked hsteady) hs⟩

/-- The seed does not own the slot when the first command arrives. -/
def movedOnce (f : Frame) : Value :=
  if f.raw = encodeCommand (["SET", "a", "1"].map arg) then error "MOVED 15495 10.0.0.2:6379"
  else plusOK

/-- The slot moves between two commands of a group: the second one is executed at
once, the first one when it is written again. -/
theorem redirected_overtaken : batchSlow seeded (newSession seeded) twoWrites = false ∧
    ¬ ∀ hs r s,
      (handleBatch seeded (newSession seeded) twoWrites).Runs (hs.filterMap Happening.event?) r →
      Machine.exec (Fleet.next seeded setBackends) { owner := fun _ => "10.0.0.2:6379" } hs =
        some s → InOrder setBackends (lit "a") twoWrites s.log := by
  refine ⟨by decide +kernel, fun h => ?_⟩
  have hlog : (Machine.exec (Fleet.next seeded setBackends)
      { owner := fun _ => "10.0.0.2:6379" } (writing movedOnce)).map Fleet.log =
        some [{ argv := ["SET", "a", "2"].map arg, raw := encodeCommand (["SET", "a", "2"].map arg),
                src := .client ⟨0, 1⟩ (["SET", "a", "2"].map arg) 0 false },
              { argv := ["SET", "a", "1"].map arg, raw := [],
                src := .client ⟨0, 0⟩ (["SET", "a", "1"].map arg) 0 false }] := by
    decide +kernel
  obtain ⟨s, hs, hlog⟩ := Option.map_eq_some_iff.1 hlog
  have horder := h _ _ s (promptly_runs movedOnce _ _ _) hs
  rw [hlog] at horder
  exact horder _ _ (List.Sublist.refl _) _ _ rfl rfl (by decide +kernel) (by decide +kernel)
    (List.Sublist.refl _)

end RespProxy.Proxy
