import Mathlib.Logic.Function.Basic
import RespProxy.Lib.World
import RespProxy.Proxy.Fleet

/-! # A cluster at rest

No request fails, no slot moves and no node redirects. What a node answers to a command is
a function of the commands it has served, and the replies of a connection arrive in the
order of its commands. A connection that is handed out has none on their way.

A conversation with one node is `Private` if whatever runs at the same time leaves the node
alone. `hop_site` is a command on its own, and `flushGroup_site` a pipeline of them: both
get the answers of the node to its commands in a row (`Site.answers`).
-/

namespace RespProxy.Backend

open Cluster Command Resp Proxy Interact

/-- A reply that is no redirect. -/
abbrev Plain := { v : Value // redirectOf v = none }

/-- The layout, the node that each connection leads to, and the reply of a node to a command
behind those it has served. -/
structure Site where
  topology : Option Topology
  node : ConnId → Addr
  answer : Addr → List Bytes → Bytes → Plain

/-- The replies on their way, the commands that the nodes have served, and the replies that
the client was sent. -/
structure Exchange where
  wire : ConnId → List Plain := fun _ => []
  served : Addr → List Bytes := fun _ => []
  told : List Bytes := []

/-- The replies of a node to commands in a row. -/
def Site.answers (site : Site) (a : Addr) : (served cmds : List Bytes) → List Plain
  | _, [] => []
  | served, cmd :: cmds => site.answer a served cmd :: site.answers a (served ++ [cmd]) cmds

theorem Site.length_answers (site : Site) (a : Addr) (served cmds : List Bytes) :
    (site.answers a served cmds).length = cmds.length := by
  induction cmds generalizing served with
  | nil => rfl
  | cons cmd cmds ih => exact congrArg (· + 1) (ih _)

/-- Nothing fails, and the layout stays as it is. -/
def Site.Allows (site : Site) (e : Event) : Prop :=
  match e with
  | ⟨.load, t⟩ => t = site.topology
  | ⟨.get a _, r⟩ => ∃ c, r = .ok c ∧ site.node c = a
  | ⟨.read _ _, r⟩ => ∃ v : Plain, r = .ok v.1
  | ⟨.write _ _, r⟩ | ⟨.ctxErr, r⟩ | ⟨.deadline, r⟩ | ⟨.cwrite _ _, r⟩ | ⟨.cflush, r⟩ => r = none
  | _ => True

/-- The effect of a request. -/
def Site.effect (site : Site) (w : Exchange) (e : Event) : Exchange :=
  match e with
  | ⟨.get _ _, .ok c⟩ => { w with wire := Function.update w.wire c [] }
  | ⟨.write c fs, _⟩ =>
    let a := site.node c
    let cmds := fs.map Frame.bytes
    { w with
      served := Function.update w.served a (w.served a ++ cmds)
      wire := Function.update w.wire c (w.wire c ++ site.answers a (w.served a) cmds) }
  | ⟨.read c _, _⟩ => { w with wire := Function.update w.wire c (w.wire c).tail }
  | ⟨.cwrite _ v, _⟩ => { w with told := w.told ++ [encode v] }
  | _ => w

/-- A read gets the first reply on its way. -/
def Exchange.Reads (w : Exchange) (e : Event) : Prop :=
  match e with
  | ⟨.read c _, r⟩ => ∀ v ∈ (w.wire c).head?, r = .ok v.1
  | _ => True

/-- A request is answered and takes effect. -/
def Site.Acts (site : Site) (w : Exchange) (e : Event) (w' : Exchange) : Prop :=
  site.Allows e ∧ w.Reads e ∧ w' = site.effect w e

variable {site : Site} {cfg : Config} {rely : Exchange → Exchange → Prop} {P : Exchange → Prop}
variable {α : Type} {Q : α → Exchange → Prop} {addr a : Addr} {its : List SendItem}
  {w w' : Exchange} {read : Bool} {slot : Nat} {e : Event}

theorem acts_allows : ∀ w e w', site.Acts w e w' → site.Allows e := fun _ _ _ h => h.1

theorem acts_idle (he : IdleEvent e) (h : site.Acts w e w') :
    w' = w := by
  obtain ⟨o, r⟩ := e
  cases o with
  | load | drop => exact h.2.2
  | _ => exact he.elim

/-- A program that asks for no more than the layout. -/
theorem triple_lookup {p : Prog α} {R : α → Prop} (hp : Idle site.Allows R p)
    (hstable : Stable rely P) : Triple rely site.Acts P p fun a w => P w ∧ R a := by
  refine triple_idle hp acts_allows hstable fun e w w' he hw hacts => ?_
  rw [acts_idle he hacts]
  exact hw

/-- A request without an effect that has only one answer. -/
theorem triple_quiet {o : Op} {r₀ : Res o} {k : Res o → Prog α}
    (hr : ∀ r, site.Allows ⟨o, r⟩ → r = r₀)
    (heffect : ∀ r w, site.effect w ⟨o, r⟩ = w) (hstable : Stable rely P)
    (hk : Triple rely site.Acts P (k r₀) Q) : Triple rely site.Acts P (.call o k) Q := by
  refine triple_answer hstable (fun r w w' hw hacts => ⟨hr r hacts.1, ?_⟩) hk
  rw [hacts.2.2, heffect]
  exact hw

/-! ## The layout -/

/-- The node for a slot. -/
def Site.route (site : Site) (cfg : Config) (slot : Nat) (read : Bool) : Option Addr :=
  match site.topology.bind fun t => t.nodeForSlot slot (read && cfg.readFromReplicas) with
  | some n => some n.addr
  | none => fallback cfg site.topology

theorem owner_site (site : Site) (cfg : Config) (slot : Nat) (read : Bool) :
    Idle site.Allows (· = site.route cfg slot read) (owner cfg slot read) := by
  rintro t rfl
  refine ⟨trivial, ?_⟩
  simp only [Site.route, Prog.pure_eq, Prog.ret_bind]
  cases site.topology.bind fun t => t.nodeForSlot slot (read && cfg.readFromReplicas) with
  | some n => exact rfl
  | none =>
    -- the master comes from a second look
    rintro t rfl
    exact ⟨trivial, rfl⟩

/-- With a seed there is a node for every slot. -/
theorem Site.exists_route (site : Site) (hcfg : cfg.Valid) (slot : Nat) (read : Bool) :
    ∃ addr, site.route cfg slot read = some addr := by
  unfold Site.route
  cases site.topology.bind fun t => t.nodeForSlot slot (read && cfg.readFromReplicas) with
  | some n => exact ⟨n.addr, rfl⟩
  | none =>
    obtain ⟨seed, seeds, hseeds⟩ := List.exists_cons_of_ne_nil hcfg.seeds
    unfold fallback
    rw [hseeds]
    cases site.topology.bind Topology.firstMaster with
    | some n => exact ⟨n.addr, rfl⟩
    | none => exact ⟨seed, rfl⟩

/-! ## A conversation with one node -/

/-- The request concerns a connection to the node. -/
def Site.AtNode (site : Site) (a : Addr) (e : Event) : Prop :=
  match e with
  | ⟨.get _ _, .ok c⟩ => site.node c = a
  | ⟨.write c _, _⟩ | ⟨.read c _, _⟩ => site.node c = a
  | ⟨.put _, _⟩ | ⟨.drop _, _⟩ => True
  | _ => False

/-- A request at one node leaves the others alone, and the client. -/
theorem acts_elsewhere (he : site.AtNode a e)
    (h : site.Acts w e w') : w'.told = w.told ∧ (∀ a', a' ≠ a → w'.served a' = w.served a') ∧
      ∀ c, site.node c ≠ a → w'.wire c = w.wire c := by
  obtain ⟨-, -, rfl⟩ := h
  obtain ⟨o, r⟩ := e
  cases o with
  | get b replica =>
    cases r with
    | error e => exact he.elim
    | ok c =>
      refine ⟨rfl, fun _ _ => rfl, fun c' hc' => ?_⟩
      exact Function.update_of_ne (fun h => hc' ((congrArg site.node h).trans he)) _ _
  | write c fs =>
    obtain rfl : site.node c = a := he
    refine ⟨rfl, fun a' ha' => Function.update_of_ne ha' _ _, fun c' hc' => ?_⟩
    exact Function.update_of_ne (fun h => hc' (congrArg site.node h)) _ _
  | read c f =>
    obtain rfl : site.node c = a := he
    refine ⟨rfl, fun _ _ => rfl, fun c' hc' => ?_⟩
    exact Function.update_of_ne (fun h => hc' (congrArg site.node h)) _ _
  | put c | drop c => exact ⟨rfl, fun _ _ => rfl, fun _ _ => rfl⟩
  | _ => exact he.elim

/-- Others leave the node alone, and neither they nor the conversation change `F`. -/
structure Site.Private (site : Site) (a : Addr) (rely : Exchange → Exchange → Prop)
    (F : Exchange → Prop) : Prop where
  served : ∀ w w', rely w w' → w'.served a = w.served a
  wire : ∀ w w' c, rely w w' → site.node c = a → w'.wire c = w.wire c
  stable : Stable rely F
  kept : ∀ e w w', site.AtNode a e → site.Acts w e w' → F w → F w'

/-- The node of the connection has served these commands, these replies are on their way. -/
structure Site.Holds (site : Site) (F : Exchange → Prop) (c : ConnId) (served : List Bytes)
    (vs : List Plain) (w : Exchange) : Prop where
  served : w.served (site.node c) = served
  wire : w.wire c = vs
  frame : F w

section

variable {F : Exchange → Prop} {c : ConnId} {served : List Bytes} {vs : List Plain}

theorem Site.Private.holds (hp : site.Private (site.node c) rely F) :
    Stable rely (site.Holds F c served vs) := by
  intro w w' hrely hw
  refine ⟨?_, ?_, hp.stable w w' hrely hw.frame⟩
  · rw [hp.served w w' hrely, hw.served]
  · rw [hp.wire w w' c hrely rfl, hw.wire]

theorem Site.Private.serves (hp : site.Private a rely F) :
    Stable rely fun w => w.served a = served ∧ F w := by
  intro w w' hrely hw
  exact ⟨(hp.served w w' hrely).trans hw.1, hp.stable w w' hrely hw.2⟩

theorem getConn_site (hp : site.Private (rewriteAddr cfg addr) rely F) (replica : Bool) :
    Triple rely site.Acts (fun w => w.served (rewriteAddr cfg addr) = served ∧ F w)
      (getConn cfg addr replica) fun r w => ∃ c, r = .ok c ∧
        site.node c = rewriteAddr cfg addr ∧ site.Holds F c served [] w := by
  refine triple_call (R := fun r w => ∃ c, r = .ok c ∧ site.node c = rewriteAddr cfg addr ∧
    site.Holds F c served [] w) hp.serves ?_ fun r => triple_ret fun _ h => h
  rintro r w w' ⟨hserved, hF⟩ hacts
  obtain ⟨c, rfl, hc⟩ := hacts.1
  refine ⟨c, rfl, hc, ?_, ?_, hp.kept ⟨.get _ replica, .ok c⟩ w w' hc hacts hF⟩
  · rw [hacts.2.2, hc]
    exact hserved
  · rw [hacts.2.2]
    exact Function.update_self c [] w.wire

theorem write_site (hp : site.Private (site.node c) rely F) (fs : List Frame) :
    Triple rely site.Acts (site.Holds F c served []) (ask (.write c fs)) fun r w => r = none ∧
      site.Holds F c (served ++ fs.map Frame.bytes)
        (site.answers (site.node c) served (fs.map Frame.bytes)) w := by
  refine triple_answer hp.holds (fun r w w' hw hacts => ⟨hacts.1, ?_⟩)
    (triple_ret fun _ h => ⟨rfl, h⟩)
  refine ⟨?_, ?_, hp.kept ⟨.write c fs, r⟩ w w' rfl hacts hw.frame⟩
  · rw [hacts.2.2, ← hw.served]
    exact Function.update_self _ _ w.served
  · rw [hacts.2.2, ← hw.served]
    refine (Function.update_self c _ w.wire).trans ?_
    rw [hw.wire]
    rfl

theorem read_site (hp : site.Private (site.node c) rely F) (f : Frame) (v : Plain) :
    Triple rely site.Acts (site.Holds F c served (v :: vs)) (ask (.read c f)) fun r w =>
      r = .ok v.1 ∧ site.Holds F c served vs w := by
  refine triple_answer hp.holds (fun r w w' hw hacts => ?_) (triple_ret fun _ h => ⟨rfl, h⟩)
  have hread : ∀ x ∈ (w.wire c).head?, r = .ok x.1 := hacts.2.1
  rw [hw.wire] at hread
  refine ⟨hread v rfl, ?_, ?_, hp.kept ⟨.read c f, r⟩ w w' rfl hacts hw.frame⟩
  · rw [hacts.2.2]
    exact hw.served
  · rw [hacts.2.2]
    refine (Function.update_self c _ w.wire).trans ?_
    rw [hw.wire]
    rfl

/-- The connection goes back, and the conversation is over. -/
theorem put_site {a : α} (hp : site.Private (site.node c) rely F)
    (hQ : ∀ w, site.Holds F c served [] w → Q a w) :
    Triple rely site.Acts (site.Holds F c served []) (do ask (.put c); return a) Q :=
  triple_skip hp.holds (fun _ _ _ h => h.2.2) fun _ => triple_ret hQ

/-- A command and its reply. -/
theorem doFrame_site (hp : site.Private (site.node c) rely F) (f : Frame) :
    Triple rely site.Acts (site.Holds F c served []) (doFrame c f) fun r w =>
      r = .ok (site.answer (site.node c) served f.bytes).1 ∧
        site.Holds F c (served ++ [f.bytes]) [] w := by
  refine (write_site hp [f]).bind fun r => triple_pure (fun _ h => h) ?_
  rintro rfl
  exact read_site hp f _

/-- One hop without a redirect ahead of it. -/
theorem hop_site (hp : site.Private (rewriteAddr cfg addr) rely F) (replica : Bool) (f : Frame) :
    Triple rely site.Acts (fun w => w.served (rewriteAddr cfg addr) = served ∧ F w)
      (hop cfg addr replica false f) fun r w =>
        r = .ok (site.answer (rewriteAddr cfg addr) served f.bytes).1 ∧
          w.served (rewriteAddr cfg addr) = served ++ [f.bytes] ∧ F w := by
  refine (getConn_site hp replica).bind fun r => ?_
  refine triple_exists fun c => triple_pure (fun _ h => and_assoc.2 h) ?_
  rintro ⟨rfl, hc⟩
  rw [← hc] at hp ⊢
  refine (doFrame_site hp f).bind fun r => triple_pure (fun _ h => h) ?_
  rintro rfl
  exact put_site hp fun w hw => ⟨rfl, hw.served, hw.frame⟩

/-- A command on its own. -/
theorem exec_site (hcfg : cfg.Valid) (hroute : site.route cfg slot read = some addr)
    (hp : site.Private (rewriteAddr cfg addr) rely F) (f : Frame) (served : List Bytes) :
    Triple rely site.Acts (fun w => w.served (rewriteAddr cfg addr) = served ∧ F w)
      (exec cfg slot f read) fun r w =>
        r = .ok (site.answer (rewriteAddr cfg addr) served f.bytes).1 ∧
          w.served (rewriteAddr cfg addr) = served ++ [f.bytes] ∧ F w := by
  obtain ⟨hops, hhops⟩ : ∃ n, cfg.movedHopLimit = n + 1 := ⟨_, (Nat.sub_add_cancel hcfg.hops).symm⟩
  -- the first hop is the last, since no reply is a redirect
  rw [exec, hhops]
  refine triple_quiet (fun _ h => h) (fun _ _ => rfl) hp.serves ?_
  have hlookup : Idle site.Allows (· = some addr) (hopAddr cfg slot "" (read && !false)) := by
    rw [hopAddr, if_neg (by simp), Bool.not_false, Bool.and_true, ← hroute]
    exact owner_site site cfg slot read
  refine (triple_lookup hlookup hp.serves).bind fun r => triple_pure (fun _ h => And.comm.1 h) ?_
  rintro rfl
  refine (hop_site hp _ f).bind fun r => triple_pure (fun _ h => h) ?_
  rintro rfl
  dsimp only
  rw [(site.answer _ _ _).2]
  exact triple_ret fun _ h => ⟨rfl, h⟩

/-! ## Pipelines -/

theorem readReplies_site (hp : site.Private (site.node c) rely F) (hlen : vs.length = its.length) :
    Triple rely site.Acts (site.Holds F c served vs) (readReplies c its) fun r w =>
      r = .ok (vs.map Subtype.val) ∧ site.Holds F c served [] w := by
  induction its generalizing vs with
  | nil =>
    obtain rfl := List.length_eq_zero_iff.1 hlen
    exact triple_ret fun _ h => ⟨rfl, h⟩
  | cons it its ih =>
    obtain ⟨v, vs, rfl⟩ := List.exists_cons_of_length_eq_add_one hlen
    refine (read_site hp it.frame v).bind fun r => triple_pure (fun _ h => h) ?_
    rintro rfl
    refine (ih (Nat.succ.inj hlen)).bind fun r => triple_pure (fun _ h => h) ?_
    rintro rfl
    exact triple_ret fun _ h => ⟨rfl, h⟩

/-- Replies that are no redirects are left as they are. -/
theorem followRedirects_plain {vs : List Plain} (hlen : vs.length = its.length) :
    followRedirects cfg (its.zip (vs.map Subtype.val)) = pure (.ok (vs.map Subtype.val)) := by
  induction its generalizing vs with
  | nil =>
    obtain rfl := List.length_eq_zero_iff.1 hlen
    rfl
  | cons it its ih =>
    obtain ⟨v, vs, rfl⟩ := List.exists_cons_of_length_eq_add_one hlen
    have hone : followOne cfg it v.1 = pure (.ok v.1) := by rw [followOne, v.2]
    simp only [List.map_cons, List.zip_cons_cons, followRedirects, hone, ih (Nat.succ.inj hlen)]
    rfl

/-- The commands of a group get the answers of their node. -/
theorem flushGroup_site (hp : site.Private (rewriteAddr cfg addr) rely F) (its : List SendItem) :
    Triple rely site.Acts (fun w => w.served (rewriteAddr cfg addr) = served ∧ F w)
      (flushGroup cfg addr its) fun r w =>
        r = .ok ((site.answers (rewriteAddr cfg addr) served
          (its.map fun it => it.frame.bytes)).map Subtype.val) ∧
          w.served (rewriteAddr cfg addr) = served ++ (its.map fun it => it.frame.bytes) ∧ F w := by
  refine (getConn_site hp false).bind fun r => ?_
  refine triple_exists fun c => triple_pure (fun _ h => and_assoc.2 h) ?_
  rintro ⟨rfl, hc⟩
  rw [← hc] at hp ⊢
  have hcmds : (its.map SendItem.frame).map Frame.bytes = its.map fun it => it.frame.bytes := by
    rw [List.map_map]
    rfl
  rw [← hcmds]
  refine (write_site hp _).bind fun r => triple_pure (fun _ h => h) ?_
  rintro rfl
  have hlen : (site.answers (site.node c) served ((its.map SendItem.frame).map Frame.bytes)).length =
      its.length := by
    rw [site.length_answers, List.length_map, List.length_map]
  refine (readReplies_site hp hlen).bind fun r => triple_pure (fun _ h => h) ?_
  rintro rfl
  dsimp only
  rw [followRedirects_plain hlen]
  exact put_site hp fun w hw => ⟨rfl, hw.served, hw.frame⟩

end

/-! ## All groups at once -/

theorem readReplies_atNode (c : ConnId) (its : List SendItem) :
    (readReplies c its).Ensures site.Allows (site.AtNode (site.node c)) fun r =>
      ∃ vs : List Plain, vs.length = its.length ∧ r = .ok (vs.map Subtype.val) := by
  induction its with
  | nil => exact ⟨[], rfl, rfl⟩
  | cons it its ih =>
    rintro r ⟨v, rfl⟩
    refine ⟨rfl, ih.bind ?_⟩
    rintro _ ⟨vs, hlen, rfl⟩
    exact ⟨v :: vs, congrArg (· + 1) hlen, rfl⟩

/-- A group talks to its node only. -/
theorem flushGroup_atNode (site : Site) (cfg : Config) (addr : Addr) (its : List SendItem) :
    (flushGroup cfg addr its).Ensures site.Allows (site.AtNode (rewriteAddr cfg addr))
      fun _ => True := by
  -- the connection, the write, the reads; without redirects nothing else follows
  rintro _ ⟨c, rfl, hc⟩
  rw [← hc]
  refine ⟨rfl, ?_⟩
  rintro _ rfl
  refine ⟨rfl, (readReplies_atNode c its).bind ?_⟩
  rintro _ ⟨vs, hlen, rfl⟩
  refine fun _ _ => ⟨trivial, ?_⟩
  rw [followRedirects_plain hlen]
  trivial

/-- Conversations with other nodes leave this one alone. -/
theorem private_steps {G : Event → Prop} (hG : ∀ e, G e → ∃ a', a' ≠ a ∧ site.AtNode a' e) :
    site.Private a (Steps site.Acts G) fun _ => True where
  served w w' hsteps := by
    refine stable_steps (P := fun w' => w'.served a = w.served a) ?_ w w' hsteps rfl
    intro e w₁ w₂ he hw hacts
    obtain ⟨a', hne, hat⟩ := hG e he
    exact ((acts_elsewhere hat hacts).2.1 a hne.symm).trans hw
  wire w w' c hsteps hc := by
    refine stable_steps (P := fun w' => w'.wire c = w.wire c) ?_ w w' hsteps rfl
    intro e w₁ w₂ he hw hacts
    obtain ⟨a', hne, hat⟩ := hG e he
    exact ((acts_elsewhere hat hacts).2.2 c fun h => hne (h.symm.trans hc)).trans hw
  stable _ _ _ h := h
  kept _ _ _ _ _ h := h

/-- The replies to a group. -/
def Site.groupReplies (site : Site) (cfg : Config) (served : Addr → List Bytes)
    (g : Addr × List SendItem) : List Value :=
  (site.answers (rewriteAddr cfg g.1) (served (rewriteAddr cfg g.1))
    (g.2.map fun it => it.frame.bytes)).map Subtype.val

section

variable {gs : List (Addr × List SendItem)} {served : Addr → List Bytes} {told : List Bytes}

/-- A group has its replies, and its node has served its commands. -/
def Site.Flushed (site : Site) (cfg : Config) (served : Addr → List Bytes)
    (g : Addr × List SendItem) (r : Except Err (List Value)) (w : Exchange) : Prop :=
  r = .ok (site.groupReplies cfg served g) ∧
    w.served (rewriteAddr cfg g.1) =
      served (rewriteAddr cfg g.1) ++ g.2.map fun it => it.frame.bytes

/-- The nodes of the groups are apart. -/
def Apart (cfg : Config) (gs : List (Addr × List SendItem)) : Prop :=
  ∀ g ∈ gs, ∀ g' ∈ gs, g' ≠ g → rewriteAddr cfg g'.1 ≠ rewriteAddr cfg g.1

theorem private_group (hapart : Apart cfg gs) {g : Addr × List SendItem} (hg : g ∈ gs) :
    site.Private (rewriteAddr cfg g.1) (Steps site.Acts fun e => ∃ g' ∈ gs, g' ≠ g ∧
      site.AtNode (rewriteAddr cfg g'.1) e) fun _ => True := by
  refine private_steps ?_
  rintro e ⟨g', hg', hne, he⟩
  exact ⟨_, hapart g hg g' hg' hne, he⟩

/-- **Groups for different nodes do not disturb each other.** -/
theorem flushGroups_site (site : Site) (hnodup : gs.Nodup) (hapart : Apart cfg gs)
    (served : Addr → List Bytes) :
    Triple Eq site.Acts (fun w => w.served = served)
      (Prog.parList (gs.map fun g => flushGroup cfg g.1 g.2)) fun rs w =>
        List.Forall₂ (fun g r => site.Flushed cfg served g r w) gs rs := by
  refine triple_parList hnodup acts_allows (fun g _ => flushGroup_atNode site cfg g.1 g.2)
    (fun g hg => ?_) fun g hg r w w' hrely hw => ⟨hw.1, ?_⟩
  · refine (flushGroup_site (private_group hapart hg) g.2).mono
      (fun w hw => ⟨congrFun hw _, trivial⟩) ?_
    rintro r w ⟨rfl, hserved, -⟩
    exact ⟨rfl, hserved⟩
  · rw [(private_group hapart hg).served w w' hrely]
    exact hw.2

/-- Groups tell the client nothing, and other nodes neither. -/
theorem flushGroups_elsewhere (gs : List (Addr × List SendItem)) (served : Addr → List Bytes)
    (told : List Bytes) :
    Triple Eq site.Acts (fun w => w.served = served ∧ w.told = told)
      (Prog.parList (gs.map fun g => flushGroup cfg g.1 g.2)) fun _ w =>
        w.told = told ∧ ∀ a, (∀ g ∈ gs, rewriteAddr cfg g.1 ≠ a) → w.served a = served a := by
  have hevents : (Prog.parList (gs.map fun g => flushGroup cfg g.1 g.2)).Ensures
      site.Allows (fun e => ∃ g ∈ gs, site.AtNode (rewriteAddr cfg g.1) e) fun _ => True := by
    refine (Prog.ensures_parList (R := fun _ _ => True) fun g hg => ?_).mono
      (fun _ _ he => he) fun _ _ => trivial
    exact (flushGroup_atNode site cfg g.1 g.2).mono (fun e _ he => ⟨g, hg, he⟩) fun _ h => h
  refine (triple_idle (P := fun w => w.told = told ∧
    ∀ a, (∀ g ∈ gs, rewriteAddr cfg g.1 ≠ a) → w.served a = served a) hevents acts_allows
    (stable_eq _) ?_).mono (fun w hw => ⟨hw.2, fun a _ => congrFun hw.1 a⟩) fun _ _ h => h.1
  rintro e w w' ⟨g, hg, he⟩ ⟨htold, hserved⟩ hacts
  obtain ⟨htold', hserved', -⟩ := acts_elsewhere he hacts
  exact ⟨htold'.trans htold, fun a ha => (hserved' a (ha g hg).symm).trans (hserved a ha)⟩

end

/-! ## One conversation after the other -/

section

variable {served : Addr → List Bytes} {told : List Bytes}

/-- What the nodes have served and what the client was told. -/
def Exchange.At (served : Addr → List Bytes) (told : List Bytes) (w : Exchange) : Prop :=
  w.served = served ∧ w.told = told

/-- Nothing runs at the same time. -/
theorem private_eq (a : Addr) : site.Private a Eq fun w =>
    (∀ a', a' ≠ a → w.served a' = served a') ∧ w.told = told where
  served _ _ h := h ▸ rfl
  wire _ _ _ h _ := h ▸ rfl
  stable := stable_eq _
  kept e w w' he hacts hw := by
    obtain ⟨htold, hserved, -⟩ := acts_elsewhere he hacts
    exact ⟨fun a' ha' => (hserved a' ha').trans (hw.1 a' ha'), htold.trans hw.2⟩

theorem exec_at (hcfg : cfg.Valid) (hroute : site.route cfg slot read = some addr) (f : Frame) :
    Triple Eq site.Acts (Exchange.At served told) (exec cfg slot f read) fun r w =>
      r = .ok (site.answer (rewriteAddr cfg addr) (served (rewriteAddr cfg addr)) f.bytes).1 ∧
        w.At (Function.update served (rewriteAddr cfg addr)
          (served (rewriteAddr cfg addr) ++ [f.bytes])) told := by
  refine (exec_site hcfg hroute (private_eq _) f (served (rewriteAddr cfg addr))).mono
    (fun w hw => ⟨congrFun hw.1 _, fun a _ => congrFun hw.1 a, hw.2⟩) ?_
  rintro r w ⟨rfl, hserved, hother, htold⟩
  refine ⟨rfl, funext fun a => ?_, htold⟩
  by_cases ha : a = rewriteAddr cfg addr
  · rw [ha, Function.update_self, hserved]
  · rw [Function.update_of_ne ha, hother a ha]

theorem cwrite_at {id : Option CmdId} {v : Value} {k : Option Err → Prog α}
    (hk : Triple Eq site.Acts (Exchange.At served (told ++ [encode v])) (k none) Q) :
    Triple Eq site.Acts (Exchange.At served told) (.call (.cwrite id v) k) Q := by
  refine triple_answer (stable_eq _) ?_ hk
  rintro r w w' ⟨hserved, htold⟩ ⟨hr, -, rfl⟩
  exact ⟨hr, hserved, congrArg (· ++ [encode v]) htold⟩

theorem finish_at (s : Session) (id : CmdId) (v : Value) :
    Triple Eq site.Acts (Exchange.At served told) (finish s id v) fun r w =>
      r = (s, .ok) ∧ w.At served (told ++ [encode v]) :=
  triple_quiet (fun _ h => h) (fun _ _ => rfl) (stable_eq _) <| cwrite_at <|
    triple_quiet (fun _ h => h) (fun _ _ => rfl) (stable_eq _) <| triple_ret fun _ h => ⟨rfl, h⟩

theorem writeReplies_at (out : List (CmdId × Value)) :
    Triple Eq site.Acts (Exchange.At served told) (writeReplies out) fun r w =>
      r = .ok ∧ w.At served (told ++ out.map fun x => encode x.2) := by
  induction out generalizing told with
  | nil =>
    refine triple_quiet (fun _ h => h) (fun _ _ => rfl) (stable_eq _) ?_
    refine triple_ret fun w hw => ⟨rfl, ?_⟩
    rwa [List.map_nil, List.append_nil]
  | cons x out ih =>
    refine cwrite_at (ih.mono (fun _ h => h) fun r w hw => ?_)
    rwa [List.append_assoc] at hw

end

/-! ## The commands of a batch -/

/-- What the nodes have served once the command was dealt with. -/
def servedAfter (cfg : Config) (served : Addr → List Bytes) : Classified → Addr → List Bytes
  | .send _ addr f _ => Function.update served (rewriteAddr cfg addr)
      (served (rewriteAddr cfg addr) ++ [f.bytes])
  | _ => served

/-- The reply to a command, as it comes from its node or from the proxy itself. -/
def Site.rawReply (site : Site) (cfg : Config) (served : Addr → List Bytes) : Classified → Value
  | .here v => v
  | .send _ addr f _ => (site.answer (rewriteAddr cfg addr) (served (rewriteAddr cfg addr)) f.bytes).1
  | _ => Value.zero

/-- A read goes to the node that it goes to on its own: no replica is preferred. -/
def Site.AsAlone (site : Site) (cfg : Config) : Classified → Prop
  | .send slot addr _ true => site.route cfg slot true = some addr
  | _ => True

instance (site : Site) (cfg : Config) : DecidablePred (site.AsAlone cfg)
  | .send slot addr _ true => inferInstanceAs (Decidable (site.route cfg slot true = some addr))
  | .send _ _ _ false | .slow | .here _ | .panic => .isTrue trivial

/-- The replies to commands that are dealt with one after the other. -/
def Site.rawReplies (site : Site) (cfg : Config) (served : Addr → List Bytes) :
    List Classified → List Value
  | [] => []
  | k :: ks => site.rawReply cfg served k :: site.rawReplies cfg (servedAfter cfg served k) ks

/-! ## A run -/

/-- A site with one node, and `conn` to it: every request is answered. -/
def Site.run (site : Site) (conn : ConnId) (w : Exchange) (o : Op) : Res o × Exchange :=
  let r : Res o := match o with
    | .load => site.topology
    | .get _ _ => .ok conn
    | .read c _ => .ok (((w.wire c).head?.map Subtype.val).getD nullBulk)
    | o => calm (fun _ => nullBulk) o
  (r, site.effect w ⟨o, r⟩)

/-- The connection leads where the request wants to go. -/
def Site.leads (site : Site) (conn : ConnId) (e : Event) : Bool :=
  match e.op with
  | .get a _ => decide (a = site.node conn)
  | _ => true

theorem Site.run_path (site : Site) (conn : ConnId) (p : Prog α) (w : Exchange)
    (h : (p.exec (site.run conn) w).1.2.all (site.leads conn) = true) :
    Path Eq site.Acts w (p.exec (site.run conn) w).1.2 (p.exec (site.run conn) w).2 := by
  refine exec_path id (fun w o ho => ⟨w, rfl, ?_, ?_, rfl⟩) p w (List.all_eq_true.1 h)
  · cases o with
    | get a replica => exact ⟨conn, rfl, (of_decide_eq_true ho).symm⟩
    | read c f =>
      cases hw : (w.wire c).head? with
      | none => exact ⟨⟨nullBulk, by decide⟩, by simp only [Site.run, hw]; rfl⟩
      | some v => exact ⟨v, by simp only [Site.run, hw]; rfl⟩
    | load => exact rfl
    | _ => first | exact rfl | trivial
  · cases o with
    | read c f =>
      intro v hv
      have hhead : (w.wire c).head? = some v := hv
      simp only [Site.run, hhead]
      rfl
    | _ => trivial

end RespProxy.Backend
