import RespProxy.Proxy.Conclude

/-! # One reply for each command

`handle` writes exactly one reply to a command that does not subscribe, or it
ends the session (`handle_oneReply`). A fast batch does so as well as long as no
node group fails; when one does, a single error takes the place of all replies
and the session goes on.
-/

namespace RespProxy.Proxy

open Cluster Command Resp Interact

variable {cfg : Config}
variable {ks : List Classified} {b : List ClientCmd} {s : Session} {r : Session × Outcome}
variable {tr : Trace}
variable {c : ClientCmd} {tr' : Trace}

/-! ## Programs that reply once -/

/-- The program writes one reply, to `id`, or it ends the session. -/
def OneReply (id : CmdId) (p : Prog (Session × Outcome)) : Prop :=
  p.Sat fun tr r => r.2 = .ok → (replies tr).map Prod.fst = [some id]

/-- `reply` succeeds only if its value was written. -/
theorem reply_sat (id : Option CmdId) (v : Value) :
    (reply id v).Sat fun tr o => o = .ok → replies tr = [(id, v, none)] := by
  rintro tr o h rfl
  obtain ⟨-, rfl⟩ | ⟨e, he, -⟩ := reply_cases h
  · rfl
  · cases he

theorem Concludes.oneReply {relays : Prop} {id : CmdId} {p : Prog (Session × Outcome)}
    (h : Concludes True True relays id none p) : OneReply id p :=
  fun tr r hr hok => (h tr r hr).one trivial hok

theorem cmdExec_oneReply : OneReply c.id (cmdExec cfg s c) :=
  (cmdExec_concludes trivial fun _ _ _ _ => trivial).oneReply

/-- Outside subscribe mode a command that does not subscribe gets one reply. -/
theorem handle_oneReply (hs : s.sub = none)
    (hn : c.name ∉ ["SUBSCRIBE", "PSUBSCRIBE", "SSUBSCRIBE"]) :
    OneReply c.id (handle cfg s c) := by
  intro tr r h hok
  have hend := handle_concludes (P := True) (fun _ => trivial) (fun _ _ _ _ => trivial)
    (fun _ _ _ _ _ _ _ => trivial) tr r h
  exact hend.one ⟨hs, hn⟩ hok

/-! ## Faults -/

/-- A dial, a write or a read failed, or the context was cancelled. -/
def Fault (e : Event) : Prop :=
  match e with
  | ⟨.get _ _, .error _⟩ | ⟨.write _ _, some _⟩ | ⟨.read _ _, .error _⟩ | ⟨.ctxErr, some _⟩ => True
  | _ => False

def NoFault (tr : Trace) : Prop := ∀ e ∈ tr, ¬ Fault e

theorem noFault_nil : NoFault [] := fun _ he => (List.not_mem_nil he).elim

theorem noFault_cons {e : Event} : NoFault (e :: tr) ↔ ¬ Fault e ∧ NoFault tr :=
  List.forall_mem_cons

theorem noFault_append : NoFault (tr ++ tr') ↔ NoFault tr ∧ NoFault tr' :=
  List.forall_mem_append

/-- The program returns a value if and only if nothing it did failed. -/
def FaultsOut {α : Type} (p : Prog (Except Err α)) : Prop :=
  p.Sat fun tr r => NoFault tr ↔ ∃ v, r = .ok v

/-- The program cannot fail. -/
def Faultless {α : Type} (Q : α → Prop) (p : Prog α) : Prop := p.Sat fun tr a => NoFault tr ∧ Q a

section

variable {α β : Type}

theorem FaultsOut.ok (v : α) : FaultsOut (pure (.ok v)) :=
  Prog.sat_ret.2 ⟨fun _ => ⟨v, rfl⟩, fun _ => noFault_nil⟩

theorem FaultsOut.bind {p : Prog (Except Err α)} {f : Except Err α → Prog (Except Err β)}
    (hp : FaultsOut p) (hok : ∀ v, FaultsOut (f (.ok v)))
    (herr : ∀ e, (f (.error e)).Sat fun _ r => ∃ e', r = .error e') : FaultsOut (p.bind f) := by
  refine Prog.sat_bind.2 ?_
  intro tr a ha tr' r hr
  have hiff := hp tr a ha
  rw [noFault_append]
  cases a with
  | ok v =>
    have htr : NoFault tr := hiff.2 ⟨v, rfl⟩
    exact (and_iff_right htr).trans (hok v tr' r hr)
  | error e =>
    obtain ⟨e', rfl⟩ := herr e tr' r hr
    constructor
    · rintro ⟨htr, -⟩
      obtain ⟨v, hv⟩ := hiff.1 htr
      cases hv
    · rintro ⟨v, hv⟩
      cases hv

theorem FaultsOut.after {Q : α → Prop} {p : Prog α} {f : α → Prog (Except Err β)}
    (hp : Faultless Q p) (hf : ∀ a, Q a → FaultsOut (f a)) : FaultsOut (p.bind f) := by
  refine Prog.sat_bind.2 ?_
  intro tr a ha tr' r hr
  obtain ⟨htr, hQ⟩ := hp tr a ha
  rw [noFault_append]
  exact (and_iff_right htr).trans (hf a hQ tr' r hr)

/-- A single request that may fail. -/
theorem FaultsOut.ask {o : Op} {f : Res o → Prog (Except Err β)}
    (hf : ∀ r, ¬ Fault ⟨o, r⟩ → FaultsOut (f r))
    (herr : ∀ r, Fault ⟨o, r⟩ → (f r).Sat fun _ r => ∃ e', r = .error e') :
    FaultsOut ((ask o).bind f) := by
  rintro tr r ⟨x, tr', rfl, h⟩
  rw [noFault_cons]
  by_cases hx : Fault ⟨o, x⟩
  · obtain ⟨e', rfl⟩ := herr x hx tr' r h
    constructor
    · rintro ⟨hn, -⟩
      exact absurd hx hn
    · rintro ⟨v, hv⟩
      cases hv
  · exact (and_iff_right hx).trans (hf x hx tr' r h)

theorem errs_ret (e : Err) :
    (pure (.error e) : Prog (Except Err β)).Sat fun _ r => ∃ e', r = .error e' :=
  Prog.sat_ret.2 ⟨e, rfl⟩

/-- A request, and the error that was known before. -/
theorem errs_ask (o : Op) (e : Err) :
    ((ask o).bind fun _ => (pure (.error e) : Prog (Except Err β))).Sat
      fun _ r => ∃ e', r = .error e' := by
  rintro tr r ⟨_, _, rfl, rfl, rfl⟩
  exact ⟨e, rfl⟩

end

theorem IdleEvent.not_fault {e : Event} (h : IdleEvent e) : ¬ Fault e := by
  obtain ⟨o, r⟩ := e
  cases o with
  | load | drop => exact fun hf => hf
  | _ => exact h.elim

theorem hopAddr_faultless (hseeds : cfg.clusterSeeds ≠ []) (slot : Nat) (hint : Addr) (read : Bool) :
    Faultless (fun a => ∃ addr, a = some addr) (hopAddr cfg slot hint read) := by
  intro tr a h
  obtain ⟨hidle, hfound⟩ := (hopAddr_found (A := fun _ => True) hseeds slot hint read).runs h
    fun _ _ => trivial
  exact ⟨fun e he => IdleEvent.not_fault (hidle e he), hfound⟩

theorem doFrame_faultsOut (c : ConnId) (f : Frame) : FaultsOut (doFrame c f) := by
  refine .ask ?_ ?_
  · intro r hr
    cases r with
    | some e => exact absurd trivial hr
    | none =>
      rintro tr r ⟨x, tr', rfl, rfl, rfl⟩
      cases x with
      | error e => simp [noFault_cons, Fault]
      | ok v => simp [noFault_cons, noFault_nil, Fault]
  · intro r hr
    cases r with
    | some e => exact errs_ret e
    | none => exact hr.elim

theorem askAndDo_faultsOut (c : ConnId) (asking : Bool) (f : Frame) :
    FaultsOut (askAndDo c asking f) := by
  unfold askAndDo
  split
  · exact (doFrame_faultsOut c _).bind (fun _ => doFrame_faultsOut c f) fun e => errs_ret e
  · exact doFrame_faultsOut c f

theorem hop_faultsOut (addr : Addr) (replica asking : Bool) (f : Frame) :
    FaultsOut (hop cfg addr replica asking f) := by
  refine .ask ?_ ?_
  · intro r hr
    cases r with
    | error e => exact absurd trivial hr
    | ok c =>
      refine (askAndDo_faultsOut c asking f).bind ?_ fun e => errs_ask (.drop c) e
      intro v
      exact .ask (fun _ _ => .ok v) fun _ h => h.elim
  · intro r hr
    cases r with
    | error e => exact errs_ret e
    | ok c => exact hr.elim

theorem updateSlotAt_faultless (slot : Nat) (addr : Addr) :
    Faultless (fun _ => True) (updateSlotAt slot addr) := by
  rintro tr a ⟨t, _, rfl, n, _, rfl, u, _, rfl, rfl, rfl⟩
  refine ⟨?_, trivial⟩
  simp [noFault_cons, noFault_nil, Fault]

theorem execHops_faultsOut (hseeds : cfg.clusterSeeds ≠ []) (f : Frame) (hops slot : Nat)
    (hint : Addr) (read asking : Bool) (last : Value) :
    FaultsOut (execHops cfg f hops slot hint read asking last) := by
  induction hops generalizing slot hint read asking last with
  | zero => exact .ok last
  | succ hops ih =>
    have haddr := hopAddr_faultless hseeds slot hint (read && !asking)
    refine .ask ?_ ?_
    · intro r hr
      cases r with
      | some e => exact absurd trivial hr
      | none =>
        refine .after haddr ?_
        rintro _ ⟨addr, rfl⟩
        refine (hop_faultsOut addr _ asking f).bind ?_ fun e => errs_ret e
        intro v
        dsimp only
        split
        · exact .ok v
        · split
          · exact .after (updateSlotAt_faultless _ _) fun _ _ => ih _ _ _ _ _
          · exact ih _ _ _ _ _
    · intro r hr
      cases r with
      | some e => exact errs_ret e
      | none => exact hr.elim

theorem readReplies_faultsOut (conn : ConnId) (its : List SendItem) :
    FaultsOut (readReplies conn its) := by
  induction its with
  | nil => exact .ok []
  | cons it its ih =>
    refine .ask ?_ ?_
    · intro r hr
      cases r with
      | error e => exact absurd trivial hr
      | ok v => exact ih.bind (fun vs => .ok (v :: vs)) fun e => errs_ret e
    · intro r hr
      cases r with
      | error e => exact errs_ret e
      | ok v => exact hr.elim

theorem followRedirects_faultsOut (hseeds : cfg.clusterSeeds ≠ [])
    (rest : List (SendItem × Value)) : FaultsOut (followRedirects cfg rest) := by
  induction rest with
  | nil => exact .ok []
  | cons x rest ih =>
    have hone : FaultsOut (followOne cfg x.1 x.2) := by
      unfold followOne
      split
      · exact .ok x.2
      · exact execHops_faultsOut hseeds _ _ _ _ _ _ _
    refine hone.bind ?_ fun e => errs_ret e
    intro v
    exact ih.bind (fun vs => .ok (v :: vs)) fun e => errs_ret e

/-- A node group has replies if and only if nothing failed in it. -/
theorem flushGroup_faultsOut (hseeds : cfg.clusterSeeds ≠ []) (addr : Addr)
    (its : List SendItem) : FaultsOut (flushGroup cfg addr its) := by
  refine .ask ?_ ?_
  · intro r hr
    cases r with
    | error e => exact absurd trivial hr
    | ok conn =>
      refine .ask ?_ ?_
      · intro r hr
        cases r with
        | some e => exact absurd trivial hr
        | none =>
          refine (readReplies_faultsOut conn its).bind ?_ fun e => errs_ask (.drop conn) e
          intro vs
          exact .ask (fun _ _ => followRedirects_faultsOut hseeds _) fun _ h => h.elim
      · intro r hr
        cases r with
        | some e => exact errs_ask (.drop conn) e
        | none => exact hr.elim
  · intro r hr
    cases r with
    | error e => exact errs_ret e
    | ok conn => exact hr.elim

/-! ## Fast batches -/

theorem errorsOf_eq_nil {α : Type} {rs : List (Except Err α)} :
    errorsOf rs = [] ↔ ∀ r ∈ rs, ∃ v, r = .ok v := by
  rw [errorsOf, List.filterMap_eq_nil_iff]
  constructor
  · intro h r hr
    cases r with
    | ok v => exact ⟨v, rfl⟩
    | error e => exact absurd (h _ hr) (by simp)
  · intro h r hr
    obtain ⟨v, rfl⟩ := h r hr
    rfl

/-- Results without errors, paired with what they are results of. -/
theorem forall₂_valuesOf {α β : Type} {R : β → Except Err α → Prop} {xs : List β}
    {rs : List (Except Err α)} (h : List.Forall₂ R xs rs) (hok : errorsOf rs = []) :
    List.Forall₂ (fun x v => R x (.ok v)) xs (valuesOf rs) := by
  induction h with
  | nil => exact .nil
  | @cons x r xs rs hx _ ih =>
    obtain ⟨v, rfl⟩ := errorsOf_eq_nil.1 hok r List.mem_cons_self
    exact .cons hx (ih (errorsOf_eq_nil.2 fun r hr =>
      errorsOf_eq_nil.1 hok r (List.mem_cons_of_mem _ hr)))

theorem exists_mem_zip_of_mem {α β : Type} {R : α → β → Prop} {xs : List α} {ys : List β}
    (h : List.Forall₂ R xs ys) {x : α} (hx : x ∈ xs) : ∃ y, (x, y) ∈ xs.zip ys := by
  induction h with
  | nil => cases hx
  | @cons a b xs ys _ _ ih =>
    rcases List.mem_cons.1 hx with rfl | hx
    · exact ⟨b, List.mem_cons_self⟩
    · obtain ⟨y, hy⟩ := ih hx
      exact ⟨y, List.mem_cons_of_mem _ hy⟩

/-- At the place of a command that was sent stands a value its group has for it. -/
theorem lookup_gatherReplies {R : SendItem → Value → Prop} {vss : List (List Value)}
    (h : List.Forall₂ (fun g vs => List.Forall₂ R g.2 vs) (nodeGroups (sendItems ks)) vss)
    {i slot : Nat} {addr : Addr} {f : Frame} {read : Bool}
    (hk : ks[i]? = some (.send slot addr f read)) :
    ∃ w, (gatherReplies (nodeGroups (sendItems ks)) vss).lookup i = some w ∧
      R { idx := i, slot, addr, frame := f, read } w := by
  have hit : ({ idx := i, slot, addr, frame := f, read } : SendItem) ∈ sendItems ks :=
    mem_sendItems.2 hk
  generalize hdef : ({ idx := i, slot, addr, frame := f, read } : SendItem) = it at hit
  have hidx : it.idx = i := by rw [← hdef]
  -- the item has a place in its group, and so a value there
  have hgroup : (it.addr, (sendItems ks).filter fun x => x.addr = it.addr) ∈
      nodeGroups (sendItems ks) := Group.mem_groupBy.2 ⟨⟨it, hit, rfl⟩, rfl⟩
  obtain ⟨vs, hvs⟩ := exists_mem_zip_of_mem h hgroup
  obtain ⟨w, hw⟩ := exists_mem_zip_of_mem (List.forall₂_zip h hvs)
    (List.mem_filter.2 ⟨hit, by simp⟩)
  have hmem : (i, w) ∈ gatherReplies (nodeGroups (sendItems ks)) vss := by
    refine List.mem_flatMap.2 ⟨_, hvs, ?_⟩
    rw [List.zip_map_left]
    exact List.mem_map.2 ⟨(it, w), hw, by simp [hidx]⟩
  -- whatever is found at its place belongs to it
  obtain ⟨w', hlookup, hmem'⟩ := Group.exists_lookup_of_mem hmem
  refine ⟨w', hlookup, ?_⟩
  obtain ⟨⟨g, vs'⟩, hg, hz⟩ := List.mem_flatMap.1 hmem'
  rw [List.zip_map_left] at hz
  obtain ⟨⟨it', w''⟩, hzip, heq⟩ := List.mem_map.1 hz
  obtain ⟨rfl, rfl⟩ : it'.idx = i ∧ w'' = w' := by simpa using heq
  have hit' : it' ∈ sendItems ks := by
    have hmem := (List.of_mem_zip hzip).1
    rw [(Group.mem_groupBy.1 (List.of_mem_zip hg).1).2] at hmem
    exact (List.mem_filter.1 hmem).1
  have hsame : it' = it := by
    have h₁ := mem_sendItems.1 hit
    have h₂ := mem_sendItems.1 hit'
    rw [hidx] at h₁
    rw [h₁] at h₂
    cases it
    cases it'
    simp_all
  rw [← hsame]
  exact List.forall₂_zip (List.forall₂_zip h hg) hzip

/-! ## Replies in step with commands -/

/-- `v` answers `c`: it is what `handle` replied to it, what the proxy makes of a
reply that was read for a frame of `c`, or what it answers without a backend. -/
inductive Answered (cfg : Config) (tr : Trace) (c : ClientCmd) (v : Value) : Prop where
  | handled {s : Session} {tr₁ tr₂ tr₃ : Trace} {r : Session × Outcome} {x : Option Err}
      (ht : tr = tr₁ ++ tr₂ ++ tr₃) (h : (handle cfg s c).Runs tr₂ r)
      (hv : (some c.id, v, x) ∈ replies tr₂)
  | forwarded {conn : ConnId} {f : Frame} {argv : Argv} {db db' : Nat} {w : Value}
      (hf : f.src = .client c.id argv db false) (hr : (⟨.read conn f, .ok w⟩ : Event) ∈ tr)
      (hv : v = clientReply c.name db' w)
  | here {s : Session} {w : Value} {db : Nat} (hw : HereReply cfg s c w)
      (hv : v = clientReply c.name db w)

/-- The client gets one reply for each command, in the order of the commands. -/
def InStep (cfg : Config) (b : List ClientCmd) (tr : Trace) : Prop :=
  List.Forall₂ (fun c x => x.1 = some c.id ∧ Answered cfg tr c x.2.1) b (replies tr)

theorem Answered.append {v : Value} (h : Answered cfg tr c v)
    (t t' : Trace) : Answered cfg (t ++ tr ++ t') c v := by
  cases h with
  | @handled s tr₁ tr₂ tr₃ r x ht h hv =>
    have ht' : t ++ tr ++ t' = (t ++ tr₁) ++ tr₂ ++ (tr₃ ++ t') := by simp [ht]
    exact .handled ht' h hv
  | forwarded hf hr hv =>
    exact .forwarded hf (List.mem_append_left _ (List.mem_append_right _ hr)) hv
  | here hw hv => exact .here hw hv

theorem handle_inStep (h : (handle cfg s c).Runs tr r) (hs : s.sub = none)
    (hn : c.name ∉ ["SUBSCRIBE", "PSUBSCRIBE", "SSUBSCRIBE"]) (hok : r.2 = .ok) :
    InStep cfg [c] tr := by
  have hone := handle_oneReply hs hn tr r h hok
  obtain ⟨⟨id, v, x⟩, hx, hid⟩ := List.map_eq_singleton_iff.1 hone
  cases hid
  have ht : tr = [] ++ tr ++ [] := by simp
  have hmem : (some c.id, v, x) ∈ replies tr := by simp [hx]
  unfold InStep
  rw [hx]
  exact .cons ⟨rfl, .handled ht h hmem⟩ .nil

theorem InStep.append {b' : List ClientCmd} (h : InStep cfg b tr)
    (h' : InStep cfg b' tr') : InStep cfg (b ++ b') (tr ++ tr') := by
  unfold InStep
  rw [replies_append]
  refine List.rel_append ?_ ?_
  · refine h.imp fun c x hx => ⟨hx.1, ?_⟩
    simpa using hx.2.append [] tr'
  · refine h'.imp fun c x hx => ⟨hx.1, ?_⟩
    simpa using hx.2.append tr []

theorem InStep.quiet (h : InStep cfg b tr) (hq : Quiet tr') : InStep cfg b (tr' ++ tr) := by
  have hnil : InStep cfg [] tr' := by
    unfold InStep
    rw [hq.replies]
    exact .nil
  exact hnil.append h

/-- Commands that are handled one by one are answered one by one. -/
theorem seqRun_inStep {D : StepCond} {cs : List ClientCmd}
    (h : SeqRun cfg D s cs tr r) (hs : s.sub = none)
    (hn : ∀ c ∈ cs, c.name ∉ ["SUBSCRIBE", "PSUBSCRIBE", "SSUBSCRIBE"]) (hok : r.2 = .ok) :
    InStep cfg cs tr := by
  induction h with
  | nil => exact .nil
  | stop _ _ ho => exact absurd hok ho
  | @step s s' c cs tr tr' r _ h _ ih =>
    have hc := hn c List.mem_cons_self
    have hsub : s'.sub = none := by
      have hafter := ((handle_sends anyAnswer cfg s c).runs h fun _ _ => trivial).2
      rcases hafter.sub with hsub | ⟨-, -, hmem⟩
      · exact hsub.trans hs
      · exact absurd hmem hc
    exact (handle_inStep h hs hc rfl).append
      (ih hsub (fun d hd => hn d (List.mem_cons_of_mem c hd)) hok)

theorem writeReplies_sat (out : List (CmdId × Value)) :
    (writeReplies out).Sat fun tr o => o = .ok →
      replies tr = out.map fun x => (some x.1, x.2, none) := by
  induction out with
  | nil =>
    rintro tr o ⟨r, _, rfl, h⟩ hok
    cases r with
    | some e =>
      obtain ⟨rfl, rfl⟩ := h
      cases hok
    | none =>
      obtain ⟨rfl, -⟩ := h
      rfl
  | cons x out ih =>
    rintro tr o ⟨r, tr', rfl, h⟩ hok
    cases r with
    | some e =>
      obtain ⟨rfl, rfl⟩ := h
      cases hok
    | none =>
      rw [List.map_cons, ← ih tr' o h hok]
      rfl

theorem replyPhase_sat (s : Session) (b : List ClientCmd) (ks : List Classified)
    (rs : List (Nat × Value)) :
    (replyPhase s b ks rs).Sat fun tr r => r.2 = .ok →
      replies tr = (b.zip ks.zipIdx).map fun x =>
        (some x.1.id, clientReply x.1.name s.db (replyAt rs x.2.1 x.2.2), none) := by
  rintro tr r ⟨x, tr', rfl, h⟩ hok
  cases x with
  | some e =>
    obtain ⟨rfl, rfl⟩ := h
    cases hok
  | none =>
    have hwrite : ((writeReplies ((b.zip ks.zipIdx).map fun x =>
        (x.1.id, clientReply x.1.name s.db (replyAt rs x.2.1 x.2.2)))).bind
          fun o => pure (s, o)).Runs tr' r := h
    obtain ⟨t₁, o, _, h₁, ⟨rfl, rfl⟩, rfl⟩ := Prog.runs_bind.1 hwrite
    have hout := writeReplies_sat _ t₁ o h₁ hok
    rw [List.map_map] at hout
    rw [List.append_nil]
    exact hout

/-- The reply phase of a fast batch answers every command. -/
theorem fast_inStep
    {db : Nat} {rs : List (Nat × Value)} (hcfg : cfg.Valid) (hk : ClassifiesAll cfg s b ks)
    (hslow : batchSlow cfg s b = false)
    (hrs : ∀ i slot addr f read, ks[i]? = some (.send slot addr f read) →
      ∃ w, rs.lookup i = some w ∧
        Got (· ∈ tr) cfg { idx := i, slot, addr, frame := f, read } w)
    (hreplies : replies tr = (b.zip ks.zipIdx).map fun x =>
      (some x.1.id, clientReply x.1.name db (replyAt rs x.2.1 x.2.2), none)) :
    InStep cfg b tr := by
  have hlen := hk.length_eq
  unfold InStep
  rw [hreplies]
  refine List.forall₂_iff_get.2 ⟨by simp [hlen], ?_⟩
  intro i h₁ h₂
  have hik : i < ks.length := by omega
  have hc : b[i]? = some b[i] := List.getElem?_eq_getElem h₁
  have hki : ks[i]? = some ks[i] := List.getElem?_eq_getElem hik
  have hclass := hk.get hc hki
  simp only [List.get_eq_getElem, List.getElem_map, List.getElem_zip, List.getElem_zipIdx,
    Nat.zero_add, true_and]
  generalize hkdef : ks[i] = k at hclass hki
  cases hclass with
  | slow h =>
    -- no command of the batch is slow
    have hany : ks.any Classified.isSlow = true :=
      List.any_eq_true.2 ⟨.slow, List.mem_of_getElem? hki, rfl⟩
    rw [hk.slow_eq, hslow] at hany
    cases hany
  | panic => exact absurd (List.mem_of_getElem? hki) hk.not_panic
  | here _ hv => exact .here hv rfl
  | send =>
    obtain ⟨w, hw, hgot⟩ := hrs i _ _ _ _ hki
    rcases hgot with h0 | ⟨conn, f, hf, hread⟩
    · have := hcfg.hops
      omega
    · have hsrc : f.src = b[i].src (batchState cfg s (b.take i)) := by
        rcases hf with rfl | rfl <;> rfl
      refine .forwarded hsrc hread (congrArg (clientReply b[i].name db) (?_ : _ = w))
      simp [replyAt, hw]

/-- The client takes what it is sent. -/
def ClientTakes (tr : Trace) : Prop :=
  ∀ e ∈ tr, match e with
    | ⟨.deadline, r⟩ | ⟨.cwrite _ _, r⟩ | ⟨.cflush, r⟩ => r = none
    | _ => True

theorem reply_takes {id : Option CmdId} {v : Value} {o : Outcome}
    (h : (reply id v).Runs tr o) (ht : ClientTakes tr) : o = .ok := by
  obtain ⟨ho, -⟩ | ⟨e, -, rfl | rfl | rfl⟩ := reply_cases h
  · exact ho
  all_goals cases ht _ (List.mem_of_getLast? rfl)

/-- The two ends of a fast batch: an error for all of it, or the reply phase. -/
theorem execFastPipeline_runs (h : (execFastPipeline cfg s b ks).Runs tr r) :
    ∃ tr₁ tr₂ rs, tr = tr₁ ++ tr₂ ∧
      (Prog.parList ((nodeGroups (sendItems ks)).map fun g =>
        flushGroup cfg g.1 g.2)).Runs tr₁ rs ∧
      ((errorsOf rs ≠ [] ∧ ∃ e x tr₃, tr₂ = ⟨.race, x⟩ :: tr₃ ∧
          (reply none (errOf e)).Runs tr₃ r.2) ∨
        (errorsOf rs = [] ∧
          (replyPhase s b ks (gatherReplies (nodeGroups (sendItems ks)) (valuesOf rs))).Runs
            tr₂ r)) := by
  obtain ⟨tr₁, rs, tr₂, h₁, h₂, rfl⟩ := Prog.runs_bind.1 h
  refine ⟨tr₁, tr₂, rs, rfl, h₁, ?_⟩
  split at h₂
  · rename_i hne
    obtain ⟨_, _, t, ⟨x, _, rfl, rfl, rfl⟩, h₃, rfl⟩ := Prog.runs_bind.1 h₂
    obtain ⟨t₁, o, _, h₄, ⟨rfl, rfl⟩, rfl⟩ := Prog.runs_bind.1 h₃
    exact .inl ⟨hne, _, x, t₁, by simp, h₄⟩
  · rename_i heq
    exact .inr ⟨by simpa using heq, h₂⟩

theorem replyPhase_noFault {rs : List (Nat × Value)}
    (h : (replyPhase s b ks rs).Runs tr r) : NoFault tr := by
  have hwrite : ∀ out, (writeReplies out).Sat fun tr _ => NoFault tr := by
    intro out
    induction out with
    | nil =>
      rintro tr o ⟨x, _, rfl, h⟩
      cases x <;> (obtain ⟨rfl, -⟩ := h; exact noFault_cons.2 ⟨fun h => h, noFault_nil⟩)
    | cons y out ih =>
      rintro tr o ⟨x, tr', rfl, h⟩
      cases x with
      | some e =>
        obtain ⟨rfl, -⟩ := h
        exact noFault_cons.2 ⟨fun h => h, noFault_nil⟩
      | none => exact noFault_cons.2 ⟨fun h => h, ih tr' o h⟩
  obtain ⟨x, tr', rfl, h⟩ := h
  refine noFault_cons.2 ⟨fun h => h, ?_⟩
  cases x with
  | some e =>
    obtain ⟨rfl, -⟩ := h
    exact noFault_nil
  | none =>
    have hbind : ((writeReplies ((b.zip ks.zipIdx).map fun x =>
        (x.1.id, clientReply x.1.name s.db (replyAt rs x.2.1 x.2.2)))).bind
          fun o => pure (s, o)).Runs tr' r := h
    obtain ⟨t₁, o, _, h₁, ⟨rfl, -⟩, rfl⟩ := Prog.runs_bind.1 hbind
    rw [List.append_nil]
    exact hwrite _ t₁ o h₁

/-- The groups all have replies if and only if nothing failed in any of them. -/
theorem flushGroups_faults (hseeds : cfg.clusterSeeds ≠ []) {gs : List (Addr × List SendItem)}
    {rs : List (Except Err (List Value))}
    (h : (Prog.parList (gs.map fun g => flushGroup cfg g.1 g.2)).Runs tr rs) :
    errorsOf rs = [] ↔ NoFault tr := by
  have hgroup : ∀ g ∈ gs, (flushGroup cfg g.1 g.2).Sat fun l r => NoFault l ↔ ∃ v, r = .ok v :=
    fun g _ => flushGroup_faultsOut hseeds g.1 g.2
  obtain ⟨trs, hsh, htrs, hrs, hall⟩ := Prog.sat_parList hgroup tr rs h
  have hiff : ∀ i (hl : i < trs.length) (hr : i < rs.length),
      NoFault trs[i] ↔ ∃ v, rs[i] = .ok v := by
    intro i hl hr
    have hi : i < gs.length := by omega
    exact hall i gs[i] _ _ (List.getElem?_eq_getElem hi) (List.getElem?_eq_getElem hl)
      (List.getElem?_eq_getElem hr)
  rw [errorsOf_eq_nil]
  constructor
  · intro hok e he
    obtain ⟨l, hl, he⟩ := (hsh.mem_iff e).1 he
    obtain ⟨i, hi, rfl⟩ := List.mem_iff_getElem.1 hl
    exact (hiff i hi (by omega)).2 (hok _ (List.getElem_mem _)) e he
  · intro hno r hr
    obtain ⟨i, hi, rfl⟩ := List.mem_iff_getElem.1 hr
    refine (hiff i (by omega) hi).1 fun e he => hno e ?_
    exact (hsh.mem_iff e).2 ⟨_, List.getElem_mem _, he⟩

theorem IdleTrace.noFault (h : IdleTrace tr) : NoFault tr := by
  rintro ⟨o, r⟩ he hf
  have hidle := h _ he
  cases o <;> first | exact hf.elim | exact hidle.elim

/-- A fast batch is answered in step if and only if none of its node groups failed. -/
theorem execFastPipeline_inStep {s' : Session} {tr₀ : Trace} (hcfg : cfg.Valid) (hb : b.length ≠ 1)
    (hk : ClassifiesAll cfg s b ks) (hslow : batchSlow cfg s b = false) (hq : Quiet tr₀)
    (h : (execFastPipeline cfg s' b ks).Runs tr r) (ht : ClientTakes tr) :
    (r.2 = .ok → InStep cfg b (tr₀ ++ tr)) ↔ NoFault tr := by
  obtain ⟨tr₁, tr₂, rs, rfl, hpar, hend⟩ := execFastPipeline_runs h
  have hmute : replies tr₁ = [] := by
    refine (Mute.replies (Q := fun _ => True) ?_ hpar).1
    refine Sends.any (Prog.ensures_parList (R := fun _ _ => True) fun g _ => ?_)
    exact Sends.any (flushGroup_sends fun _ _ => ⟨trivial, trivial, trivial⟩)
  have hfaults := flushGroups_faults hcfg.seeds hpar
  rcases hend with ⟨herr, e, x, tr₃, rfl, hreply⟩ | ⟨hok, hphase⟩
  · -- one error for the whole batch
    have hrok : r.2 = .ok := reply_takes hreply fun e he => ht e (by simp [he])
    have hone : replies (tr₀ ++ (tr₁ ++ ⟨.race, x⟩ :: tr₃)) = [(none, errOf e, none)] := by
      rw [replies_append, replies_append, hq.replies, hmute]
      exact reply_sat _ _ tr₃ r.2 hreply hrok
    constructor
    · intro hstep
      have hlen := (hstep hrok).length_eq
      rw [hone] at hlen
      exact absurd hlen hb
    · intro hno
      exact absurd (hfaults.2 (noFault_append.1 hno).1) herr
  · have hno₂ : NoFault tr₂ := replyPhase_noFault hphase
    refine ⟨fun _ => noFault_append.2 ⟨hfaults.1 hok, hno₂⟩, fun _ hrok => ?_⟩
    have hgroup : ∀ g ∈ nodeGroups (sendItems ks),
        Sends (· ∈ tr₁ ++ tr₂) (fun _ => True) (fun _ _ => True)
          (GotAll (· ∈ tr₁ ++ tr₂) cfg g.2) (flushGroup cfg g.1 g.2) :=
      fun g _ => flushGroup_sends fun _ _ => ⟨trivial, trivial, trivial⟩
    have hgot := ((Prog.ensures_parList hgroup).runs hpar
      fun e he => List.mem_append_left _ he).2
    have hvalues := (forall₂_valuesOf hgot hok).imp fun g vs hvs => hvs vs rfl
    have hreplies := replyPhase_sat s' b ks _ tr₂ r hphase hrok
    rw [← List.nil_append (replies tr₂), ← hmute, ← replies_append] at hreplies
    refine InStep.quiet ?_ hq
    exact fast_inStep hcfg hk hslow
      (fun i slot addr f read hi => lookup_gatherReplies hvalues hi) hreplies

/-- The commands that enter or leave subscriptions. -/
def subscriptionNames : List String :=
  ["SUBSCRIBE", "PSUBSCRIBE", "SSUBSCRIBE", "UNSUBSCRIBE", "PUNSUBSCRIBE", "SUNSUBSCRIBE"]

/-- **A batch is answered in step, or the session ends, exactly when the batch is one
command, when it is slow, or when nothing failed while it was handled.** -/
theorem inStep_iff_noFault {s : Session} {b : List ClientCmd} {tr : Trace}
    {r : Session × Outcome} (hcfg : cfg.Valid) (hsub : s.sub = none)
    (hnames : ∀ c ∈ b, c.name ∉ subscriptionNames) (h : (handleBatch cfg s b).Runs tr r)
    (ht : ClientTakes tr) :
    (r.2 = .ok → InStep cfg b tr) ↔
      (b.length = 1 ∨ batchSlow cfg s b = true ∨ NoFault tr) := by
  have hnames' : ∀ c ∈ b, c.name ∉ ["SUBSCRIBE", "PSUBSCRIBE", "SSUBSCRIBE"] := by
    intro c hc hmem
    exact hnames c hc (List.mem_append_left ["UNSUBSCRIBE", "PUNSUBSCRIBE", "SUNSUBSCRIBE"] hmem)
  cases handleBatch_runs h with
  | @one c _ _ _ h =>
    exact iff_of_true (handle_inStep h hsub (hnames' c (by simp))) (.inl rfl)
  | panic _ hq => exact iff_of_true (fun hok => by cases hok) (.inr (.inr hq.noFault))
  | slow _ hs hq h =>
    refine iff_of_true (fun hok => ?_) (.inr (.inl hs))
    exact (seqRun_inStep h (batchState_sub hsub b) hnames' hok).quiet hq.quiet
  | fast hb hs hq hk _ h =>
    have hfast := execFastPipeline_inStep hcfg hb hk hs hq.quiet h fun e he => ht e (by simp [he])
    simp [hfast, hb, hs, noFault_append, hq.noFault]

/-- Two commands for one node. -/
def twoSets : List ClientCmd := [command 0 ["SET", "a", "1"], command 1 ["SET", "b", "2"]]

theorem inStep_iff_noFault_calm : ∃ tr r,
    (handleBatch seeded (newSession seeded) twoSets).Runs tr r ∧ ClientTakes tr ∧
      ((r.2 = .ok → InStep seeded twoSets tr) ↔
        (twoSets.length = 1 ∨ batchSlow seeded (newSession seeded) twoSets = true ∨
          NoFault tr)) := by
  have hrun := scripted_runs (fun _ => calm fun _ => plusOK)
    (handleBatch seeded (newSession seeded) twoSets)
  have htakes : ClientTakes _ := scripted_events (fun _ => calm fun _ => plusOK)
    (fun _ o => by cases o <;> trivial) (handleBatch seeded (newSession seeded) twoSets)
  exact ⟨_, _, hrun, htakes, inStep_iff_noFault seeded_valid rfl (by decide) hrun htakes⟩

/-- When a read fails, one error answers the whole batch and the session goes on. -/
theorem one_error_for_batch :
    ¬ ∀ tr r, (handleBatch seeded (newSession seeded) twoSets).Runs tr r → ClientTakes tr →
      r.2 = .ok → InStep seeded twoSets tr := by
  intro h
  have hrun := scripted_runs (fun _ => timingOut (fun _ => true) fun _ => plusOK)
    (handleBatch seeded (newSession seeded) twoSets)
  have htakes : ClientTakes _ :=
    scripted_events (fun _ => timingOut (fun _ => true) fun _ => plusOK)
      (fun _ o => by cases o <;> trivial) (handleBatch seeded (newSession seeded) twoSets)
  have hstep := h _ _ hrun htakes (by decide +kernel)
  have hreplies : replies (scripted (fun _ => timingOut (fun _ => true) fun _ => plusOK)
      (handleBatch seeded (newSession seeded) twoSets)).2 =
        [(none, errOf "i/o timeout", none)] := by decide +kernel
  have hlen := hstep.length_eq
  rw [hreplies] at hlen
  cases hlen

end RespProxy.Proxy
