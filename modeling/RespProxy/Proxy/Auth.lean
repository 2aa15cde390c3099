import Mathlib.Data.List.Nodup
import RespProxy.Proxy.Gate

/-! # Authentication over whole runs

A command that `handle` gets keeps the gate (`Gate.handle`). Here the
classification pass, batches and the loop are added:

* `Gate.pass`: the pass keeps the gate, in the order of the commands;
* `Gate.batch`, `Gate.loop`: so do batches, if no command of a slow one is
  handled with the credentials of a later one (`Ordered`);
* `Gated`: what a run owes a client that has to authenticate.
-/

namespace RespProxy.Proxy

open Cluster Command Resp

variable {cfg : Config} {s : Session} {c : ClientCmd}
variable {T : Trace} {all cs rest later : List ClientCmd} {tr : Trace} {r : Session × Outcome}
variable {b : List ClientCmd}

/-! ## The classification pass -/

/-- A command that changes nothing. -/
theorem Gate.skip (h : Gate cfg T all cs [] s) (hn : c.name ≠ "RESET") :
    Gate cfg T all (cs ++ [c]) [] s := by
  refine ⟨fun hs => ?_, h.shut, h.queued, h.db⟩
  rcases h.granted hs with hgr | ⟨hsub, ho⟩
  · exact .inl (hgr.snoc fun hreset => absurd hreset hn)
  · exact .inr ⟨hsub, ho⟩

theorem not_opens_nil : ¬ Opens cfg [] := by
  rintro ⟨pre, a, post, heq, -⟩
  simp at heq

theorem Gate.granted_nil (h : Gate cfg T all cs [] s) (hs : s.authed = true) : Granted cfg T cs :=
  (h.granted hs).elim id fun ho => absurd ho.2 not_opens_nil

theorem Gate.classify (hreq : requireAuth cfg = true) (h : Gate cfg T all cs [] s)
    (hall : all = cs ++ c :: later) (hsub : s.sub = none) :
    Gate cfg T all (cs ++ [c]) [] (classifyState cfg s c) := by
  unfold classifyState
  split
  · rename_i hslow
    refine h.skip fun hn => ?_
    simp [hsub, pipelineSlow_of_name, hn] at hslow
  split
  · rename_i hsel
    have hn : c.name ≠ "RESET" := by simp [hsel]
    unfold classifySelect
    split
    · exact h.skip hn
    · rename_i hs
      split
      · exact h.skip hn
      · rename_i db hdb
        have hs : s.authed = true := by simpa using hs
        have hskip : Gate cfg T all (cs ++ [c]) [] s := h.skip hn
        exact ⟨hskip.granted, fun ha => absurd hs (by simp [show s.authed = false from ha]),
          hskip.queued, .inr ⟨cs, c, later, hall, h.granted_nil hs, hsel, hdb⟩⟩
  · by_cases hne : c.argv = []
    · rw [hne]
      refine h.skip ?_
      rw [ClientCmd.name, if_pos hne]
      decide
    · have hg := localStep_gate hreq s hne
      have hinit := hg.initial hreq hsub h.shut
      generalize localStep cfg s c.argv = x at hg hinit
      refine ⟨?_, hinit, ?_, ?_⟩
      · -- only `AUTH` and `HELLO` set the flag; behind another command it was granted before
        intro ha
        by_cases hauth : Authenticates cfg c
        · exact .inl (granted_of_authenticates hauth)
        cases hg with
        | pass _ hn =>
          exact .inl ((h.granted_nil ha).snoc fun hr => absurd (by simp [hr, localNames]) hn)
        | answer _ hn => exact .inl ((h.granted_nil ha).snoc fun hr => absurd (by simp [hr]) hn)
        | reject _ hn => exact .inl ((h.granted_nil ha).snoc fun hr => absurd (by simp [hr]) hn)
        | auth h => exact absurd h hauth
        | quit hn => exact .inl ((h.granted_nil ha).snoc fun hr => absurd (hr ▸ hn) (by decide))
        | reset => cases ha
      · cases hg with
        | reset => exact fun q hq => (List.not_mem_nil hq).elim
        | _ => exact h.queued
      · cases hg with
        | reset => exact .inl rfl
        | _ => exact h.db

theorem Gate.pass (hreq : requireAuth cfg = true) {b : List ClientCmd}
    (h : Gate cfg T all cs [] s) (hall : all = cs ++ b ++ later) (hsub : b ≠ [] → s.sub = none) :
    Gate cfg T all (cs ++ b) [] (batchState cfg s b) := by
  induction b generalizing s cs with
  | nil =>
    rw [List.append_nil]
    exact h
  | cons c b ih =>
    have hnone : s.sub = none := hsub (by simp)
    have hstep : Gate cfg T all (cs ++ [c]) [] (classifyState cfg s c) :=
      h.classify hreq (by rw [hall, List.append_assoc, List.cons_append]) hnone
    have hrest := ih hstep (by simp [hall]) fun _ => by rw [classifyState_sub, hnone]
    simpa [batchState] using hrest

/-- A subscribed session is left alone by the pass. -/
theorem batchState_subscribed {mode : Mode} (hsub : s.sub = some mode) (b : List ClientCmd) :
    batchState cfg s b = s := by
  induction b with
  | nil => rfl
  | cons c b ih =>
    have hstep : classifyState cfg s c = s := by
      unfold classifyState
      rw [if_pos (by simp [hsub])]
    rw [batchState, hstep, ih]

/-! ## Batches -/

/-- No command of a slow batch is handled with the credentials of a later one: the pass
leaves the session unauthenticated, or the credentials come first. No group of a fast
batch fails. -/
structure Ordered (cfg : Config) (s : Session) (b : List ClientCmd) (tr : Trace) : Prop where
  slow : b.length ≠ 1 → batchSlow cfg s b = true → s.authed = false →
    (batchState cfg s b).authed = true → Opens cfg b
  fast : b.length ≠ 1 → batchSlow cfg s b = false → NoFault tr

/-- The commands `b` that come ahead of authentication are answered. -/
def Replied (cfg : Config) (T : Trace) (cs b : List ClientCmd) (tr : Trace) : Prop :=
  ∀ pre c post, b = pre ++ c :: post → ¬ Granted cfg T (cs ++ pre) →
    ∃ v x, (⟨.cwrite (some c.id) v, x⟩ : Event) ∈ tr

theorem Replied.nil : Replied cfg T cs [] tr := by
  intro pre c post h
  simp at h

theorem Replied.mono {tr' : Trace} (h : Replied cfg T cs b tr)
    (hsub : tr ⊆ tr') : Replied cfg T cs b tr' := by
  intro pre c post hb hgr
  obtain ⟨v, x, hx⟩ := h pre c post hb hgr
  exact ⟨v, x, hsub hx⟩

theorem Replied.append {b' : List ClientCmd} (h : Replied cfg T cs b tr)
    (h' : Replied cfg T (cs ++ b) b' tr) : Replied cfg T cs (b ++ b') tr := by
  intro pre c post hb hgr
  rcases List.append_eq_append_iff.1 hb with ⟨as, rfl, has⟩ | ⟨as, rfl, has⟩
  · exact h' as c post has (by rwa [List.append_assoc])
  · cases as with
    | nil =>
      rw [List.append_nil] at h'
      exact h' [] c post has.symm (by rwa [List.append_nil])
    | cons a as =>
      cases has
      exact h pre _ as rfl hgr

/-- What the handling of commands `b` behind `cs` owes. -/
structure GateRun (cfg : Config) (T : Trace) (all cs b : List ClientCmd) (tr : Trace)
    (r : Session × Outcome) : Prop where
  events : ∀ e ∈ tr, GateEvent cfg T all e
  db : r.2 ≠ .panic → Chosen cfg T all r.1.db
  gate : r.2 = .ok → Gate cfg T all (cs ++ b) [] r.1
  replied : r.2 = .ok → Replied cfg T cs b tr

theorem Gate.one (hreq : requireAuth cfg = true) (h : Gate cfg T all cs (c :: rest) s)
    (hknown : Known s c tr) (hrun : (Proxy.handle cfg s c).Runs tr r) (hok : r.2 = .ok) :
    Replied cfg T cs [c] tr := by
  intro pre d post hb hgr
  obtain ⟨rfl, rfl, rfl⟩ := List.append_eq_singleton_iff.1 hb.symm |>.resolve_right (by simp)
    |>.imp id List.cons.inj
  exact h.replied hreq hknown hrun hok (by rwa [List.append_nil] at hgr)

theorem Gate.seq (hreq : requireAuth cfg = true)
    (h : Gate cfg T all cs b s) (hall : all = cs ++ b ++ later)
    (hrun : SeqRun cfg Known s b tr r) (hT : ∀ e ∈ tr, e ∈ T) : GateRun cfg T all cs b tr r := by
  induction hrun generalizing cs with
  | nil =>
    refine ⟨fun _ he => (List.not_mem_nil he).elim, fun _ => h.db, fun _ => ?_, fun _ => .nil⟩
    rwa [List.append_nil]
  | stop hD hrun ho =>
    obtain ⟨hev, hdb, -⟩ := h.handle hreq (by rw [hall, List.append_assoc, List.cons_append]) hD
      hrun hT
    exact ⟨hev, fun _ => hdb, fun hok => absurd hok ho, fun hok => absurd hok ho⟩
  | @step s s' c b tr tr' r hD hrun _ ih =>
    obtain ⟨hev, -, hgate⟩ := h.handle hreq (by rw [hall, List.append_assoc, List.cons_append]) hD
      hrun fun e he => hT e (List.mem_append_left _ he)
    have hrest := ih (hgate rfl) (by simp [hall]) fun e he => hT e (List.mem_append_right _ he)
    refine ⟨fun e he => ?_, hrest.db, fun hok => by simpa using hrest.gate hok, fun hok => ?_⟩
    · exact (List.mem_append.1 he).elim (hev e) (hrest.events e)
    · have hone : Replied cfg T cs [c] tr := h.one hreq hD hrun rfl
      exact (hone.mono (by simp)).append ((hrest.replied hok).mono (by simp))

/-- The session behind the pass is authenticated by the batch's own credentials only if
these come first. -/
theorem Gate.restart (hreq : requireAuth cfg = true)
    (h : Gate cfg T all cs [] s) (hall : all = cs ++ b ++ later) (hb : b.length ≠ 1)
    (hslow : batchSlow cfg s b = true) (hord : Ordered cfg s b tr) :
    Gate cfg T all cs b (batchState cfg s b) := by
  cases hsub : s.sub with
  | some mode =>
    rw [batchState_subscribed hsub]
    exact ⟨fun hs => .inl (h.granted_nil hs), h.shut, h.queued, h.db⟩
  | none =>
    have hpass := h.pass hreq hall fun _ => hsub
    refine ⟨fun hs => ?_, hpass.shut, hpass.queued, hpass.db⟩
    cases ha : s.authed with
    | true => exact .inl (h.granted_nil ha)
    | false => exact .inr ⟨batchState_sub hsub b, hord.slow hb hslow ha hs⟩

theorem clientReply_isError {v : Value} (h : v.isError = true) (name : String) (db : Nat) :
    (clientReply name db v).isError = true := by
  rw [clientReply, if_pos h]
  split
  · rfl
  · exact h

theorem Rejects.clientReply {v : Value} (h : Rejects cfg c v) (db : Nat) :
    Rejects cfg c (clientReply c.name db v) := by
  rcases h with h | ⟨hn, h⟩ | rfl
  · exact .inl h
  · exact .inr (.inl ⟨hn, h.imp_right fun hv => clientReply_isError hv _ _⟩)
  · exact .inr (.inr rfl)

/-- What the pass finds for a command ahead of authentication is a rejection. -/
theorem Classifies.rejects {k : Classified} (hreq : requireAuth cfg = true)
    (h : Classifies cfg s c k) (hs : s.authed = false) (hknown : Known s c tr)
    (hslow : k ≠ .slow) (hp : k ≠ .panic) : ∃ w, k = .here w ∧ Rejects cfg c w := by
  have hlocal : (localStep cfg s c.argv).2 ≠ none := by
    intro hl
    rw [(localStep_passed hreq hknown hl).1] at hs
    cases hs
  have hne : c.argv ≠ [] := (hknown.resolve_left (by simp [hs])).2
  cases h with
  | slow => exact absurd rfl hslow
  | panic => exact absurd rfl hp
  | send _ hf => exact absurd hf.notLocal hlocal
  | here _ hv =>
    refine ⟨_, rfl, ?_⟩
    cases hv with
    | select =>
      rw [classifySelect, if_pos (by simp [hs])]
      exact .inr (.inr rfl)
    | @answer v _ hl =>
      have hg := localStep_gate hreq s hne
      generalize localStep cfg s c.argv = x at hl hg
      cases hg with
      | pass => cases hl
      | answer ha => simp [hs] at ha
      | reject hv =>
        cases hl
        exact hv
      | auth ha hn => exact .inr (.inl ⟨hn, .inl ha⟩)
      | quit hn => exact .inl (by simp [hn])
      | reset hn => exact .inl (by simp [hn])
    | cross _ hl => exact absurd hl hlocal
    | noNodes hl => exact absurd hl hlocal

theorem Gate.fast (hreq : requireAuth cfg = true) {ks : List Classified}
    (h : Gate cfg T all cs [] s) (hall : all = cs ++ b ++ later) (hsub : b ≠ [] → s.sub = none)
    (hslow : batchSlow cfg s b = false) (hk : ClassifiesAll cfg s b ks)
    (hknown : ∀ pre c post, b = pre ++ c :: post → Known (batchState cfg s pre) c tr)
    (hrun : (execFastPipeline cfg (batchState cfg s b) b ks).Runs tr r) :
    (∀ e ∈ tr, GateEvent cfg T all e) ∧ r.1 = batchState cfg s b := by
  have hfront : ∀ pre c post, b = pre ++ c :: post → all = (cs ++ pre) ++ c :: (post ++ later) := by
    rintro pre c post rfl
    simp [hall]
  have hpass : ∀ pre c post, b = pre ++ c :: post →
      Gate cfg T all (cs ++ pre) [] (batchState cfg s pre) := by
    intro pre c post hb
    exact h.pass hreq (by simpa using hfront pre c post hb) fun _ => hsub (by simp [hb])
  have hsends : Sends anyAnswer (FastSent cfg s b) (fun id v => ∀ i, id = some i →
      ∃ pre d post, all = pre ++ d :: post ∧ d.id = i ∧ (Granted cfg T pre ∨ Rejects cfg d v))
      (fun r => r.1 = batchState cfg s b) (execFastPipeline cfg (batchState cfg s b) b ks) := by
    refine execFastPipeline_answers hk (fun _ _ hi => by cases hi) ?_
    intro pre c post k v hb hmem hclass hv i hi
    cases hi
    refine ⟨cs ++ pre, c, post ++ later, hfront pre c post hb, rfl, ?_⟩
    cases hs : (batchState cfg s pre).authed with
    | true => exact .inl ((hpass pre c post hb).granted_nil hs)
    | false =>
      have hnotslow : k ≠ .slow := by
        rintro rfl
        have hany := hk.slow_eq
        rw [hslow, List.any_eq_false] at hany
        exact hany _ hmem rfl
      have hnotpanic : k ≠ .panic := fun hp => hk.not_panic (hp ▸ hmem)
      obtain ⟨w, rfl, hw⟩ := hclass.rejects hreq hs (hknown pre c post hb) hnotslow hnotpanic
      rw [hv w rfl]
      exact .inr (hw.clientReply _)
  obtain ⟨hev, hr⟩ := hsends.runs hrun fun _ _ => trivial
  refine ⟨fun e he => Foot.mono (hev e he) ?_ fun _ _ hR => hR, hr⟩
  rintro f ⟨pre, c, post, hb, hf⟩ id argv db queued hsrc
  have hfwd : Forwarded cfg (batchState cfg s pre) c ∧ f.src = c.src (batchState cfg s pre) := by
    cases hf with
    | plain hf | raw hf | asking hf => exact ⟨hf, rfl⟩
  rw [hfwd.2] at hsrc
  cases hsrc
  refine ⟨cs ++ pre, c, post ++ later, hfront pre c post hb, rfl,
    (hpass pre c post hb).granted_nil
      (localStep_passed hreq (hknown pre c post hb) hfwd.1.notLocal).1⟩

theorem quiet_gate (h : Quiet tr) : ∀ e ∈ tr, GateEvent cfg T all e :=
  fun e he => (h e he).mono (fun _ hf => hf.elim) fun _ _ hr => hr.elim

/-- A fast batch none of whose groups fails is answered command by command. -/
theorem fast_replied (hcfg : cfg.Valid) {ks : List Classified}
    (hk : ClassifiesAll cfg s b ks) (hno : NoFault tr) {s' : Session}
    (hrun : (execFastPipeline cfg s' b ks).Runs tr r) (hok : r.2 = .ok) :
    Replied cfg T cs b tr := by
  obtain ⟨tr₁, tr₂, rs, rfl, hpar, ⟨herr, -⟩ | ⟨-, hphase⟩⟩ := execFastPipeline_runs hrun
  · exact absurd ((flushGroups_faults hcfg.seeds hpar).2 (noFault_append.1 hno).1) herr
  · intro pre c post hb _
    have hreplies := replyPhase_sat s' b ks _ tr₂ r hphase hok
    have hc : c ∈ b := by simp [hb]
    obtain ⟨i, hi, rfl⟩ := List.mem_iff_getElem.1 hc
    have hik : i < ks.length := by rwa [hk.length_eq]
    have hmem : (b[i], ks[i], i) ∈ b.zip ks.zipIdx := by
      refine List.mem_of_getElem? (i := i) (List.getElem?_zip_eq_some.2 ⟨?_, ?_⟩) <;> simp [hi, hik]
    have hx := List.mem_map_of_mem (f := fun x : ClientCmd × Classified × Nat => (some x.1.id,
      clientReply x.1.name s'.db (replyAt (gatherReplies (nodeGroups (sendItems ks)) (valuesOf rs))
        x.2.1 x.2.2), (none : Option Err))) hmem
    rw [← hreplies] at hx
    exact ⟨_, none, List.mem_append_right _ (mem_replies.1 hx)⟩

/-- **One batch keeps the gate.** -/
theorem Gate.batch (hreq : requireAuth cfg = true) (hcfg : cfg.Valid)
    (h : Gate cfg T all cs [] s) (hall : all = cs ++ b ++ later) (hord : Ordered cfg s b tr)
    (hrun : BatchRun cfg Known s b tr r) (hT : ∀ e ∈ tr, e ∈ T) :
    GateRun cfg T all cs b tr r := by
  cases hrun with
  | @one c _ _ hD hrun =>
    have hgate : Gate cfg T all cs [c] s :=
      ⟨fun hs => .inl (h.granted_nil hs), h.shut, h.queued, h.db⟩
    obtain ⟨hev, hdb, hnext⟩ := hgate.handle hreq (by rw [hall, List.append_assoc]; rfl) hD hrun hT
    exact ⟨hev, fun _ => hdb, hnext, hgate.one hreq hD hrun⟩
  | panic _ hq =>
    exact ⟨quiet_gate hq.quiet, fun hp => absurd rfl hp, fun hok => (by cases hok),
      fun hok => (by cases hok)⟩
  | slow hb hslow hq hseq =>
    have hrest := (h.restart hreq hall hb hslow hord).seq hreq hall hseq fun e he =>
      hT e (List.mem_append_right _ he)
    refine ⟨fun e he => ?_, hrest.db, hrest.gate, fun hok => (hrest.replied hok).mono (by simp)⟩
    exact (List.mem_append.1 he).elim (quiet_gate hq.quiet e) (hrest.events e)
  | fast hb hslow hq hk hD hrun =>
    have hsub : b ≠ [] → s.sub = none := by
      intro hne
      cases b with
      | nil => exact absurd rfl hne
      | cons c b =>
        rw [batchSlow, Bool.or_eq_false_iff] at hslow
        have hhere := hslow.1
        simp only [slowHere, Bool.or_eq_false_iff] at hhere
        simpa using hhere.1.1
    obtain ⟨hev, hr⟩ := h.fast hreq hall hsub hslow hk hD hrun
    have hgate := h.pass hreq hall hsub
    have hno := (noFault_append.1 (hord.fast hb hslow)).2
    refine ⟨fun e he => ?_, fun _ => hr ▸ hgate.db, fun _ => hr ▸ hgate, fun hok => ?_⟩
    · exact (List.mem_append.1 he).elim (quiet_gate hq.quiet e) (hev e)
    · exact (fast_replied hcfg hk hno hrun hok).mono (by simp)

/-- A batch that goes as the conditions say. -/
abbrev OrderedBatch (cfg : Config) : BatchRel := fun s b tr r =>
  Ordered cfg s b tr ∧ BatchRun cfg Known s b tr r

/-- **A run of the loop keeps the gate.** -/
theorem Gate.loop (hreq : requireAuth cfg = true) (hcfg : cfg.Valid)
    {bs : List (List ClientCmd)} (h : Gate cfg T all cs [] s) (hall : all = cs ++ bs.flatten)
    (hrun : LoopRun (OrderedBatch cfg) s bs tr r) (hT : ∀ e ∈ tr, e ∈ T) :
    (∀ e ∈ tr, GateEvent cfg T all e) ∧ (r.2 ≠ .panic → Chosen cfg T all r.1.db) ∧
      (r.2 = .ok → r.1.quit = false →
        Gate cfg T all all [] r.1 ∧ Replied cfg T cs bs.flatten tr) := by
  induction hrun generalizing cs with
  | @nil s =>
    refine ⟨fun _ he => (List.not_mem_nil he).elim, fun _ => h.db, fun _ _ => ⟨?_, .nil⟩⟩
    rwa [show cs = all by simp [hall]] at h
  | quit hq =>
    exact ⟨fun _ he => (List.not_mem_nil he).elim, fun _ => h.db, fun _ hq' => by simp [hq] at hq'⟩
  | cancelled =>
    exact ⟨quiet_gate (quiet_ctxErr _), fun _ => h.db, fun hok => by cases hok⟩
  | stop _ hb ho =>
    have hbatch := h.batch hreq hcfg (hall.trans (List.append_assoc ..).symm) hb.1 hb.2 fun e he =>
      hT e (List.mem_cons_of_mem _ he)
    refine ⟨fun e he => ?_, hbatch.db, fun hok => absurd hok ho⟩
    rcases List.mem_cons.1 he with rfl | he
    · trivial
    · exact hbatch.events e he
  | @step s s' b bs tr tr' r _ hb _ ih =>
    have hbatch := h.batch hreq hcfg (hall.trans (List.append_assoc ..).symm) hb.1 hb.2 fun e he =>
      hT e (List.mem_append_left _ (List.mem_cons_of_mem _ he))
    obtain ⟨hev, hdb, hend⟩ := ih (hbatch.gate rfl) (by simp [hall]) fun e he =>
      hT e (List.mem_append_right _ he)
    refine ⟨fun e he => ?_, hdb, fun hok hq => ⟨(hend hok hq).1, ?_⟩⟩
    · rcases List.mem_append.1 he with he | he
      · rcases List.mem_cons.1 he with rfl | he
        · trivial
        · exact hbatch.events e he
      · exact hev e he
    · refine Replied.append ((hbatch.replied rfl).mono ?_) ((hend hok hq).2.mono (by simp))
      exact fun e he => List.mem_append_left _ (List.mem_cons_of_mem _ he)

/-! ## Whole runs -/

/-- What a run owes a client that has to authenticate, in the order of its commands `all`:
what is sent and what is selected goes back to authorised commands, commands ahead of
authentication are rejected, and without authentication the session stays a new one. -/
structure Gated (cfg : Config) (all : List ClientCmd) (tr : Trace) (r : Session × Outcome) :
    Prop where
  sent : ∀ conn f, (conn, f) ∈ written tr → ∀ id argv db queued,
    f.src = .client id argv db queued → Authorised cfg tr all id
  answered : ∀ pre c post, all = pre ++ c :: post → ¬ Granted cfg tr pre →
    ∀ v x, (⟨.cwrite (some c.id) v, x⟩ : Event) ∈ tr → Rejects cfg c v
  replied : r.2 = .ok → r.1.quit = false → Replied cfg tr [] all tr
  selected : r.2 ≠ .panic → Chosen cfg tr all r.1.db
  untouched : r.2 = .ok → r.1.quit = false → ¬ Granted cfg tr all → Initial cfg r.1

/-- Commands with different numbers stand in one place. -/
theorem place_unique {pre post pre' post' : List ClientCmd} {c d : ClientCmd}
    (hids : ((pre' ++ d :: post').map ClientCmd.id).Nodup)
    (h : pre' ++ d :: post' = pre ++ c :: post) (hid : d.id = c.id) : pre' = pre ∧ d = c := by
  have hd : d = c := List.inj_on_of_nodup_map hids (by simp) (by simp [h]) hid
  subst hd
  have hnd : (pre' ++ d :: post').Nodup := hids.of_map _
  refine ⟨?_, rfl⟩
  rcases List.append_eq_append_iff.1 h with ⟨as, rfl, has⟩ | ⟨as, rfl, has⟩
  · cases as with
    | nil => simp
    | cons a as =>
      cases has
      simp [List.nodup_append] at hnd
  · cases as with
    | nil => simp
    | cons a as =>
      cases has
      simp [List.nodup_append] at hnd

theorem newSession_gate {T : Trace} {all : List ClientCmd} (hreq : requireAuth cfg = true) :
    Gate cfg T all [] [] (newSession cfg) where
  granted hs := by simp [newSession, hreq] at hs
  shut _ := rfl
  queued _ hq := (List.not_mem_nil hq).elim
  db := .inl rfl

/-- **In a run in which no command of a slow batch is handled with the credentials of a
later one, no group of a fast batch fails, and neither `COMMAND` nor an empty command comes
to an unauthenticated session, commands count only behind authentication.** -/
theorem gated_of_ordered {bs : List (List ClientCmd)} (hcfg : cfg.Valid)
    (hreq : requireAuth cfg = true) (hids : (bs.flatten.map ClientCmd.id).Nodup)
    (hrun : RunsBy cfg (OrderedBatch cfg) bs tr r) : Gated cfg bs.flatten tr r := by
  obtain ⟨tr₁, tr₂, hloop, hclose, rfl⟩ := hrun
  obtain ⟨hev₁, hdb, hend⟩ := (newSession_gate (T := tr₁ ++ tr₂) hreq).loop hreq hcfg rfl hloop
    fun e he => List.mem_append_left _ he
  have hev : ∀ e ∈ tr₁ ++ tr₂, GateEvent cfg (tr₁ ++ tr₂) bs.flatten e := by
    intro e he
    rcases List.mem_append.1 he with he | he
    · exact hev₁ e he
    · exact quiet_gate (Silent.quiet (closeDown_silent r) hclose).1 e he
  refine ⟨?_, ?_, fun hok hq => (hend hok hq).2.mono (by simp), hdb, ?_⟩
  · intro conn f hf id argv db queued hsrc
    obtain ⟨fs, x, he, hmem⟩ := mem_written.1 hf
    exact hev _ he f hmem id argv db queued hsrc
  · intro pre c post hall hgr v x he
    obtain ⟨pre', d, post', hall', hid, hd⟩ := hev _ he c.id rfl
    obtain ⟨rfl, rfl⟩ := place_unique (hall' ▸ hids) (hall'.symm.trans hall) hid
    exact hd.resolve_left hgr
  · intro hok hq hgr
    obtain ⟨hgate, -⟩ := hend hok hq
    exact hgate.shut (Bool.eq_false_iff.2 fun hs => hgr (hgate.granted_nil hs))

/-- A configuration with a client password. -/
def guarded : Config := { seeded with clientAuthPassword := lit "pw" }

theorem guarded_valid : guarded.Valid := ⟨by decide, by decide, by decide, by decide⟩

/-- A client that reads before and after it authenticates, one command at a time. -/
def readAuthRead : List (List ClientCmd) :=
  [[command 0 ["GET", "k"]], [command 1 ["AUTH", "pw"]], [command 2 ["GET", "k"]]]

theorem gated_of_ordered_readAuthRead : ∃ tr r,
    RunsBy guarded (OrderedBatch guarded) readAuthRead tr r ∧
      Gated guarded readAuthRead.flatten tr r := by
  have hrun := scripted_runs (fun _ => calm fun _ => plusOK)
    (run guarded (newSession guarded) readAuthRead)
  have hsingle : ∀ b ∈ readAuthRead, ∃ c, b = [c] ∧ c.name ≠ "COMMAND" ∧ c.argv ≠ [] := by
    intro b hb
    simp only [readAuthRead, List.mem_cons, List.not_mem_nil, or_false] at hb
    rcases hb with rfl | rfl | rfl <;> exact ⟨_, rfl, by decide, by decide⟩
  have hbatch : ∀ b ∈ readAuthRead, ∀ s tr r, Handles guarded s b tr r →
      OrderedBatch guarded s b tr r := by
    intro b hb s tr r h
    obtain ⟨c, rfl, hc⟩ := hsingle b hb
    exact ⟨⟨fun hlen => absurd rfl hlen, fun hlen => absurd rfl hlen⟩, .one (.inr hc) h⟩
  have hordered := (run_runs.1 hrun).mono hbatch
  exact ⟨_, _, hordered, gated_of_ordered guarded_valid (by decide) (by decide) hordered⟩

/-- A client that sends a read, its password and a `MULTI` in one piece. -/
def readBeforeAuth : List (List ClientCmd) :=
  [[command 0 ["GET", "k"], command 1 ["AUTH", "pw"], command 2 ["MULTI"]]]

/-- The read goes to a backend, with the credentials of the command behind it. -/
theorem late_auth_admits_read :
    ¬ ∀ tr r, (run guarded (newSession guarded) readBeforeAuth).Runs tr r →
      Gated guarded readBeforeAuth.flatten tr r := by
  intro h
  have hgated := h _ _ (scripted_runs (fun _ => calm fun _ => plusOK)
    (run guarded (newSession guarded) readBeforeAuth))
  have hsent : (0, { argv := (command 0 ["GET", "k"]).argv, raw := (command 0 ["GET", "k"]).raw,
                     src := (command 0 ["GET", "k"]).src (newSession guarded) }) ∈
      written (scripted (fun _ => calm fun _ => plusOK)
        (run guarded (newSession guarded) readBeforeAuth)).2 := by decide +kernel
  obtain ⟨pre, d, post, hall, hid, hgr⟩ := hgated.sent _ _ hsent _ _ _ _ rfl
  have hpre : pre = [] := by
    have hfront : pre ++ d :: post = [] ++ command 0 ["GET", "k"] ::
        [command 1 ["AUTH", "pw"], command 2 ["MULTI"]] := hall.symm
    exact (place_unique (hall ▸ by decide) hfront hid).1
  rw [hpre] at hgr
  obtain ⟨_, _, _, hnil, -⟩ := hgr
  simp at hnil

end RespProxy.Proxy
