import RespProxy.Proxy.Replies

/-! # The replies of a fast batch, back in the client's order

A fast batch goes out as one write for each node, and its node groups finish in
any order. Without faults and redirects nothing is lost or mixed up on the way:
every address is sent the frames of its own commands, once and in the client's
order (`GroupRun`), and at the place of a command stands the answer to its frame
(`execFastPipeline_demux`).
-/

namespace RespProxy.Proxy

open Interact Cluster Command Resp

variable {cfg : Config}
variable {rs : List (Except Err (List Value))} {gs : List (Addr × List SendItem)}
  {r : Except Err (List Value)} {its : List SendItem} {tr : Trace}

/-- What a node group did: the commands it sent on one connection, and an answer for each. -/
structure GroupRun where
  addr : Addr
  items : List SendItem
  conn : ConnId
  answers : List Value
  answered : answers.length = items.length

/-- A read of `flushGroup`. -/
def readEvent (conn : ConnId) (x : SendItem × Value) : Event := ⟨.read conn x.1.frame, .ok x.2⟩

/-- The requests of a node group: all its frames in one write, then the answers. -/
def GroupRun.events (cfg : Config) (g : GroupRun) : Trace :=
  ⟨.get (rewriteAddr cfg g.addr) false, .ok g.conn⟩ ::
    ⟨.write g.conn (g.items.map SendItem.frame), none⟩ ::
      ((g.items.zip g.answers).map (readEvent g.conn) ++ [⟨.put g.conn, ()⟩])

/-- `v` is the answer of the group to its item `it`. -/
def GroupRun.Answers (g : GroupRun) (it : SendItem) (v : Value) : Prop :=
  ∃ j : Nat, g.items[j]? = some it ∧ g.answers[j]? = some v

/-- No reply that was read is a redirect. -/
def Unredirected (tr : Trace) : Prop :=
  ∀ c f v, ⟨.read c f, .ok v⟩ ∈ tr → redirectOf v = none

/-! ## One node group -/

theorem readReplies_answers {conn : ConnId} (h : (readReplies conn its).Runs tr r)
    (hno : NoFault tr) :
    ∃ vs, r = .ok vs ∧ vs.length = its.length ∧ tr = (its.zip vs).map (readEvent conn) := by
  induction its generalizing tr r with
  | nil =>
    obtain ⟨rfl, rfl⟩ := h
    exact ⟨[], rfl, rfl, rfl⟩
  | cons it its ih =>
    obtain ⟨x, tr', rfl, hrest⟩ := h
    cases x with
    | error e => exact absurd trivial (noFault_cons.1 hno).1
    | ok v =>
      obtain ⟨t, y, t', hread, hret, rfl⟩ := Prog.runs_bind.1
        (show ((readReplies conn its).bind _).Runs _ _ from hrest)
      obtain ⟨vs, rfl, hlen, rfl⟩ := ih hread (noFault_append.1 (noFault_cons.1 hno).2).1
      obtain ⟨rfl, rfl⟩ := hret
      refine ⟨v :: vs, rfl, congrArg Nat.succ hlen, ?_⟩
      rw [List.append_nil]
      rfl

/-- Where nothing redirects, the redirect loop changes nothing. -/
theorem followRedirects_none {rest : List (SendItem × Value)}
    (hnone : ∀ x ∈ rest, redirectOf x.2 = none) :
    followRedirects cfg rest = pure (.ok (rest.map Prod.snd)) := by
  induction rest with
  | nil => rfl
  | cons x rest ih =>
    have hone : followOne cfg x.1 x.2 = pure (.ok x.2) := by
      rw [followOne, hnone x List.mem_cons_self]
    rw [followRedirects, hone, ih fun y hy => hnone y (List.mem_cons_of_mem _ hy)]
    rfl

theorem flushGroup_groupRun {addr : Addr} (h : (flushGroup cfg addr its).Runs tr r)
    (hno : NoFault tr)
    (hred : Unredirected tr) :
    ∃ g : GroupRun, (addr, its) = (g.addr, g.items) ∧ tr = g.events cfg ∧ r = .ok g.answers := by
  obtain ⟨x, tr', rfl, hrest⟩ := h
  cases x with
  | error e => exact absurd trivial (noFault_cons.1 hno).1
  | ok conn =>
    obtain ⟨y, tr'', rfl, hrest'⟩ := hrest
    cases y with
    | some e => exact absurd trivial (noFault_cons.1 (noFault_cons.1 hno).2).1
    | none =>
      obtain ⟨t, z, t', hread, hput, rfl⟩ := Prog.runs_bind.1
        (show ((readReplies conn its).bind _).Runs _ _ from hrest')
      have hno' := (noFault_append.1 (noFault_cons.1 (noFault_cons.1 hno).2).2).1
      obtain ⟨vs, rfl, hlen, rfl⟩ := readReplies_answers hread hno'
      -- the answers are among the events, so none is followed
      have hnone : ∀ x ∈ its.zip vs, redirectOf x.2 = none := by
        intro x hx
        refine hred conn x.1.frame x.2 ?_
        exact List.mem_cons_of_mem _ (List.mem_cons_of_mem _
          (List.mem_append_left _ (List.mem_map.2 ⟨x, hx, rfl⟩)))
      obtain ⟨_, t'', rfl, hfollow⟩ := hput
      rw [followRedirects_none hnone, List.map_snd_zip (Nat.le_of_eq hlen)] at hfollow
      obtain ⟨rfl, rfl⟩ := hfollow
      exact ⟨⟨addr, its, conn, vs, hlen⟩, rfl, rfl, rfl⟩

/-! ## All node groups -/

/-- The groups with their traces and results, as one list. -/
theorem exists_groupRuns {trs : List Trace} (htrs : trs.length = gs.length)
    (hrs : rs.length = gs.length)
    (h : ∀ (i : Nat) g l r, gs[i]? = some g → trs[i]? = some l → rs[i]? = some r →
      ∃ x : GroupRun, g = (x.addr, x.items) ∧ l = x.events cfg ∧ r = .ok x.answers) :
    ∃ xs : List GroupRun, gs = xs.map (fun x => (x.addr, x.items)) ∧
      trs = xs.map (GroupRun.events cfg) ∧ rs = xs.map fun x => .ok x.answers := by
  induction gs generalizing trs rs with
  | nil =>
    obtain rfl := List.length_eq_zero_iff.1 htrs
    obtain rfl := List.length_eq_zero_iff.1 hrs
    exact ⟨[], rfl, rfl, rfl⟩
  | cons g gs ih =>
    obtain ⟨l, trs, rfl⟩ := List.exists_cons_of_length_eq_add_one htrs
    obtain ⟨r, rs, rfl⟩ := List.exists_cons_of_length_eq_add_one hrs
    obtain ⟨x, rfl, rfl, rfl⟩ := h 0 g l r rfl rfl rfl
    obtain ⟨xs, rfl, rfl, rfl⟩ := ih (Nat.succ.inj htrs) (Nat.succ.inj hrs) fun i => h (i + 1)
    exact ⟨x :: xs, rfl, rfl, rfl⟩

theorem flushGroups_groupRuns
    (h : (Prog.parList (gs.map fun g => flushGroup cfg g.1 g.2)).Runs tr rs) (hno : NoFault tr)
    (hred : Unredirected tr) :
    ∃ xs : List GroupRun, gs = xs.map (fun x => (x.addr, x.items)) ∧
      Shuffle (xs.map (GroupRun.events cfg)) tr ∧ rs = xs.map fun x => .ok x.answers := by
  have hgroup : ∀ g ∈ gs, (flushGroup cfg g.1 g.2).Sat fun l r => NoFault l → Unredirected l →
      ∃ x : GroupRun, g = (x.addr, x.items) ∧ l = x.events cfg ∧ r = .ok x.answers :=
    fun g _ l r hrun => flushGroup_groupRun hrun
  obtain ⟨trs, hs, htrs, hrs, hall⟩ := Prog.sat_parList hgroup tr rs h
  -- the events of a group are events of the whole, so nothing failed or redirected there either
  have hsub : ∀ (i : Nat) (l : Trace), trs[i]? = some l → ∀ e ∈ l, e ∈ tr :=
    fun i l hl e he => (hs.mem_iff e).2 ⟨l, List.mem_of_getElem? hl, he⟩
  obtain ⟨xs, rfl, rfl, rfl⟩ := exists_groupRuns htrs hrs fun i g l r hg hl hr =>
    hall i g l r hg hl hr (fun e he => hno e (hsub i l hl e he))
      fun c f v he => hred c f v (hsub i l hl _ he)
  exact ⟨xs, rfl, hs, rfl⟩

theorem errorsOf_groupRuns (xs : List GroupRun) :
    errorsOf (xs.map fun x => (.ok x.answers : Except Err (List Value))) = [] := by
  refine errorsOf_eq_nil.2 fun r hr => ?_
  obtain ⟨x, _, rfl⟩ := List.mem_map.1 hr
  exact ⟨x.answers, rfl⟩

theorem valuesOf_groupRuns (xs : List GroupRun) :
    valuesOf (xs.map fun x => (.ok x.answers : Except Err (List Value))) =
      xs.map GroupRun.answers := by
  induction xs with
  | nil => rfl
  | cons x xs ih => exact congrArg (x.answers :: ·) ih

/-- Each item of each group stands against the answer to it. -/
theorem forall₂_groupRuns (xs : List GroupRun) :
    List.Forall₂ (fun g vs => List.Forall₂ (fun it v => ∃ x ∈ xs, x.Answers it v) g.2 vs)
      (xs.map fun x => (x.addr, x.items)) (xs.map GroupRun.answers) := by
  rw [List.forall₂_map_left_iff, List.forall₂_map_right_iff, List.forall₂_same]
  intro x hx
  refine List.forall₂_iff_get.2 ⟨x.answered.symm, fun j hj hj' => ⟨x, hx, j, ?_⟩⟩
  exact ⟨List.getElem?_eq_getElem hj, List.getElem?_eq_getElem hj'⟩

/-- **What a fast batch sends and collects.** Without faults and redirects, whatever order
the node groups finish in: there is one group for each address of a command that is sent;
it writes the frames of the commands for that address, in the client's order and each once,
and reads an answer to each; and the value collected for a command is the answer the proxy
had for it, or that of its group to its frame. -/
theorem execFastPipeline_demux {s : Session} {b : List ClientCmd} {ks : List Classified}
    {tr : Trace} {r : Session × Outcome} (hrun : (execFastPipeline cfg s b ks).Runs tr r)
    (hno : NoFault tr) (hred : Unredirected tr) :
    ∃ (groups : List GroupRun) (tr₁ tr₂ : Trace) (collected : List (Nat × Value)),
      tr = tr₁ ++ tr₂ ∧ Shuffle (groups.map (GroupRun.events cfg)) tr₁ ∧
      (groups.map GroupRun.addr).Nodup ∧
      (∀ addr, addr ∈ groups.map GroupRun.addr ↔ ∃ it ∈ sendItems ks, it.addr = addr) ∧
      (∀ g ∈ groups, g.items = (sendItems ks).filter fun it => it.addr = g.addr) ∧
      (replyPhase s b ks collected).Runs tr₂ r ∧
      ∀ (i : Nat) k, ks[i]? = some k →
        (∀ v, k = .here v → replyAt collected k i = v) ∧
        ∀ slot addr frame read, k = .send slot addr frame read →
          ∃ g ∈ groups,
            g.Answers { idx := i, slot, addr, frame, read } (replyAt collected k i) := by
  obtain ⟨tr₁, tr₂, rs, rfl, hpar, hend⟩ := execFastPipeline_runs hrun
  obtain ⟨xs, hgroups, hshuffle, rfl⟩ := flushGroups_groupRuns hpar (noFault_append.1 hno).1
    fun c f v he => hred c f v (List.mem_append_left _ he)
  have hphase := (hend.resolve_left fun hbad => hbad.1 (errorsOf_groupRuns xs)).2
  rw [valuesOf_groupRuns] at hphase
  have haddrs : xs.map GroupRun.addr = (nodeGroups (sendItems ks)).map Prod.fst := by
    rw [hgroups, List.map_map]
    rfl
  refine ⟨xs, tr₁, tr₂, _, rfl, hshuffle, ?_, ?_, ?_, hphase, ?_⟩
  · rw [haddrs]
    exact Group.nodup_keys _ _
  · intro addr
    rw [haddrs]
    constructor
    · intro haddr
      obtain ⟨g, hg, rfl⟩ := List.mem_map.1 haddr
      exact (Group.mem_groupBy.1 hg).1
    · rintro ⟨it, hit, rfl⟩
      obtain ⟨g, hg, haddr⟩ := Group.exists_group (f := SendItem.addr) hit
      exact List.mem_map.2 ⟨g, hg, haddr⟩
  · intro x hx
    have hgroup : (x.addr, x.items) ∈ nodeGroups (sendItems ks) := by
      rw [hgroups]
      exact List.mem_map.2 ⟨x, hx, rfl⟩
    exact (Group.mem_groupBy.1 hgroup).2
  · intro i k hk
    refine ⟨fun v hv => by rw [hv]; rfl, fun slot addr frame read hsend => ?_⟩
    subst hsend
    -- the index of a command leads to its group and, there, to the answer at its place
    have hvalues := forall₂_groupRuns xs
    rw [← hgroups] at hvalues
    obtain ⟨w, hlookup, x, hx, hanswers⟩ := lookup_gatherReplies hvalues hk
    refine ⟨x, hx, ?_⟩
    simpa only [replyAt, hlookup, Option.getD_some] using hanswers

/-- Commands for two nodes, and one the proxy answers itself between them. -/
def mixedBatch : List Classified :=
  [.send 0 "10.0.0.1:6379" { argv := [arg "GET", arg "a"], src := .refresh } true,
    .here plusOK,
    .send 1 "10.0.0.2:6379" { argv := [arg "GET", arg "b"], src := .refresh } true,
    .send 2 "10.0.0.1:6379" { argv := [arg "GET", arg "c"], src := .refresh } true]

/-- A node that answers with the last argument of a command. -/
def echoLast (f : Frame) : Value := bulkString (f.argv.getLastD .nil)

theorem redirectOf_echoLast (f : Frame) : redirectOf (echoLast f) = none := by
  unfold echoLast
  cases f.argv.getLastD .nil <;> rfl

theorem execFastPipeline_demux_mixed :
    ∃ tr r, (execFastPipeline seeded (newSession seeded) [] mixedBatch).Runs tr r ∧
      ∃ groups : List GroupRun, (groups.map GroupRun.addr).Nodup ∧
        "10.0.0.1:6379" ∈ groups.map GroupRun.addr ∧
        ∀ g ∈ groups, g.items = (sendItems mixedBatch).filter fun it => it.addr = g.addr := by
  have hrun := scripted_runs (fun _ => calm echoLast)
    (execFastPipeline seeded (newSession seeded) [] mixedBatch)
  have hno : NoFault _ := scripted_events (fun _ => calm echoLast)
    (fun _ o => by cases o <;> exact fun h => h)
    (execFastPipeline seeded (newSession seeded) [] mixedBatch)
  have hred : Unredirected (scripted (fun _ => calm echoLast)
      (execFastPipeline seeded (newSession seeded) [] mixedBatch)).2 := by
    intro c f v he
    have hread := scripted_events (fun _ => calm echoLast)
      (P := fun e => ∀ c f v, e = ⟨.read c f, .ok v⟩ → redirectOf v = none)
      (by rintro _ _ c f v ⟨⟩; exact redirectOf_echoLast f) _ _ he
    exact hread c f v rfl
  obtain ⟨groups, _, _, _, -, -, hnodup, haddrs, hitems, -⟩ :=
    execFastPipeline_demux hrun hno hred
  exact ⟨_, _, hrun, groups, hnodup, (haddrs _).2 ⟨_, List.mem_cons_self, rfl⟩, hitems⟩

end RespProxy.Proxy
