import RespProxy.Backend.Site
import RespProxy.Command.Patterns
import RespProxy.Proxy.Panic
import RespProxy.Proxy.Redirect

/-! # A fast batch and its commands one by one

A fast batch classifies all its commands, sends them to their nodes in one piece each and
writes the replies at the end. On a cluster at rest (`Site`) the nodes answer as they do
when `handle` sends the commands one after the other, and the session ends in the same
state. What differs is the database that the replies are translated back with: `handle`
takes the one of the command, and the batch the last one of all.
-/

namespace RespProxy.Proxy

open Backend Cluster Command Resp Interact

variable {cfg : Config} {site : Site} {s : Session} {c : ClientCmd}
variable {v : Value} {argv : Argv} {addr : Addr}

/-! ## What is found for a command -/

/-- What `classifyPipe` finds for a command when the layout is that of the site. -/
inductive Deals (site : Site) (cfg : Config) (s : Session) (c : ClientCmd) : Classified → Prop where
  | slow : Deals site cfg s c .slow
  | panic : Deals site cfg s c .panic
  | select (hsub : s.sub = none) (hn : c.name = "SELECT") :
      Deals site cfg s c (.here (classifySelect cfg s c).2)
  | answer {v : Value} (hsub : s.sub = none) (hslow : pipelineSlow c = false)
      (hn : c.name ≠ "SELECT") (hl : (localStep cfg s c.argv).2 = some v) :
      Deals site cfg s c (.here v)
  | cross {argv : Argv} {keys : List Slice} (hf : Forwarded cfg s c)
      (ha : rewriteArgv c.argv s.db = some argv) (hk : extractKeys argv = some keys)
      (hx : crossSlot cfg keys = true) (hfan : fanoutOf argv = .none) :
      Deals site cfg s c (.here errCross)
  | send {argv : Argv} {keys : List Slice} {addr : Addr} (hf : Forwarded cfg s c)
      (ha : rewriteArgv c.argv s.db = some argv) (hk : extractKeys argv = some keys)
      (hx : crossSlot cfg keys = false)
      (hr : site.route cfg ((keys.head?.map (slotOf cfg)).getD 0) false = some addr) :
      Deals site cfg s c (.send ((keys.head?.map (slotOf cfg)).getD 0) addr
        (frameFor argv (if s.db > 0 then [] else c.raw) (c.src s))
        (decide (kindOf (nameOf c.argv) = .read)))

theorem classifyPipe_deals (hcfg : cfg.Valid) (s : Session) (c : ClientCmd) :
    Idle site.Allows (fun r => r.1 = classifyState cfg s c ∧ Deals site cfg s c r.2)
      (classifyPipe cfg s c) := by
  refine (classifyPipe_found (fun slot => owner_site site cfg slot false) s c).mono
    (fun _ _ he => he) ?_
  rintro ⟨s', k⟩ ⟨hs', hfound⟩
  refine ⟨hs', ?_⟩
  cases hfound with
  | slow => exact .slow
  | panic => exact .panic
  | select h hn => exact .select (fast_of_slowHere h).1 hn
  | answer h hn hl => exact .answer (fast_of_slowHere h).1 (fast_of_slowHere h).2 hn hl
  | cross _ hf ha hk hx hfan => exact .cross hf ha hk hx hfan
  | send _ hf ha hk hx ho => exact .send hf ha hk hx ho.symm
  | @noNodes slot _ _ ho =>
    obtain ⟨addr, haddr⟩ := site.exists_route hcfg slot false
    rw [haddr] at ho
    cases ho

/-! ## Replies of the proxy itself -/

/-- The names of commands whose replies are translated back. -/
def strippedNames : List String :=
  ["KEYS", "SCAN", "RANDOMKEY", "BLPOP", "BRPOP", "BZPOPMIN", "BZPOPMAX", "LMPOP", "BLMPOP",
    "ZMPOP", "BZMPOP", "XREAD", "XREADGROUP"]

theorem stripReplyKeys_other {name : String} (h : name ∉ strippedNames) (db : Nat) (v : Value) :
    stripReplyKeys name db v = v := by
  simp only [strippedNames, List.mem_cons, List.not_mem_nil, or_false, not_or] at h
  simp [stripReplyKeys, h]

/-- What the proxy answers itself is not changed any more. -/
theorem clientReply_own {name : String} (hv : redirects v = false)
    (hn : v.isError = true ∨ name ∉ strippedNames) (db : Nat) : clientReply name db v = v := by
  unfold clientReply
  split
  · exact if_neg (by rw [← redirects, hv]; simp)
  · rename_i herr
    exact stripReplyKeys_other (hn.resolve_left herr) db v

theorem Local.own {s' : Session} (h : Local cfg s argv (s', some v)) :
    v.isError = true ∨ nameOf argv ∉ strippedNames := by
  have hnames : ∀ w ∈ localNames, w ∉ strippedNames := by decide
  cases h with
  | noAuth => exact .inl rfl
  | answer hn => exact .inr (hnames _ hn)
  | auth hn => exact .inr (hnames _ (List.Sublist.subset (by decide) hn))
  | quit hn | reset _ hn =>
    rw [hn]
    exact .inr (by decide)

theorem selectStep_eq (hmulti : s.multi = false) : selectStep cfg s c = classifySelect cfg s c := by
  unfold selectStep classifySelect
  split
  · rfl
  · cases selectDB cfg c.argv with
    | error v => rfl
    | ok db => exact if_neg (by simp [hmulti])

/-- A command that is not answered here is none of the local ones. -/
theorem Local.passed {r : Session × Option Value} (h : Local cfg s argv r)
    (hr : r.2 = none) : argv = [] ∨ nameOf argv ∉ localNames := by
  cases h with
  | pass hn => exact hn
  | _ => cases hr

/-- What is answered here needs no translation. -/
theorem Deals.clientReply_here (h : Deals site cfg s c (.here v))
    (hmulti : s.multi = false) (db : Nat) : clientReply c.name db v = v := by
  generalize hk : Classified.here v = k at h
  cases h with
  | slow | panic | send => cases hk
  | select _ hn =>
    cases hk
    rw [hn, ← selectStep_eq hmulti]
    exact clientReply_own (selectStep_own s c) (.inr (by decide)) db
  | answer _ _ _ hl =>
    cases hk
    have hne : c.argv ≠ [] := by
      intro hc
      rw [hc] at hl
      cases hl
    rw [ClientCmd.name_of_ne hne]
    refine clientReply_own (localStep_value s c.argv _ hl).own ?_ db
    have hlocal := localStep_local cfg s c.argv
    rw [localStep_eq_some hl] at hlocal
    exact hlocal.own
  | cross =>
    cases hk
    exact clientReply_own (by decide) (.inl rfl) db

/-! ## One command -/

/-- A command that a fast batch sends is forwarded when it comes alone. -/
theorem Forwarded.handle_eq (hf : Forwarded cfg s c) (hmulti : s.multi = false) :
    handle cfg s c = forward cfg s c := by
  have hslow : ∀ w ∈ slowNames, c.name ≠ w := fun w hw => name_ne_of_not_slow hf.notSlow hw
  -- the names that `handle` has code for are all slow
  have hown : c.name ∉ ownCommands := by
    intro hmem
    have hall : ∀ w ∈ ownCommands, w ∈ slowNames := by decide
    exact hslow _ (hall _ hmem) rfl
  have hreset : ¬ (c.argv ≠ [] ∧ nameOf c.argv = "RESET") := by
    rintro ⟨hne, hn⟩
    have hnot := ((localStep_local cfg s c.argv).passed hf.notLocal).resolve_left hne
    exact hnot (by simp [hn, localNames])
  unfold handle
  rw [hf.sub]
  dsimp only
  rw [if_neg hf.notSelect, handleLocal, if_neg hreset,
    localStep_eq_none hf.notLocal]
  show handleRemote cfg s c = _
  rw [handleRemote, if_neg (hslow _ (by decide)), if_neg (hslow _ (by decide)),
    if_neg (hslow _ (by decide)), if_neg (hslow _ (by decide)), if_neg (hslow _ (by decide)),
    hmulti, if_neg (by simp), if_neg hf.nonempty, dispatch_forward hf.nonempty hown]

section

variable {served : Addr → List Bytes} {told : List Bytes} {k : Classified}

/-- A command on its own that is sent. -/
theorem forward_at {keys : List Slice} (hcfg : cfg.Valid)
    (hslow : pipelineSlow c = false) (ha : rewriteArgv c.argv s.db = some argv)
    (hk : extractKeys argv = some keys) (hx : crossSlot cfg keys = false)
    (hr : site.route cfg ((keys.head?.map (slotOf cfg)).getD 0)
      (decide (kindOf (nameOf c.argv) = .read)) = some addr) {f : Frame}
    (hf : f = frameFor argv (if s.db > 0 then [] else c.raw) (c.src s)) :
    Triple Eq site.Acts (Exchange.At served told) (forward cfg s c) fun r w => r = (s, .ok) ∧
      w.At (Function.update served (rewriteAddr cfg addr)
          (served (rewriteAddr cfg addr) ++ [f.bytes]))
        (told ++ [encode (clientReply c.name s.db
          (site.answer (rewriteAddr cfg addr) (served (rewriteAddr cfg addr)) f.bytes).1)]) := by
  -- `handle` looks at the translated command, the batch at what the client sent
  have hblock : isBlocking f.argv = false := by
    rw [hf]
    refine isBlocking_rewriteArgv ha ?_
    rw [pipelineSlow, Bool.or_eq_false_iff] at hslow
    exact hslow.1
  have hmaster : Idle site.Allows (fun _ => True) (keylessMaster cfg keys) := by
    unfold keylessMaster
    split
    · exact (anyMaster_idle cfg).bind fun _ _ => trivial
    · trivial
  unfold forward
  rw [ha]
  dsimp only
  rw [hk]
  dsimp only
  rw [if_neg (by simp [hx]), ← hf]
  refine (triple_lookup hmaster (stable_eq _)).bind fun _ => ?_
  refine Triple.mono (P := Exchange.At served told) ?_ (fun _ h => h.1) fun _ _ h => h
  have hname : nameOf f.argv = nameOf c.argv := by
    rw [hf]
    exact nameOf_rewriteArgv ha
  rw [sendOne, if_neg (by simp [hblock]), hname]
  refine (exec_at hcfg hr f).bind fun r => triple_pure (fun _ h => h) ?_
  rintro rfl
  exact finish_at s c.id _

/-- One command on its own. -/
theorem Deals.handle_at (hd : Deals site cfg s c k) (hcfg : cfg.Valid) (hmulti : s.multi = false)
    (hslow : k ≠ .slow) (hpanic : k ≠ .panic) (halone : site.AsAlone cfg k) :
    Triple Eq site.Acts (Exchange.At served told) (handle cfg s c) fun r w =>
      r = (classifyState cfg s c, .ok) ∧ w.At (servedAfter cfg served k)
        (told ++ [encode (clientReply c.name s.db (site.rawReply cfg served k))]) := by
  -- a forwarded command leaves the session alone
  have hstate : Forwarded cfg s c → classifyState cfg s c = s := by
    intro hf
    rw [classifyState, if_neg (by simp [hf.sub, hf.notSlow]), if_neg hf.notSelect]
    exact localStep_none hf.notLocal
  have hhere : ∀ v, k = .here v → clientReply c.name s.db (site.rawReply cfg served k) = v := by
    rintro v rfl
    exact hd.clientReply_here hmulti s.db
  cases hd with
  | slow => exact absurd rfl hslow
  | panic => exact absurd rfl hpanic
  | select hsub hn =>
    have hstep : classifyState cfg s c = (classifySelect cfg s c).1 := by
      rw [classifyState, if_neg (by simp [hsub, pipelineSlow_of_name (c := c) (by simp [hn])]),
        if_pos hn]
    rw [hhere _ rfl, hstep, ← selectStep_eq hmulti, handle, hsub]
    dsimp only
    rw [if_pos hn]
    exact finish_at _ c.id _
  | answer hsub hnot hn hl =>
    have hstep : classifyState cfg s c = (localStep cfg s c.argv).1 := by
      rw [classifyState, if_neg (by simp [hsub, hnot]), if_neg hn]
    rw [hhere _ rfl, hstep, handle, hsub]
    dsimp only
    rw [if_neg hn]
    refine (triple_lookup (handleLocal_idle s c.argv) (stable_eq _)).bind fun r =>
      triple_pure (fun _ h => And.comm.1 h) ?_
    rintro rfl
    rw [localStep_eq_some hl]
    exact finish_at _ c.id _
  | cross hf ha hk hx hfan =>
    rw [hhere _ rfl, hstate hf, hf.handle_eq hmulti, forward, ha]
    dsimp only
    rw [hk]
    dsimp only
    rw [if_pos hx, if_neg (by simp [hfan])]
    exact finish_at s c.id _
  | send hf ha hk hx hr =>
    rw [hstate hf, hf.handle_eq hmulti]
    refine forward_at hcfg hf.notSlow ha hk hx ?_ rfl
    -- the batch asks for a master whatever the command does
    cases hread : decide (kindOf (nameOf c.argv) = .read) with
    | true =>
      rw [hread] at halone
      exact halone
    | false => exact hr

end

/-! ## All commands one by one -/

theorem classifyState_multi (h : s.multi = false) : (classifyState cfg s c).multi = false := by
  unfold classifyState
  split
  · exact h
  split
  · unfold classifySelect
    split
    · exact h
    · cases selectDB cfg c.argv <;> exact h
  · have hlocal := localStep_local cfg s c.argv
    generalize localStep cfg s c.argv = r at hlocal
    cases hlocal with
    | reset => rfl
    | _ => exact h

/-- What the client is told when each reply is translated in the state of its command. -/
def oneByOne (cfg : Config) : Session → List ClientCmd → List Value → List Bytes
  | s, c :: cs, v :: vs =>
    encode (clientReply c.name s.db v) :: oneByOne cfg (classifyState cfg s c) cs vs
  | _, _, _ => []

theorem handleSeq_at {b : List ClientCmd} {ks : List Classified} {served : Addr → List Bytes}
    {told : List Bytes} (hd : Passes cfg (Deals site cfg) s b ks) (hcfg : cfg.Valid)
    (hmulti : s.multi = false) (hslow : .slow ∉ ks) (halone : ∀ k ∈ ks, site.AsAlone cfg k) :
    Triple Eq site.Acts (Exchange.At served told) (handleSeq cfg s b) fun r w =>
      r = (batchState cfg s b, .ok) ∧ w.At (ks.foldl (servedAfter cfg) served)
        (told ++ oneByOne cfg s b (site.rawReplies cfg served ks)) := by
  induction hd generalizing served told with
  | nil =>
    refine triple_ret fun w hw => ⟨rfl, ?_⟩
    show w.At served (told ++ [])
    rwa [List.append_nil]
  | @cons s c k cs ks h hp _ ih =>
    rw [List.mem_cons, not_or] at hslow
    refine (h.handle_at hcfg hmulti (Ne.symm hslow.1) hp (halone k List.mem_cons_self)).bind
      fun r => triple_pure (fun _ h => h) ?_
    rintro rfl
    refine (ih (classifyState_multi hmulti) hslow.2
      fun k hk => halone k (List.mem_cons_of_mem _ hk)).mono (fun _ h => h) fun r w hw => ?_
    rwa [List.append_assoc] at hw

/-! ## The batch -/

/-- The same command at the next place. -/
def SendItem.later (it : SendItem) : SendItem := { it with idx := it.idx + 1 }

theorem sendItems_cons (k : Classified) (ks : List Classified) :
    sendItems (k :: ks) = sendItems [k] ++ (sendItems ks).map SendItem.later := by
  rw [← List.singleton_append, sendItems, List.zipIdx_append, List.filterMap_append]
  congr 1
  rw [List.length_singleton, List.zipIdx_succ, List.filterMap_map, sendItems, List.map_filterMap]
  congr 1
  funext x
  obtain ⟨k, i⟩ := x
  cases k <;> rfl

/-- The commands for one address, by their place in the batch. -/
def itemsFor (ks : List Classified) (addr : Addr) : List SendItem :=
  (sendItems ks).filter fun it => it.addr = addr

theorem itemsFor_cons (k : Classified) (ks : List Classified) (addr : Addr) :
    itemsFor (k :: ks) addr = itemsFor [k] addr ++ (itemsFor ks addr).map SendItem.later := by
  rw [itemsFor, sendItems_cons, List.filter_append, List.filter_map]
  rfl

theorem mem_nodeGroups {ks : List Classified} {g : Addr × List SendItem} :
    g ∈ nodeGroups (sendItems ks) ↔ ∃ it ∈ sendItems ks, g = (it.addr, itemsFor ks it.addr) := by
  obtain ⟨addr, its⟩ := g
  rw [nodeGroups, Group.mem_groupBy]
  constructor
  · rintro ⟨⟨it, hit, rfl⟩, hits⟩
    exact ⟨it, hit, Prod.ext rfl hits⟩
  · rintro ⟨it, hit, heq⟩
    cases heq
    exact ⟨⟨it, hit, rfl⟩, rfl⟩

/-- No other address of the batch leads to the node of `addr`. -/
def Alone (cfg : Config) (ks : List Classified) (addr : Addr) : Prop :=
  ∀ it ∈ sendItems ks, rewriteAddr cfg it.addr = rewriteAddr cfg addr → it.addr = addr

instance (cfg : Config) (ks : List Classified) (addr : Addr) : Decidable (Alone cfg ks addr) :=
  inferInstanceAs (Decidable (∀ it ∈ sendItems ks, _ → _))

section

variable {ks : List Classified} {served : Addr → List Bytes}

theorem Alone.tail {k : Classified} (h : Alone cfg (k :: ks) addr) :
    Alone cfg ks addr := by
  intro it hit
  have hmem : it.later ∈ sendItems (k :: ks) := by
    rw [sendItems_cons]
    exact List.mem_append_right _ (List.mem_map_of_mem hit)
  exact h it.later hmem

theorem length_rawReplies (ks : List Classified) (served : Addr → List Bytes) :
    (site.rawReplies cfg served ks).length = ks.length := by
  induction ks generalizing served with
  | nil => rfl
  | cons k ks ih => exact congrArg (· + 1) (ih _)

/-- The replies to a group are those its commands get one by one. -/
theorem groupReplies_rawReplies (h : Alone cfg ks addr) (served : Addr → List Bytes) :
    List.Forall₂ (fun it v => (site.rawReplies cfg served ks)[it.idx]? = some v)
      (itemsFor ks addr) (site.groupReplies cfg served (addr, itemsFor ks addr)) := by
  induction ks generalizing served with
  | nil => exact .nil
  | cons k ks ih =>
    -- the commands behind `k` find the nodes as `k` leaves them
    have hrest := ih h.tail (servedAfter cfg served k)
    have hlater : List.Forall₂ (fun it v => (site.rawReplies cfg served (k :: ks))[it.idx]? = some v)
        ((itemsFor ks addr).map SendItem.later)
        (site.groupReplies cfg (servedAfter cfg served k) (addr, itemsFor ks addr)) :=
      List.forall₂_map_left_iff.2 hrest
    have hbytes : ((itemsFor ks addr).map SendItem.later).map (fun it => it.frame.bytes) =
        (itemsFor ks addr).map fun it => it.frame.bytes := by
      rw [List.map_map]
      rfl
    rw [itemsFor_cons]
    unfold Site.groupReplies at hlater ⊢
    dsimp only at hlater ⊢
    rw [List.map_append, hbytes]
    cases k with
    | send slot addr' f read =>
      by_cases haddr : addr' = addr
      · subst haddr
        have hone : itemsFor [.send slot addr' f read] addr' =
            [{ idx := 0, slot, addr := addr', frame := f, read }] := by simp [itemsFor, sendItems]
        rw [servedAfter, Function.update_self] at hlater
        rw [hone]
        exact .cons rfl hlater
      · have hone : itemsFor [.send slot addr' f read] addr = [] := by
          simp [itemsFor, sendItems, haddr]
        have hnode : rewriteAddr cfg addr ≠ rewriteAddr cfg addr' := by
          intro heq
          refine haddr (h { idx := 0, slot, addr := addr', frame := f, read } ?_ heq.symm)
          exact mem_sendItems.2 rfl
        rw [servedAfter, Function.update_of_ne hnode] at hlater
        rw [hone]
        exact hlater
    | slow | here | panic => exact hlater

/-- A node has served the commands of the batch that lead to it, in their order. -/
theorem foldl_servedAfter (ks : List Classified) (served : Addr → List Bytes) (a : Addr) :
    ks.foldl (servedAfter cfg) served a = served a ++
      ((sendItems ks).filter fun it => rewriteAddr cfg it.addr = a).map fun it => it.frame.bytes := by
  induction ks generalizing served with
  | nil => exact (List.append_nil _).symm
  | cons k ks ih =>
    have hlater : (((sendItems ks).map SendItem.later).filter fun it =>
        rewriteAddr cfg it.addr = a).map (fun it => it.frame.bytes) =
          ((sendItems ks).filter fun it => rewriteAddr cfg it.addr = a).map
            fun it => it.frame.bytes := by
      rw [List.filter_map, List.map_map]
      rfl
    rw [List.foldl_cons, ih, sendItems_cons, List.filter_append, List.map_append, hlater,
      ← List.append_assoc]
    congr 1
    cases k with
    | send slot addr f read =>
      by_cases haddr : rewriteAddr cfg addr = a
      · subst haddr
        simp [servedAfter, sendItems]
      · simp [servedAfter, sendItems, haddr, Function.update_of_ne (Ne.symm haddr)]
    | slow | here | panic => exact (List.append_nil _).symm

theorem rawReplies_here {i : Nat} (hk : ks[i]? = some (.here v)) :
    (site.rawReplies cfg served ks)[i]? = some v := by
  induction ks generalizing served i with
  | nil => cases hk
  | cons k ks ih =>
    cases i with
    | zero =>
      cases hk
      rfl
    | succ i => exact ih hk

/-- Every reply is found at the place of its command. -/
theorem replyAt_rawReplies (halone : ∀ it ∈ sendItems ks, Alone cfg ks it.addr)
    (hslow : .slow ∉ ks) (hpanic : .panic ∉ ks) :
    ks.zipIdx.map (fun x => replyAt (gatherReplies (nodeGroups (sendItems ks))
      ((nodeGroups (sendItems ks)).map (site.groupReplies cfg served))) x.1 x.2) =
        site.rawReplies cfg served ks := by
  have hgroups : List.Forall₂ (fun g vs => List.Forall₂
      (fun it v => (site.rawReplies cfg served ks)[it.idx]? = some v) g.2 vs)
      (nodeGroups (sendItems ks))
      ((nodeGroups (sendItems ks)).map (site.groupReplies cfg served)) := by
    refine List.forall₂_map_right_iff.2 (List.forall₂_same.2 ?_)
    intro g hg
    obtain ⟨it, hit, rfl⟩ := mem_nodeGroups.1 hg
    exact groupReplies_rawReplies (halone it hit) served
  -- place by place
  refine List.ext_getElem? fun i => ?_
  rw [List.getElem?_map, List.getElem?_zipIdx, Option.map_map]
  cases hk : ks[i]? with
  | none =>
    rw [List.getElem?_eq_none (by rw [length_rawReplies]; exact List.getElem?_eq_none_iff.1 hk)]
    rfl
  | some k =>
    cases k with
    | slow => exact absurd (List.mem_of_getElem? hk) hslow
    | panic => exact absurd (List.mem_of_getElem? hk) hpanic
    | here v => exact (rawReplies_here hk).symm
    | send slot addr f read =>
      obtain ⟨w, hw, hraw⟩ := lookup_gatherReplies hgroups hk
      rw [hraw]
      simp [replyAt, hw]

theorem flushed_all {gs : List (Addr × List SendItem)} {rs : List (Except Err (List Value))}
    {w : Exchange} (h : List.Forall₂ (fun g r => site.Flushed cfg served g r w) gs rs) :
    rs = gs.map (fun g => .ok (site.groupReplies cfg served g)) ∧
      ∀ g ∈ gs, w.served (rewriteAddr cfg g.1) = served (rewriteAddr cfg g.1) ++
        g.2.map fun it => it.frame.bytes := by
  induction h with
  | nil => exact ⟨rfl, fun _ h => (List.not_mem_nil h).elim⟩
  | cons hg _ ih =>
    refine ⟨by rw [List.map_cons, ← ih.1, hg.1], fun g hmem => ?_⟩
    rcases List.mem_cons.1 hmem with rfl | hmem
    · exact hg.2
    · exact ih.2 g hmem

theorem nodeGroups_apart (halone : ∀ it ∈ sendItems ks, Alone cfg ks it.addr) :
    Apart cfg (nodeGroups (sendItems ks)) := by
  intro g hg g' hg' hne heq
  obtain ⟨it, hit, rfl⟩ := mem_nodeGroups.1 hg
  obtain ⟨it', hit', rfl⟩ := mem_nodeGroups.1 hg'
  rw [halone it hit it' hit' heq] at hne
  exact hne rfl

/-- The groups leave the nodes as the commands one by one do. -/
theorem served_groups {w : Exchange} (halone : ∀ it ∈ sendItems ks, Alone cfg ks it.addr)
    (hgroups : ∀ g ∈ nodeGroups (sendItems ks), w.served (rewriteAddr cfg g.1) =
      served (rewriteAddr cfg g.1) ++ g.2.map fun it => it.frame.bytes)
    (hrest : ∀ a, (∀ g ∈ nodeGroups (sendItems ks), rewriteAddr cfg g.1 ≠ a) →
      w.served a = served a) : w.served = ks.foldl (servedAfter cfg) served := by
  funext a
  rw [foldl_servedAfter]
  by_cases ha : ∃ it ∈ sendItems ks, rewriteAddr cfg it.addr = a
  · obtain ⟨it, hit, rfl⟩ := ha
    refine (hgroups (it.addr, itemsFor ks it.addr) (mem_nodeGroups.2 ⟨it, hit, rfl⟩)).trans ?_
    congr 2
    refine List.filter_congr fun it' hit' => decide_eq_decide.2 ⟨congrArg _, ?_⟩
    exact halone it hit it' hit'
  · have hnone : (sendItems ks).filter (fun it => rewriteAddr cfg it.addr = a) = [] :=
      List.filter_eq_nil_iff.2 fun it hit => by simpa using fun h => ha ⟨it, hit, h⟩
    rw [hnone, List.map_nil, List.append_nil]
    refine hrest a fun g hg heq => ?_
    obtain ⟨it, hit, rfl⟩ := mem_nodeGroups.1 hg
    exact ha ⟨it, hit, heq⟩

theorem valuesOf_ok {α β : Type} (xs : List β) (f : β → α) :
    valuesOf (xs.map fun x => (.ok (f x) : Except Err α)) = xs.map f := by
  rw [valuesOf, List.filterMap_map]
  exact congrFun List.filterMap_eq_map' _

theorem execFastPipeline_at {b : List ClientCmd} {told : List Bytes}
    (halone : ∀ it ∈ sendItems ks, Alone cfg ks it.addr) (hslow : .slow ∉ ks)
    (hpanic : .panic ∉ ks) :
    Triple Eq site.Acts (Exchange.At served told) (execFastPipeline cfg s b ks) fun r w =>
      r = (s, .ok) ∧ w.At (ks.foldl (servedAfter cfg) served)
        (told ++ (b.zip (site.rawReplies cfg served ks)).map fun x =>
          encode (clientReply x.1.name s.db x.2)) := by
  have hnodup : (nodeGroups (sendItems ks)).Nodup :=
    List.Nodup.of_map _ (Group.nodup_keys SendItem.addr (sendItems ks))
  have hflush := flushGroups_site site hnodup (nodeGroups_apart halone) served
  refine ((hflush.mono (fun _ h => h.1) fun _ _ h => h).and
    (flushGroups_elsewhere (nodeGroups (sendItems ks)) served told)).bind fun rs => ?_
  refine Triple.mono (P := fun w => rs = (nodeGroups (sendItems ks)).map (fun g =>
    .ok (site.groupReplies cfg served g)) ∧ w.At (ks.foldl (servedAfter cfg) served) told) ?_
    (fun w hw => ?_) fun _ _ h => h
  · refine triple_pure (fun _ h => h) ?_
    rintro rfl
    have herrors : errorsOf ((nodeGroups (sendItems ks)).map fun g =>
        (.ok (site.groupReplies cfg served g) : Except Err (List Value))) = [] := by
      rw [errorsOf_eq_nil]
      rintro r hr
      obtain ⟨g, -, rfl⟩ := List.mem_map.1 hr
      exact ⟨_, rfl⟩
    -- the deadline, then one write for each reply
    rw [if_neg (not_not.2 herrors), valuesOf_ok]
    refine triple_quiet (fun _ h => h) (fun _ _ => rfl) (stable_eq _) ?_
    refine (writeReplies_at _).bind fun r => triple_pure (fun _ h => h) ?_
    rintro rfl
    refine triple_ret fun w hw => ⟨rfl, ?_⟩
    rw [← replyAt_rawReplies halone hslow hpanic, List.zip_map_right, List.map_map]
    rwa [List.map_map] at hw
  · obtain ⟨hflushed, htold, hrest⟩ := hw
    obtain ⟨hrs, hgroups⟩ := flushed_all hflushed
    exact ⟨hrs, served_groups halone hgroups hrest, htold⟩

end

/-! ## Both -/

/-- Each reply reads the same with the database that is selected behind the batch as with
the one that its command was issued in. -/
def SameReplies (cfg : Config) (s : Session) (b : List ClientCmd) (vs : List Value) : Prop :=
  ∀ i c v, b[i]? = some c → vs[i]? = some v →
    encode (clientReply c.name (batchState cfg s b).db v) =
      encode (clientReply c.name (batchState cfg s (b.take i)).db v)

theorem oneByOne_iff {db : Nat} (s : Session) (b : List ClientCmd) (vs : List Value) :
    (b.zip vs).map (fun x => encode (clientReply x.1.name db x.2)) = oneByOne cfg s b vs ↔
      ∀ i c v, b[i]? = some c → vs[i]? = some v → encode (clientReply c.name db v) =
        encode (clientReply c.name (batchState cfg s (b.take i)).db v) := by
  induction b generalizing s vs with
  | nil =>
    refine iff_of_true (by simp [oneByOne]) ?_
    intro i c v hc
    cases hc
  | cons c cs ih =>
    cases vs with
    | nil =>
      refine iff_of_true (by simp [oneByOne]) ?_
      intro i c v _ hv
      cases hv
    | cons v vs =>
      rw [List.zip_cons_cons, List.map_cons, oneByOne, List.cons_eq_cons, ih]
      constructor
      · rintro ⟨hhead, htail⟩ (_ | i) c' v' hc hv
        · cases hc
          cases hv
          exact hhead
        · exact htail i c' v' hc hv
      · intro h
        exact ⟨h 0 c v rfl rfl, fun i => h (i + 1)⟩

/-- **A fast batch tells the client what its commands one by one do exactly if each reply
reads the same with the last database as with that of its command.** -/
theorem execFastPipeline_serial_iff {b : List ClientCmd} {ks : List Classified} {s₀ : Session}
    {tr₀ tr₁ tr₂ : Trace} {r₁ r₂ : Session × Outcome} {w w₁ w₂ : Exchange} (hcfg : cfg.Valid)
    (hmulti : s.multi = false) (hclass : (classifyAll cfg s b).Runs tr₀ (s₀, some ks))
    (hslow : ks.any Classified.isSlow = false) (hreads : ∀ k ∈ ks, site.AsAlone cfg k)
    (halone : ∀ it ∈ sendItems ks, Alone cfg ks it.addr)
    (hfast : (execFastPipeline cfg s₀ b ks).Runs tr₁ r₁)
    (hpath : Path Eq site.Acts w (tr₀ ++ tr₁) w₁)
    (hseq : (handleSeq cfg s b).Runs tr₂ r₂) (hpath₂ : Path Eq site.Acts w tr₂ w₂) :
    r₁ = (batchState cfg s b, .ok) ∧ r₂ = r₁ ∧ w₁.served = w₂.served ∧
      (w₁.told = w₂.told ↔ SameReplies cfg s b (site.rawReplies cfg w.served ks)) := by
  -- the classification only looks at the layout
  obtain ⟨w₀, hpath₀, hpath₁⟩ := path_append.1 hpath
  obtain ⟨hsame, hpass⟩ := triple_lookup (P := fun w' => w' = w)
    (classifyAll_passes (classifyPipe_deals hcfg) s b) (stable_eq _) w tr₀ _ w₀ rfl hclass hpath₀
  subst hsame
  obtain ⟨hs₀, hdeals⟩ := hpass ks rfl
  have hnotslow : .slow ∉ ks := by
    intro hmem
    exact List.any_eq_false.1 hslow _ hmem rfl
  obtain ⟨hr₁, hserved₁, htold₁⟩ := execFastPipeline_at halone hnotslow hdeals.not_panic
    w₀ tr₁ r₁ w₁ ⟨rfl, rfl⟩ hfast hpath₁
  obtain ⟨hr₂, hserved₂, htold₂⟩ := handleSeq_at hdeals hcfg hmulti hnotslow hreads
    w₀ tr₂ r₂ w₂ ⟨rfl, rfl⟩ hseq hpath₂
  obtain rfl : s₀ = batchState cfg s b := hs₀
  refine ⟨hr₁, hr₂.trans hr₁.symm, hserved₁.trans hserved₂.symm, ?_⟩
  rw [htold₁, htold₂, List.append_cancel_left_eq]
  exact oneByOne_iff s b _

/-- A node that knows the key `a` of database 1, and lists it to every command. -/
def oneKey : Site where
  topology := none
  node := fun _ => "10.0.0.1:6379"
  answer := fun _ _ _ => ⟨array [bulkString (arg "db1:a")], by decide⟩

section

variable (s : Session) (b : List ClientCmd)

/-- The classification of a batch there. -/
def classifyRun : ((Session × Option (List Classified)) × Trace) × Exchange :=
  (classifyAll seeded s b).exec (oneKey.run 0) {}

/-- What it finds. -/
def findings : List Classified := (classifyRun s b).1.1.2.getD []

/-- The rest of the fast batch. -/
def fastRun : ((Session × Outcome) × Trace) × Exchange :=
  (execFastPipeline seeded (classifyRun s b).1.1.1 b (findings s b)).exec (oneKey.run 0)
    (classifyRun s b).2

/-- The commands one by one. -/
def serialRun : ((Session × Outcome) × Trace) × Exchange :=
  (handleSeq seeded s b).exec (oneKey.run 0) {}

variable {s b}

theorem fastRun_runs (hsome : (classifyRun s b).1.1.2.isSome = true)
    (hleads : ((classifyRun s b).1.2 ++ (fastRun s b).1.2).all (oneKey.leads 0) = true) :
    (classifyAll seeded s b).Runs (classifyRun s b).1.2
        ((classifyRun s b).1.1.1, some (findings s b)) ∧
      (execFastPipeline seeded (classifyRun s b).1.1.1 b (findings s b)).Runs (fastRun s b).1.2
        (fastRun s b).1.1 ∧
      Path Eq oneKey.Acts {} ((classifyRun s b).1.2 ++ (fastRun s b).1.2) (fastRun s b).2 := by
  rw [List.all_append, Bool.and_eq_true] at hleads
  have hfound : (classifyRun s b).1.1 = ((classifyRun s b).1.1.1, some (findings s b)) := by
    obtain ⟨ks, hks⟩ := Option.isSome_iff_exists.1 hsome
    refine Prod.ext rfl ?_
    rw [findings, hks]
    rfl
  refine ⟨?_, Prog.exec_runs _ _ _, path_append.2 ⟨(classifyRun s b).2, ?_, ?_⟩⟩
  · rw [← hfound]
    exact Prog.exec_runs _ _ _
  · exact oneKey.run_path 0 _ _ hleads.1
  · exact oneKey.run_path 0 _ _ hleads.2

theorem serialRun_runs (hleads : (serialRun s b).1.2.all (oneKey.leads 0) = true) :
    (handleSeq seeded s b).Runs (serialRun s b).1.2 (serialRun s b).1.1 ∧
      Path Eq oneKey.Acts {} (serialRun s b).1.2 (serialRun s b).2 :=
  ⟨Prog.exec_runs _ _ _, oneKey.run_path 0 _ _ hleads⟩

end

/-- `SELECT 1`, then `KEYS *`. -/
def selectThenKeys : List ClientCmd := [command 0 ["SELECT", "1"], command 1 ["KEYS", "*"]]

theorem execFastPipeline_serial_iff_select :
    (serialRun { authed := true } selectThenKeys).1.1 =
        (fastRun { authed := true } selectThenKeys).1.1 ∧
      (fastRun { authed := true } selectThenKeys).2.told =
        [encode plusOK, encode (array [bulkString (arg "a")])] ∧
      SameReplies seeded { authed := true } selectThenKeys
        (oneKey.rawReplies seeded (fun _ => []) (findings { authed := true } selectThenKeys)) := by
  obtain ⟨hclass, hfast, hpath⟩ := fastRun_runs (s := { authed := true }) (b := selectThenKeys)
    (by decide +kernel) (by decide +kernel)
  obtain ⟨hseq, hpath'⟩ := serialRun_runs (s := { authed := true }) (b := selectThenKeys)
    (by decide +kernel)
  obtain ⟨-, hresult, -, htold⟩ := execFastPipeline_serial_iff seeded_valid rfl hclass
    (by decide +kernel) (by decide +kernel) (by decide +kernel) hfast hpath hseq hpath'
  exact ⟨hresult, by decide +kernel, htold.1 (by decide +kernel)⟩

/-- `KEYS *`, then `SELECT 0`. -/
def keysThenSelect : List ClientCmd := [command 0 ["KEYS", "*"], command 1 ["SELECT", "0"]]

/-- The keys of database 1 are translated back with database 0, and keep their prefix. -/
theorem fast_batch_keeps_prefix :
    ∃ tr₀ s₀ ks tr₁ r₁ w₁ tr₂ r₂ w₂,
      (classifyAll seeded { authed := true, db := 1 } keysThenSelect).Runs tr₀ (s₀, some ks) ∧
      ks.any Classified.isSlow = false ∧
      (execFastPipeline seeded s₀ keysThenSelect ks).Runs tr₁ r₁ ∧
      Path Eq oneKey.Acts {} (tr₀ ++ tr₁) w₁ ∧
      (handleSeq seeded { authed := true, db := 1 } keysThenSelect).Runs tr₂ r₂ ∧
      Path Eq oneKey.Acts {} tr₂ w₂ ∧
      w₁.told = [encode (array [bulkString (arg "db1:a")]), encode plusOK] ∧
      w₂.told = [encode (array [bulkString (arg "a")]), encode plusOK] := by
  obtain ⟨hclass, hfast, hpath⟩ := fastRun_runs (s := { authed := true, db := 1 })
    (b := keysThenSelect) (by decide +kernel) (by decide +kernel)
  obtain ⟨hseq, hpath'⟩ := serialRun_runs (s := { authed := true, db := 1 })
    (b := keysThenSelect) (by decide +kernel)
  exact ⟨_, _, _, _, _, _, _, _, _, hclass, by decide +kernel, hfast, hpath, hseq, hpath',
    by decide +kernel, by decide +kernel⟩

end RespProxy.Proxy
