import RespProxy.Proxy.Frames

/-! # What `handle` sends

The commands `handle` dispatches to, one after the other, and from them
`handle_sends`: the frames of a command are `Sent`, its replies are `Answers`,
and the state behind it is `After`.
-/

namespace RespProxy.Proxy

open Cluster Command Resp

variable {A : Event → Prop} {S : Frame → Prop} {R : Option CmdId → Value → Prop} {cfg : Config}
variable {argv : Argv} {c : ClientCmd} {s : Session}
variable {key dst : Slice} {name : String} {s' : Session}

/-! ## Commands outside transactions -/

section

variable {s : Session} {c : ClientCmd}
variable (hS : ∀ argv, Direct A cfg s c argv → S { argv, src := c.src s })
variable (hR : ∀ v, R (some c.id) v)

include hS

theorem exec_direct (h : Direct A cfg s c argv) (slot : Nat) (read : Bool) :
    Sends A S R (fun _ => True) (exec cfg slot { argv, src := c.src s } read) :=
  exec_sends cfg (hS argv h) (hS _ .asking) slot read

theorem transferLocal_sends (hk : TransferKeys cfg s c key dst) (delSrc replace : Bool) :
    Sends A S R (fun _ => True) (transferLocal cfg (c.src s) key dst delSrc replace) := by
  have hargv : TransferArgv key dst (if delSrc then [arg "RENAME", key, dst]
      else [arg "COPY", key, dst] ++ (if replace then [arg "REPLACE"] else [])) := by
    cases delSrc with
    | true => exact .rename
    | false => exact .copy (by cases replace <;> simp)
  refine (exec_direct hS (.transfer hk hargv) _ _).bindOk (fun _ => trivial) fun v _ => ?_
  dsimp only; split_ifs <;> trivial

theorem transferDump_sends (hk : TransferKeys cfg s c key dst) (delSrc replace : Bool) :
    Sends A S R (fun _ => True) (transferDump cfg (c.src s) key dst delSrc replace) := by
  have hdel := exec_direct (R := R) hS (.transfer hk .del) (slotOf cfg key) false
  refine (exec_direct hS (.transfer hk .dump) _ _).bindOk (fun _ => trivial) fun dump _ => ?_
  dsimp only
  split
  · trivial
  · split
    · trivial
    · refine (exec_direct hS (.transfer hk (.restore ?_)) _ _).bind ?_
      · cases replace <;> simp
      · intro r _
        cases r with
        | error e => trivial
        | ok v =>
          dsimp only
          split
          · trivial
          · split
            · exact hdel.bind fun _ _ => trivial
            · trivial

theorem transferKey_sends (hk : TransferKeys cfg s c key dst) (delSrc replace : Bool) :
    Sends A S R (fun _ => True) (transferKey cfg (c.src s) key dst delSrc replace) := by
  have htransfer : Sends A S R (fun _ => True)
      (if slotOf cfg key = slotOf cfg dst then transferLocal cfg (c.src s) key dst delSrc replace
        else transferDump cfg (c.src s) key dst delSrc replace) := by
    split
    · exact transferLocal_sends hS hk delSrc replace
    · exact transferDump_sends hS hk delSrc replace
  unfold transferKey
  dsimp only
  split
  · exact htransfer
  · refine (exec_direct hS (.transfer hk .present) _ _).bindOk (fun _ => trivial) fun ex _ => ?_
    dsimp only
    split
    · trivial
    · exact htransfer

include hR

theorem finishTransfer_sends (hk : TransferKeys cfg s c key dst) (delSrc replace : Bool) :
    Sends A S R (fun r => r.1 = s) (finishTransfer cfg s c key dst delSrc replace) := by
  refine (transferKey_sends hS hk delSrc replace).bindOk (fun _ => finish_sends (hR _)) fun n _ => ?_
  exact finish_sends (hR _)

theorem cmdMove_sends (hn : c.name = "MOVE") :
    Sends A S R (fun r => r.1 = s) (cmdMove cfg s c) := by
  unfold cmdMove
  split
  · rename_i cmd key db hargv
    cases hdb : parseDBIndex db cfg.maxDatabases with
    | error e => exact finish_sends (hR _)
    | ok n =>
      dsimp only
      split
      · exact finish_sends (hR _)
      · exact finishTransfer_sends hS hR (.move hn hargv hdb) true false
  · exact finish_sends (hR _)

theorem cmdCopy_sends (hn : c.name = "COPY") :
    Sends A S R (fun r => r.1 = s) (cmdCopy cfg s c) := by
  unfold cmdCopy
  split
  · rename_i cmd key dst opts hargv
    cases hdb : copyArgs cfg opts s.db false with
    | error v => exact finish_sends (hR _)
    | ok nr =>
      obtain ⟨n, replace⟩ := nr
      exact finishTransfer_sends hS hR (.copy hn hargv hdb) false replace
  · exact finish_sends (hR _)

omit hR in
theorem scanLoop_sends (hn : c.name = "FLUSHDB") (hdb : s.db ≠ 0) (conn : ConnId)
    (rounds : Nat) (cursor : Slice) :
    Sends A S R (fun _ => True) (scanLoop conn (c.src s) (dbPattern s.db) rounds cursor) := by
  induction rounds generalizing cursor with
  | zero => trivial
  | succ rounds ih =>
    refine (doFrame_sends (hS _ (.scan (by simp [hn]) hdb)) conn).bindOk (fun _ => trivial)
      fun v hr => ?_
    dsimp only
    split
    · trivial
    · split
      · rename_i next keys rest ht hv
        have hdel : Sends A S R (fun _ => True) (scanDelete conn (c.src s) keys) := by
          unfold scanDelete
          split
          · trivial
          · refine (doFrame_sends (hS _ (.del hn hdb rfl (hr v rfl) ht hv)) conn).bind ?_
            intro r _
            cases r <;> trivial
        refine hdel.bind ?_
        intro r _
        cases r with
        | some e => trivial
        | none =>
          dsimp only
          split
          · trivial
          · exact ih _
      · trivial

omit hR in
theorem flushNodes_sends (hn : c.name = "FLUSHDB") (hdb : s.db ≠ 0) (addrs : List Addr) :
    Sends A S R (fun _ => True) (flushNodes cfg (c.src s) (dbPattern s.db) addrs) := by
  have hnode : ∀ addr,
      Sends A S R (fun _ => True) (scanDeleteOn cfg addr (c.src s) (dbPattern s.db)) := by
    intro addr
    refine (Silent.sends (getConn_silent cfg addr false)).bindOk (fun _ => trivial) fun conn _ => ?_
    intro rounds _
    refine ⟨trivial, (scanLoop_sends hS hn hdb conn rounds _).bind ?_⟩
    intro r _
    cases r with
    | running => trivial
    | io e => exact fun _ _ => ⟨trivial, trivial⟩
    | done => exact fun _ _ => ⟨trivial, trivial⟩
    | failed e => exact fun _ _ => ⟨trivial, trivial⟩
  induction addrs with
  | nil => trivial
  | cons addr addrs ih =>
    refine (hnode addr).bind ?_
    intro r _
    cases r with
    | done => exact ih
    | failed e => trivial
    | io e => trivial
    | running => trivial

theorem cmdFlushDB_sends (hn : c.name = "FLUSHDB") :
    Sends A S R (fun r => r.1 = s) (cmdFlushDB cfg s c) := by
  unfold cmdFlushDB
  split
  · rename_i hdb
    refine (exec_direct hS (.flushDB hn hdb) _ _).bindOk (fun _ => finish_sends (hR _)) fun v _ => ?_
    exact finish_sends (hR _)
  · rename_i hdb
    refine candidateAddrs_inner.sends.bind ?_
    intro addrs _
    refine (flushNodes_sends hS hn hdb addrs).bind ?_
    intro r _
    cases r with
    | done => exact finish_sends (hR _)
    | running => rfl
    | failed e => exact finish_sends (hR _)
    | io e => exact finish_sends (hR _)

theorem cmdRandomKey_sends (hn : c.name = "RANDOMKEY") :
    Sends A S R (fun r => r.1 = s) (cmdRandomKey cfg s c) := by
  unfold cmdRandomKey
  split
  · rename_i hdb
    refine (exec_direct hS (.randomKey hn hdb) _ _).bindOk (fun _ => finish_sends (hR _))
      fun v _ => ?_
    dsimp only
    split
    · exact finish_sends (hR _)
    · exact finish_sends (hR _)
  · rename_i hdb
    refine (exec_direct hS (.scan (by simp [hn]) hdb) _ _).bindOk (fun _ => finish_sends (hR _))
      fun v _ => ?_
    dsimp only
    split
    · exact finish_sends (hR _)
    · exact finish_sends (hR _)

theorem cmdPublish_sends (hn : c.name ∈ ["PUBLISH", "SPUBLISH"]) :
    Sends A S R (fun r => r.1 = s) (cmdPublish cfg s c) := by
  refine currentFlavor_inner.sends.bind ?_
  intro fl _
  have hdirect : Direct A cfg s c (rewritePublish fl c.argv) := .publish hn
  refine (exec_direct hS hdirect _ _).bindOk (fun _ => finish_sends (hR _)) fun v _ => ?_
  exact finish_sends (hR _)

theorem enterSub_sends (hc : c.argv ≠ []) :
    Sends A S R (fun r => ∃ mode, r.1 = { s with sub := some mode }) (enterSub cfg s c) := by
  refine newMode_inner.sends.bind ?_
  intro mode _
  refine (handleClientCmd_sends cfg hc mode fun argv h => hS argv (.sub h)).bind ?_
  intro vs _
  refine (replyAll_sends fun v _ => hR v).imp ?_
  intro r hr
  exact ⟨mode, hr⟩

/-! ## Forwarding -/

omit hS hR in
/-- `RewriteArgv` leaves the commands of database 0 alone. -/
theorem rewriteArgv_zero {out : Argv} {db : Nat} (h : rewriteArgv argv db = some out)
    (hdb : db = 0) : out = argv := by
  rw [rewriteArgv, if_pos (Or.inl hdb)] at h
  exact (Option.some.inj h).symm

omit hR in
/-- The frame of a forwarded command, with or without the client's bytes. -/
theorem frameFor_sent (hn : c.name ∉ ownCommands) (hraw : s.db = 0 → S { argv := c.argv, raw := c.raw, src := c.src s })
    (h : rewriteArgv c.argv s.db = some argv) :
    S (frameFor argv (if s.db > 0 then [] else c.raw) (c.src s)) := by
  have hplain := hS argv (.forward hn h)
  unfold frameFor
  by_cases hdb : s.db = 0
  · have hargv := rewriteArgv_zero h hdb
    subst hargv
    split
    · exact hplain
    · simpa [hdb] using hraw hdb
  · simpa [Nat.pos_of_ne_zero hdb] using hplain

omit hS hR in
theorem doBlocking_sends {f : Frame} (hf : S f) (ha : S (askingFrame f)) (slot : Nat) :
    Sends A S R (fun _ => True) (doBlocking cfg slot f) := by
  refine (checkout_sends cfg slot).bindOk (fun _ => trivial) fun conn _ => ?_
  refine (doFrame_sends hf conn).bind ?_
  intro r _
  cases r with
  | error e => exact fun _ _ => ⟨trivial, trivial⟩
  | ok v =>
    dsimp only
    split
    · split
      · intro _ _
        refine ⟨trivial, (updateSlotAt_inner _ _).sends.bind ?_⟩
        intro _ _
        exact exec_sends cfg hf ha _ _
      · exact fun _ _ => ⟨trivial, trivial⟩
    · exact fun _ _ => ⟨trivial, trivial⟩

omit hS hR in
theorem rebuilt_of_mem_zip {out : Argv} {g : KeyGroup} {gs : List KeyGroup}
    {outs : List Argv} (h : gs.mapM (rebuildFanoutArgv argv) = some outs)
    (hm : (g, out) ∈ gs.zip outs) : rebuildFanoutArgv argv g = some out := by
  induction gs generalizing outs with
  | nil => simp at hm
  | cons g' gs ih =>
    rw [List.mapM_cons] at h
    obtain ⟨out', hout', h⟩ := Option.bind_eq_some_iff.1 h
    obtain ⟨outs', houts', h⟩ := Option.bind_eq_some_iff.1 h
    cases h
    rcases List.mem_cons.1 hm with hm | hm
    · cases hm
      exact hout'
    · exact ih houts' hm

theorem cmdFanout_sends {keys : List Slice} (hn : c.name ∉ ownCommands)
    (h : rewriteArgv c.argv s.db = some argv) (hf : fanoutOf argv ≠ .none)
    (hk : extractKeys argv = some keys) :
    Sends A S R (fun r => r.1 = s) (cmdFanout cfg s c argv keys) := by
  unfold cmdFanout
  dsimp only
  split
  · exact finish_sends (hR _)
  · cases hargvs : (groupBySlot keys (slotOf cfg)).mapM (rebuildFanoutArgv argv) with
    | none => rfl
    | some argvs =>
      refine (Interact.Prog.ensures_parList (R := fun _ _ => True) ?_).bind ?_
      · rintro ⟨g, out⟩ hga
        have hg := (List.of_mem_zip hga).1
        have hout := rebuilt_of_mem_zip hargvs hga
        exact exec_direct hS (.fanout hn h hf hk hg hout) _ _
      · intro rs _
        split
        · refine (pickErr_inner _).sends.bind ?_
          intro e _
          exact finish_sends (hR _)
        · exact finish_sends (hR _)

omit hS hR in
theorem sendOne_sends {f : Frame} (hf : S f) (hplain : S { f with raw := [] })
    (ha : S (askingFrame f)) (slot : Nat) :
    Sends A S R (fun _ => True) (sendOne cfg slot f) := by
  unfold sendOne
  split
  · exact doBlocking_sends hplain ha slot
  · exact exec_sends cfg hf ha slot _

theorem forward_sends (hn : c.name ∉ ownCommands)
    (hraw : s.db = 0 → S { argv := c.argv, raw := c.raw, src := c.src s }) :
    Sends A S R (fun r => r.1 = s) (forward cfg s c) := by
  unfold forward
  cases hargv : rewriteArgv c.argv s.db with
  | none => rfl
  | some argv =>
    dsimp only
    cases hkeys : extractKeys argv with
    | none => rfl
    | some keys =>
      dsimp only
      split
      · split
        · rename_i hf
          exact cmdFanout_sends hS hR hn hargv hf hkeys
        · exact finish_sends (hR _)
      · refine (keylessMaster_inner keys).sends.bind ?_
        intro _ _
        refine (sendOne_sends (frameFor_sent hS hn hraw hargv)
          (hS _ (.forward hn hargv)) (hS _ .asking) _).bind ?_
        intro r _
        cases r with
        | error e => exact finish_sends (hR _)
        | ok v => exact finish_sends (hR _)

end

/-! ## `handle` -/

/-- The state after a command, up to what depends on the backends: the pin and
the watched keys, the database after `EXEC`, and subscribe mode. -/
def nextState (cfg : Config) (s : Session) (c : ClientCmd) : Session :=
  if s.sub ≠ none then { s with quit := s.quit || decide (c.name = "QUIT") }
  else if c.name = "SELECT" then (selectStep cfg s c).1
  else if (localStep cfg s c.argv).2 ≠ none then (localStep cfg s c.argv).1
  else if c.name = "MULTI" then (multiStep s).1
  else if c.name ∈ ["DISCARD", "EXEC"] then (discardStep s).1
  else if c.name ∈ ["WATCH", "UNWATCH"] then s
  else if s.multi then s.enqueue c
  else s

/-- A command joins the queue inside `MULTI` only, and those for transactions never do. -/
theorem nextState_queued {q : QueuedCmd} (h : q ∈ (nextState cfg s c).queued) :
    q ∈ s.queued ∨ s.multi = true ∧
      c.name ∉ ["MULTI", "DISCARD", "EXEC", "WATCH", "UNWATCH"] ∧
      q = { id := c.id, argv := cloneArgv c.argv } := by
  have henqueue : s.multi = true → c.name ∉ ["MULTI", "DISCARD", "EXEC", "WATCH", "UNWATCH"] →
      q ∈ (s.enqueue c).queued → q ∈ s.queued ∨ s.multi = true ∧
        c.name ∉ ["MULTI", "DISCARD", "EXEC", "WATCH", "UNWATCH"] ∧
        q = { id := c.id, argv := cloneArgv c.argv } := by
    intro hm hn hq
    rcases List.mem_append.1 hq with hq | hq
    · exact .inl hq
    · exact .inr ⟨hm, hn, List.mem_singleton.1 hq⟩
  unfold nextState at h
  split at h
  · exact .inl h
  split at h
  · next hsel =>
    unfold selectStep at h
    split at h
    · exact .inl h
    split at h
    · exact .inl h
    split at h
    · exact henqueue ‹_› (by rw [hsel]; decide) h
    · exact .inl h
  split at h
  · have hl := localStep_local cfg s c.argv
    generalize localStep cfg s c.argv = r at h hl
    cases hl with
    | reset => cases h
    | _ => exact .inl h
  split at h
  · unfold multiStep at h
    split at h
    · exact .inl h
    · cases h
  split at h
  · unfold discardStep at h
    split at h
    · cases h
    · exact .inl h
  split at h
  · exact .inl h
  split at h
  · exact henqueue ‹_› (by simp_all) h
  · exact .inl h

/-- `s'` is `nextState` where that is determined. -/
structure After (cfg : Config) (s : Session) (c : ClientCmd) (s' : Session) : Prop where
  authed : s'.authed = (nextState cfg s c).authed
  quit : s'.quit = (nextState cfg s c).quit
  multi : s'.multi = (nextState cfg s c).multi
  queued : s'.queued = (nextState cfg s c).queued
  db : c.name ≠ "EXEC" → s'.db = (nextState cfg s c).db
  sub : s'.sub = s.sub ∨ s.sub = none ∧ s.multi = false ∧
    c.name ∈ ["SUBSCRIBE", "PSUBSCRIBE", "SSUBSCRIBE"]

theorem selectStep_sub (s : Session) (c : ClientCmd) : (selectStep cfg s c).1.sub = s.sub := by
  unfold selectStep Session.enqueue
  grind

/-- A state is `After` a command if it is `nextState` up to the pin and the watched keys. -/
theorem After.of_watching (h : Watching (nextState cfg s c) s')
    (hsub : (nextState cfg s c).sub = s.sub) : After cfg s c s' := by
  obtain ⟨pin, gen, w, rfl⟩ := h
  exact ⟨rfl, rfl, rfl, rfl, fun _ => rfl, .inl hsub⟩

theorem After.of_eq (h : s' = nextState cfg s c)
    (hsub : (nextState cfg s c).sub = s.sub) : After cfg s c s' :=
  .of_watching (h ▸ .refl _) hsub

theorem classifyPubSub_subscribe
    (h : classifyPubSub name = .subscribe ∨ classifyPubSub name = .psubscribe ∨
      classifyPubSub name = .ssubscribe) :
    name ∈ ["SUBSCRIBE", "PSUBSCRIBE", "SSUBSCRIBE"] := by
  unfold classifyPubSub at h
  grind

theorem classifyPubSub_publish
    (h : classifyPubSub name = .publish ∨ classifyPubSub name = .spublish) :
    name ∈ ["PUBLISH", "SPUBLISH"] := by
  unfold classifyPubSub at h
  grind

theorem not_mem_ownCommands (htxn : name ∉ ["MULTI", "DISCARD", "EXEC", "UNWATCH"])
    (hop : classifyPubSub name ∉ [.subscribe, .psubscribe, .ssubscribe, .publish, .spublish])
    (hn : name ∉ ["SWAPDB", "FLUSHALL", "FLUSHDB", "MOVE", "COPY", "RANDOMKEY"]) :
    name ∉ ownCommands := by
  unfold classifyPubSub at hop
  unfold ownCommands
  grind

/-- The frames of a command outside transactions. -/
theorem dispatch_sends (hc : c.argv ≠ []) (hS : ∀ argv, Direct A cfg s c argv → S { argv, src := c.src s })
    (hR : c.name ∉ ["SWAPDB", "FLUSHALL"] → ∀ v, R (some c.id) v)
    (hswap : c.name = "SWAPDB" → R (some c.id) errSwapDB)
    (hflush : c.name = "FLUSHALL" → R (some c.id) errFlushAll)
    (hn : c.name ∉ ["MULTI", "DISCARD", "EXEC", "UNWATCH"])
    (hraw : c.name ∉ ownCommands → s.db = 0 →
      S { argv := c.argv, raw := c.raw, src := c.src s }) :
    Sends A S R (fun r => r.1 = s ∨ (∃ mode, r.1 = { s with sub := some mode }) ∧
      c.name ∈ ["SUBSCRIBE", "PSUBSCRIBE", "SSUBSCRIBE"]) (dispatch cfg s c) := by
  have same : ∀ {p : Prog (Session × Outcome)}, Sends A S R (fun r => r.1 = s) p →
      Sends A S R (fun r => r.1 = s ∨ (∃ mode, r.1 = { s with sub := some mode }) ∧
        c.name ∈ ["SUBSCRIBE", "PSUBSCRIBE", "SSUBSCRIBE"]) p :=
    fun h => h.imp fun r hr => .inl hr
  have hname := ClientCmd.name_of_ne hc
  unfold dispatch
  dsimp only
  rw [← hname]
  split
  · rename_i hop
    have hmem := classifyPubSub_subscribe hop
    refine (enterSub_sends hS (hR (by grind)) hc).imp ?_
    intro r hr
    exact .inr ⟨hr, hmem⟩
  split
  · rename_i hop
    have hmem := classifyPubSub_publish hop
    exact same (cmdPublish_sends hS (hR (by grind)) hmem)
  split
  · exact same (finish_sends (hswap ‹_›))
  split
  · exact same (finish_sends (hflush ‹_›))
  rename_i hsubscribe hpublish hnswap hnflush
  have hR' := hR (by simp [hnswap, hnflush])
  split
  · exact same (cmdFlushDB_sends hS hR' ‹_›)
  split
  · exact same (cmdMove_sends hS hR' ‹_›)
  split
  · exact same (cmdCopy_sends hS hR' ‹_›)
  split
  · exact same (cmdRandomKey_sends hS hR' ‹_›)
  · rename_i hnflushDB hnmove hncopy hnrandom
    have hown : c.name ∉ ownCommands := by
      refine not_mem_ownCommands hn ?_ ?_
      · simp only [not_or] at hsubscribe hpublish
        simp [hsubscribe, hpublish]
      · simp [hnswap, hnflush, hnflushDB, hnmove, hncopy, hnrandom]
    exact same (forward_sends hS hR' hown (hraw hown))

/-- A command that needs a backend may get any reply. -/
theorem answers_of_none (h : answerHere cfg s c = none) (v : Value) :
    Answers cfg s c (some c.id) v :=
  ⟨rfl, fun w hw => by simp [h] at hw⟩

/-- A command that is answered here. -/
theorem finish_after {v : Value}
    (hhere : answerHere cfg s c = some v) (hnext : nextState cfg s c = s') (hsub : s'.sub = s.sub) :
    Sends A S (Answers cfg s c) (fun r => After cfg s c r.1) (finish s' c.id v) := by
  have hans : Answers cfg s c (some c.id) v :=
    ⟨rfl, fun w hw => Option.some.inj (hhere.symm.trans hw)⟩
  refine (finish_sends hans).imp ?_
  intro r hr
  exact After.of_eq (hr.trans hnext.symm) (by rw [hnext, hsub])

theorem multiStep_sub (s : Session) : (multiStep s).1.sub = s.sub := by
  unfold multiStep
  split <;> rfl

theorem discardStep_sub (s : Session) : (discardStep s).1.sub = s.sub := by
  unfold discardStep
  split <;> rfl

section

variable {s : Session} {c : ClientCmd} (hs : s.sub = none) (hsel : c.name ≠ "SELECT")
variable (hl : (localStep cfg s c.argv).2 = none)

include hs hsel hl

theorem nextState_remote : nextState cfg s c =
    if c.name = "MULTI" then (multiStep s).1
    else if c.name ∈ ["DISCARD", "EXEC"] then (discardStep s).1
    else if c.name ∈ ["WATCH", "UNWATCH"] then s
    else if s.multi then s.enqueue c
    else s := by
  simp [nextState, hs, hsel, hl]

theorem answerHere_remote : answerHere cfg s c =
    if c.name = "MULTI" then some (multiStep s).2
    else if c.name = "DISCARD" then some (discardStep s).2
    else if c.name ∈ ["EXEC", "WATCH", "UNWATCH"] then none
    else if s.multi then some queuedReply
    else if c.name = "SWAPDB" then some errSwapDB
    else if c.name = "FLUSHALL" then some errFlushAll
    else none := by
  simp [answerHere, hs, hsel, hl]

theorem handleRemote_sends :
    Sends A (Sent A cfg s c) (Answers cfg s c) (fun r => After cfg s c r.1)
      (handleRemote cfg s c) := by
  have hnext := nextState_remote hs hsel hl
  have hhere := answerHere_remote hs hsel hl
  unfold handleRemote
  split
  · -- `MULTI`
    rename_i hn
    rw [if_pos hn] at hnext hhere
    exact finish_after hhere hnext (multiStep_sub s)
  rename_i hmulti
  rw [if_neg hmulti] at hnext hhere
  split
  · -- `DISCARD`
    rename_i hn
    rw [if_pos (by simp [hn])] at hnext
    rw [if_pos hn] at hhere
    exact finish_after hhere hnext (discardStep_sub s)
  rename_i hdiscard
  rw [if_neg hdiscard] at hhere
  split
  · -- `EXEC`
    rename_i hn
    rw [if_pos (by simp [hn])] at hnext hhere
    refine (cmdExec_sends (answers_of_none hhere) ?_ ?_).imp ?_
    · intro hm p hp f hf
      exact .queued hn hm hs hp hf
    · intro w hw
      exact .control (by grind) (by simp [hn])
    · rintro r (⟨hr, hm⟩ | ⟨hm, pin, w, db, hr⟩)
      · refine After.of_eq ?_ ?_
        · rw [hr, hnext, discardStep, if_neg (by simp [hm])]
        · rw [hnext, discardStep, if_neg (by simp [hm])]
      · rw [discardStep, if_pos hm] at hnext
        rw [hr]
        exact ⟨by rw [hnext], by rw [hnext], by rw [hnext], by rw [hnext], fun h => absurd hn h,
          .inl rfl⟩
  rename_i hexec
  rw [if_neg (by simp [hdiscard, hexec])] at hnext
  split
  · -- `WATCH`
    rename_i hn
    rw [if_pos (by simp [hn])] at hnext hhere
    refine (cmdWatch_sends (answers_of_none hhere) ?_).imp ?_
    · intro hm argv hargv
      exact .direct hm hs (.forward (by rw [hn]; decide) hargv)
    · intro r hr
      exact After.of_watching (by rwa [hnext]) (by rw [hnext])
  rename_i hwatch
  split
  · -- `UNWATCH`
    rename_i hn
    rw [if_pos (by simp [hn])] at hnext hhere
    refine (cmdUnwatch_sends (answers_of_none hhere) ?_).imp ?_
    · exact .control (by simp) (by simp [hn])
    · intro r hr
      exact After.of_watching (by rwa [hnext]) (by rw [hnext])
  rename_i hunwatch
  rw [if_neg (by simp [hwatch, hunwatch])] at hnext
  rw [if_neg (by simp [hexec, hwatch, hunwatch])] at hhere
  split
  · -- queued
    rename_i hm
    rw [if_pos hm] at hnext hhere
    exact finish_after hhere hnext rfl
  rename_i hm
  rw [if_neg hm] at hnext hhere
  replace hm : s.multi = false := by simpa using hm
  have hsame : After cfg s c s := After.of_eq hnext.symm (by rw [hnext])
  split
  · exact hsame
  · rename_i hc
    refine (dispatch_sends hc (fun argv h => .direct hm hs h) ?_ ?_ ?_ ?_ ?_).imp ?_
    · intro hn v
      simp only [List.mem_cons, List.not_mem_nil, or_false, not_or] at hn
      rw [if_neg hn.1, if_neg hn.2] at hhere
      exact answers_of_none hhere v
    · intro hn
      refine ⟨rfl, fun w hw => ?_⟩
      rw [hhere, if_pos hn] at hw
      exact Option.some.inj hw
    · intro hn
      refine ⟨rfl, fun w hw => ?_⟩
      rw [hhere, if_neg (by simp [hn]), if_pos hn] at hw
      exact Option.some.inj hw
    · simp [hmulti, hdiscard, hexec, hunwatch]
    · intro hn hdb
      exact .raw hm hs hn hdb
    · rintro r (hr | ⟨⟨mode, hr⟩, hn⟩)
      · rwa [hr]
      · rw [hr]
        exact ⟨hsame.authed, hsame.quit, hsame.multi, hsame.queued, hsame.db, .inr ⟨hs, hm, hn⟩⟩

end

theorem answerHere_sub (cfg : Config) (c : ClientCmd) (hs : s.sub ≠ none) :
    answerHere cfg s c =
      if c.name ∉ ["PING", "QUIT"] ∧
          classifyPubSub c.name ∈ [.none, .publish, .spublish, .pubsub] then some errSubMode
      else none := by
  rw [answerHere, if_pos hs]

/-- In subscribe mode only subscription commands reach a backend. -/
theorem handleSub_sends {mode : Mode} (hs : s.sub = some mode) (hc : c.argv ≠ []) :
    Sends A (Sent A cfg s c) (Answers cfg s c) (fun r => After cfg s c r.1)
      (handleSub cfg s mode c) := by
  have hsub : s.sub ≠ none := by simp [hs]
  have hname := ClientCmd.name_of_ne hc
  have hnext : nextState cfg s c = { s with quit := s.quit || decide (c.name = "QUIT") } := by
    rw [nextState, if_pos hsub]
  have hsame : c.name ≠ "QUIT" → After cfg s c s := by
    intro hn
    have hnext' : nextState cfg s c = s := by simp [hnext, hn]
    exact After.of_eq hnext'.symm (by rw [hnext'])
  have hhere := answerHere_sub cfg c hsub
  unfold handleSub
  rw [← hname]
  split
  · rename_i hn
    rw [if_neg (by simp [hn])] at hhere
    refine (finish_sends (answers_of_none hhere _)).imp ?_
    rintro r hr
    rw [hr]
    exact hsame (by simp [hn])
  split
  · rename_i hn
    rw [if_neg (by simp [hn])] at hhere
    refine (finish_sends (answers_of_none hhere _)).imp ?_
    intro r hr
    refine After.of_eq ?_ (by rw [hnext])
    rw [hr, hnext]
    simp [hn]
  · rename_i hping hquit
    refine (handleClientCmd_sends cfg hc mode fun argv h => .subscribed hsub h).bind ?_
    intro vs hvs
    have hans : ∀ v ∈ vs, Answers cfg s c (some c.id) v := by
      intro v hv
      refine ⟨rfl, fun w hw => ?_⟩
      rw [hhere] at hw
      split at hw
      · rename_i hrefused
        rw [hvs.2 hrefused.2] at hv
        rw [List.mem_singleton.1 hv]
        exact Option.some.inj hw
      · cases hw
    refine (replyAll_sends hans).imp ?_
    intro r hr
    rw [hr]
    exact hsame hquit

/-- `handleLocal` is `localStep`, and `RESET` drops the pin besides. -/
theorem handleLocal_idle (s : Session) (argv : Argv) :
    Idle A (fun r => r = localStep cfg s argv) (handleLocal cfg s argv) := by
  unfold handleLocal
  split
  · exact (dropPin_idle s).bind fun _ _ => rfl
  · rfl

/-- What `handle` sends and answers, and the state it leaves. -/
theorem handle_sends (A : Event → Prop) (cfg : Config) (s : Session) (c : ClientCmd) :
    Sends A (Sent A cfg s c) (Answers cfg s c) (fun r => After cfg s c r.1) (handle cfg s c) := by
  unfold handle
  cases hs : s.sub with
  | some mode =>
    dsimp only
    split
    · rename_i hc
      have hn : c.name = "unknown" := by rw [ClientCmd.name, if_pos hc]
      have hnext : nextState cfg s c = s := by rw [nextState, if_pos (by simp [hs])]; simp [hn]
      exact After.of_eq hnext.symm (by rw [hnext])
    · exact handleSub_sends hs ‹_›
  | none =>
    dsimp only
    split
    · rename_i hsel
      refine finish_after ?_ ?_ (selectStep_sub s c)
      · simp [answerHere, hs, hsel]
      · simp [nextState, hs, hsel]
    · rename_i hsel
      refine (Idle.sends (handleLocal_idle s c.argv)).bind ?_
      rintro r rfl
      cases hl : (localStep cfg s c.argv).2 with
      | none =>
        have hsame := localStep_none hl
        rw [localStep_eq_none hl]
        exact handleRemote_sends hs hsel hl
      | some v =>
        rw [localStep_eq_some hl]
        refine finish_after ?_ ?_ (localStep_sub s c.argv)
        · simp [answerHere, hs, hsel, hl]
        · simp [nextState, hs, hsel, hl]

end RespProxy.Proxy
