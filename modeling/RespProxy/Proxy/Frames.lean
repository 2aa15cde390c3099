import RespProxy.Proxy.Pipeline

/-! # What is sent for a command

One description of the frames `handle` may write and of the replies it may
give, from which the results about single commands, batches and runs are
derived:

* `Direct`: the arguments of the frames sent at once for a command;
* `Sent`: those, and the queued commands that `EXEC` sends;
* `handle_sends` (in the module `Sends`): `handle` sends nothing else, and answers
  only its own command.

`Foot S R` is the shape of such a description: frames in `S`, replies in `R`,
any other request.
-/

namespace RespProxy

open Cluster Command Resp Proxy

variable {c : ClientCmd} {f : Frame} {src : Origin} {s : Session}
variable {v : Value} {cmd kind : String} {s' : Session} {id : CmdId} {rewrite : Bool} {e : Event}
  {queue : List QueuedCmd} {vs : List Value} {argv : Argv}

/-- The event writes only frames in `S` and gives only replies in `R`. -/
def Foot (S : Frame → Prop) (R : Option CmdId → Value → Prop) (e : Event) : Prop :=
  match e.op with
  | .write _ fs => ∀ f ∈ fs, S f
  | .cwrite id v => R id v
  | _ => True

theorem Foot.mono {S S' : Frame → Prop} {R R' : Option CmdId → Value → Prop}
    (h : Foot S R e) (hS : ∀ f, S f → S' f) (hR : ∀ id v, R id v → R' id v) : Foot S' R' e := by
  obtain ⟨o, r⟩ := e
  cases o <;> try trivial
  · exact fun f hf => hS f (h f hf)
  · exact hR _ _ h

/-- `p` writes frames in `S`, replies in `R`, and returns results in `Q`, as long
as the answers satisfy `A`. -/
abbrev Sends (A : Event → Prop) (S : Frame → Prop) (R : Option CmdId → Value → Prop)
    {α : Type} (Q : α → Prop) (p : Prog α) : Prop :=
  p.Ensures A (Foot S R) Q

/-- The event reads the topology or closes a connection. -/
def IdleEvent (e : Event) : Prop :=
  match e.op with
  | .load | .drop _ => True
  | _ => False

/-- A program that does no more than that. -/
abbrev Idle (A : Event → Prop) {α : Type} (Q : α → Prop) (p : Prog α) : Prop :=
  p.Ensures A IdleEvent Q

/-- A program that writes no frame and gives no reply. -/
abbrev Silent (A : Event → Prop) {α : Type} (Q : α → Prop) (p : Prog α) : Prop :=
  Sends A (fun _ => False) (fun _ _ => False) Q p

section

variable {A : Event → Prop} {S S' : Frame → Prop} {R R' : Option CmdId → Value → Prop}
variable {α : Type} {Q Q' : α → Prop} {p : Prog α}

theorem Sends.weaken (h : Sends A S R Q p) (hS : ∀ f, S f → S' f)
    (hR : ∀ id v, R id v → R' id v) (hQ : ∀ a, Q a → Q' a) : Sends A S' R' Q' p :=
  h.mono (fun _ _ he => he.mono hS hR) hQ

theorem Sends.imp (h : Sends A S R Q p) (hQ : ∀ a, Q a → Q' a) : Sends A S R Q' p :=
  h.mono (fun _ _ he => he) hQ

theorem Sends.any (h : Sends A S R Q p) : Sends A S R (fun _ => True) p := h.imp fun _ _ => trivial

theorem Silent.sends (h : Silent A Q p) : Sends A S R Q p :=
  Sends.weaken h (fun _ hf => hf.elim) (fun _ _ hr => hr.elim) fun _ ha => ha

theorem IdleEvent.foot (h : IdleEvent e) : Foot S R e := by
  obtain ⟨o, r⟩ := e
  cases o <;> trivial

theorem Idle.sends (h : Idle A Q p) : Sends A S R Q p :=
  Interact.Prog.Ensures.mono h (fun _ _ he => he.foot) fun _ ha => ha

theorem Cluster.InnerEvent.foot (h : InnerEvent e) : Foot S R e := by
  obtain ⟨o, r⟩ := e
  cases o <;> trivial

theorem Cluster.Inner.sends {p : Prog α} (h : Inner A p) : Sends A S R (fun _ => True) p :=
  Interact.Prog.Ensures.mono h (fun _ _ he => he.foot) fun _ ha => ha

/-! ## The router -/

variable (cfg : Config)

theorem nodeForSlot_idle (slot : Nat) (read : Bool) :
    Idle A (fun _ => True) (nodeForSlot cfg slot read) := fun _ _ => ⟨trivial, trivial⟩

theorem anyMaster_idle : Idle A (fun _ => True) (anyMaster cfg) :=
  fun _ _ => ⟨trivial, trivial⟩

theorem owner_idle (slot : Nat) (read : Bool) : Idle A (fun _ => True) (owner cfg slot read) := by
  refine (nodeForSlot_idle cfg slot read).bind ?_
  intro n _
  cases n with
  | some n => trivial
  | none => exact (anyMaster_idle cfg).bind fun _ _ => trivial

/-- With a seed in the configuration there always is a node. -/
theorem anyMaster_loads {cfg : Config} (hseeds : cfg.clusterSeeds ≠ []) :
    (anyMaster cfg).Ensures A (fun e => e.op = .load) fun n => ∃ m, n = some m := by
  obtain ⟨seed, rest, hrest⟩ := List.exists_cons_of_ne_nil hseeds
  refine fun t _ => ⟨rfl, ?_⟩
  show ∃ m, (Option.bind t Topology.firstMaster <|> _) = some m
  cases Option.bind t Topology.firstMaster with
  | some m => exact ⟨m, rfl⟩
  | none => simp [hrest]

theorem owner_loads {cfg : Config} (hseeds : cfg.clusterSeeds ≠ []) (slot : Nat) (read : Bool) :
    (owner cfg slot read).Ensures A (fun e => e.op = .load) fun a => ∃ addr, a = some addr := by
  have hslot : (nodeForSlot cfg slot read).Ensures A (fun e => e.op = .load) fun _ => True :=
    fun _ _ => ⟨rfl, trivial⟩
  refine hslot.bind ?_
  intro n _
  cases n with
  | some n => exact ⟨n.addr, rfl⟩
  | none =>
    refine (anyMaster_loads hseeds).bind ?_
    rintro _ ⟨m, rfl⟩
    exact ⟨m.addr, rfl⟩

/-- The address of a hop is found without touching anything. -/
theorem hopAddr_loads {cfg : Config} (hseeds : cfg.clusterSeeds ≠ []) (slot : Nat) (hint : Addr)
    (read : Bool) :
    (hopAddr cfg slot hint read).Ensures A (fun e => e.op = .load)
      fun a => ∃ addr, a = some addr ∧ (hint ≠ "" → addr = hint) := by
  unfold hopAddr
  split
  · exact ⟨hint, rfl, fun _ => rfl⟩
  · next hempty =>
    refine (owner_loads hseeds slot read).mono (fun _ _ he => he) ?_
    rintro _ ⟨addr, rfl⟩
    exact ⟨addr, rfl, fun hne => absurd hne hempty⟩

theorem IdleEvent.of_load (h : e.op = .load) : IdleEvent e := by
  rw [IdleEvent, h]
  trivial

theorem hopAddr_found {cfg : Config} (hseeds : cfg.clusterSeeds ≠ []) (slot : Nat) (hint : Addr)
    (read : Bool) : Idle A (fun a => ∃ addr, a = some addr) (hopAddr cfg slot hint read) := by
  refine (hopAddr_loads hseeds slot hint read).mono (fun _ _ he => .of_load he) ?_
  rintro _ ⟨addr, rfl, _⟩
  exact ⟨addr, rfl⟩

theorem getConn_silent (addr : Addr) (replica : Bool) :
    Silent A (fun _ => True) (getConn cfg addr replica) := fun _ _ => ⟨trivial, trivial⟩

theorem checkout_silent (slot : Nat) : Silent A (fun _ => True) (checkout cfg slot) := by
  refine (owner_inner slot false).sends.bind ?_
  intro addr _
  cases addr with
  | none => trivial
  | some addr => exact getConn_silent cfg addr false

/-- A round trip writes its frame; a value it returns was read for it. -/
theorem doFrame_sends (hf : S f) (c : ConnId) :
    Sends A S R (fun r => ∀ v, r = .ok v → A ⟨.read c f, .ok v⟩) (doFrame c f) := by
  intro r _
  refine ⟨?_, ?_⟩
  · intro g hg
    rwa [List.mem_singleton.1 hg]
  · cases r with
    | some e =>
      intro v hv
      cases hv
    | none =>
      intro r' hr'
      refine ⟨trivial, ?_⟩
      rintro v rfl
      exact hr'

theorem askAndDo_sends (hf : S f) (ha : S (askingFrame f)) (c : ConnId) (asking : Bool) :
    Sends A S R (fun r => ∀ v, r = .ok v → A ⟨.read c f, .ok v⟩) (askAndDo c asking f) := by
  unfold askAndDo
  cases asking with
  | false => exact doFrame_sends hf c
  | true => exact (doFrame_sends ha c).bindOk (fun _ _ hv => by cases hv) fun _ _ => doFrame_sends hf c

/-- One hop writes its frame, maybe behind an `ASKING`; its value was read for the frame. -/
theorem hop_sends (hf : S f) (ha : S (askingFrame f)) (addr : Addr) (replica asking : Bool) :
    Sends A S R (fun r => ∀ v, r = .ok v → ∃ c, A ⟨.read c f, .ok v⟩)
      (hop cfg addr replica asking f) := by
  refine (Silent.sends (getConn_silent cfg addr replica)).bindOk (fun _ _ hv => by cases hv)
    fun c _ => ?_
  refine (askAndDo_sends hf ha c asking).bindOk (fun _ _ _ => ⟨trivial, fun _ hv => by cases hv⟩)
    fun w hw _ _ => ⟨trivial, ?_⟩
  rintro v hv
  cases hv
  exact ⟨c, hw w rfl⟩

theorem execHops_sends (hf : S f) (ha : S (askingFrame f)) (hops slot : Nat)
    (hint : Addr) (read asking : Bool) (last : Value) :
    Sends A S R (fun r => ∀ v, r = .ok v → hops = 0 ∧ v = last ∨ ∃ c, A ⟨.read c f, .ok v⟩)
      (execHops cfg f hops slot hint read asking last) := by
  induction hops generalizing slot hint read asking last with
  | zero =>
    intro v hv
    cases hv
    exact .inl ⟨rfl, rfl⟩
  | succ hops ih =>
    have hnone : ∀ e : Err, ∀ v, (Except.error e : Except Err Value) = .ok v →
        hops + 1 = 0 ∧ v = last ∨ ∃ c, A ⟨.read c f, .ok v⟩ := fun _ _ h => by cases h
    intro r _
    refine ⟨trivial, ?_⟩
    cases r with
    | some e => exact hnone e
    | none =>
      refine (hopAddr_inner slot hint _).sends.bind ?_
      intro addr _
      cases addr with
      | none => exact hnone _
      | some addr =>
        refine (hop_sends cfg hf ha addr _ asking).bindOk (fun e => hnone e) fun v hr => ?_
        -- a later hop ends with what it read, or with `v` where the limit is reached
        have hnext : ∀ slot hint read asking,
            Sends A S R (fun r => ∀ w, r = .ok w →
              hops + 1 = 0 ∧ w = last ∨ ∃ c, A ⟨.read c f, .ok w⟩)
            (execHops cfg f hops slot hint read asking v) := by
          intro slot hint read asking
          refine (ih slot hint read asking v).imp ?_
          intro r hread w hw
          rcases hread w hw with ⟨-, rfl⟩ | hread
          · exact .inr (hr w rfl)
          · exact .inr hread
        cases hred : redirectOf v with
        | none =>
          simp only [hred]
          intro w hw
          cases hw
          exact .inr (hr v rfl)
        | some red =>
          simp only [hred]
          split
          · refine (updateSlotAt_inner red.slot red.addr).sends.bind ?_
            intro _ _
            exact hnext _ _ _ _
          · exact hnext _ _ _ _

/-- The reply of `Exec` was read for its frame. -/
theorem exec_reads (hf : S f) (ha : S (askingFrame f)) (slot : Nat) (read : Bool) :
    Sends A S R (fun r => ∀ v, r = .ok v →
      cfg.movedHopLimit = 0 ∨ ∃ c, A ⟨.read c f, .ok v⟩) (exec cfg slot f read) := by
  refine (execHops_sends cfg hf ha _ slot "" read false _).imp ?_
  intro r hr v hv
  exact (hr v hv).imp_left And.left

theorem exec_sends (hf : S f) (ha : S (askingFrame f)) (slot : Nat) (read : Bool) :
    Sends A S R (fun _ => True) (exec cfg slot f read) :=
  Sends.any (exec_reads cfg hf ha slot read)

/-! ## Replies -/

theorem reply_sends {id : Option CmdId} (h : R id v) :
    Sends A S R (fun _ => True) (reply id v) := by
  intro r _
  refine ⟨trivial, ?_⟩
  cases r with
  | some e => trivial
  | none =>
    intro r _
    refine ⟨h, ?_⟩
    cases r with
    | some e => trivial
    | none =>
      intro r _
      refine ⟨trivial, ?_⟩
      cases r <;> trivial

theorem finish_sends (h : R (some id) v) :
    Sends A S R (fun r => r.1 = s) (finish s id v) :=
  (reply_sends h).bind fun _ _ => rfl

theorem dropPin_idle (s : Session) : Idle A (fun s' => s' = s.unpin) (dropPin s) := by
  unfold dropPin
  cases s.pin with
  | none => rfl
  | some c => exact fun _ _ => ⟨trivial, rfl⟩

theorem dropPin_silent (s : Session) : Silent A (fun s' => s' = s.unpin) (dropPin s) :=
  Idle.sends (dropPin_idle s)

theorem replyAll_sends
    (h : ∀ v ∈ vs, R (some id) v) : Sends A S R (fun r => r.1 = s) (replyAll s id vs) := by
  induction vs with
  | nil => rfl
  | cons v vs ih =>
    refine (reply_sends (h v List.mem_cons_self)).bind ?_
    intro o _
    cases o with
    | ok => exact ih fun w hw => h w (List.mem_cons_of_mem v hw)
    | err e => rfl
    | panic => rfl
    | running => rfl

end

/-! ## The frames of a command -/

namespace Proxy

/-- The arguments of the frames a subscription command sends. -/
inductive SubArgv (c : ClientCmd) : Argv → Prop where
  | channel {w : String} {ch : Slice}
      (hw : w ∈ ["SUBSCRIBE", "SSUBSCRIBE", "UNSUBSCRIBE", "SUNSUBSCRIBE"]) :
      SubArgv c [arg w, ch]
  | pattern (hn : c.name ∈ ["PSUBSCRIBE", "PUNSUBSCRIBE"]) : SubArgv c c.argv

/-- The frames of a transfer of `key` to `dst`. -/
inductive TransferArgv (key dst : Slice) : Argv → Prop where
  | present : TransferArgv key dst [arg "EXISTS", dst]
  | rename : TransferArgv key dst [arg "RENAME", key, dst]
  | copy {opts : Argv} (ho : opts = [] ∨ opts = [arg "REPLACE"]) :
      TransferArgv key dst ([arg "COPY", key, dst] ++ opts)
  | dump : TransferArgv key dst [arg "DUMP", key]
  | restore {payload : Slice} {opts : Argv} (ho : opts = [] ∨ opts = [arg "REPLACE"]) :
      TransferArgv key dst ([arg "RESTORE", dst, arg "0", payload] ++ opts)
  | del : TransferArgv key dst [arg "DEL", key]

/-- The two keys of a `MOVE` or a `COPY`, each with the prefix of its database. -/
inductive TransferKeys (cfg : Config) (s : Session) (c : ClientCmd) : Slice → Slice → Prop where
  | move {cmd key db : Slice} {n : Nat} (hn : c.name = "MOVE") (ha : c.argv = [cmd, key, db])
      (hdb : parseDBIndex db cfg.maxDatabases = .ok n) :
      TransferKeys cfg s c (prefixKey s.db key) (prefixKey n key)
  | copy {cmd key dst : Slice} {opts : Argv} {n : Nat} {replace : Bool} (hn : c.name = "COPY")
      (ha : c.argv = cmd :: key :: dst :: opts)
      (hdb : copyArgs cfg opts s.db false = .ok (n, replace)) :
      TransferKeys cfg s c (prefixKey s.db key) (prefixKey n dst)

/-- The names behind `EXEC` and `WATCH` in `handle` that have code of their own. -/
def ownCommands : List String :=
  ["MULTI", "DISCARD", "EXEC", "UNWATCH", "SUBSCRIBE", "PSUBSCRIBE", "SSUBSCRIBE", "PUBLISH",
    "SPUBLISH", "SWAPDB", "FLUSHALL", "FLUSHDB", "MOVE", "COPY", "RANDOMKEY"]

/-- The arguments of the frames sent at once for a command outside `MULTI`. The
keys of a `DEL` come from a `SCAN` reply that satisfies `A`. -/
inductive Direct (A : Event → Prop) (cfg : Config) (s : Session) (c : ClientCmd) :
    Argv → Prop where
  | forward {argv : Argv} (hn : c.name ∉ ownCommands)
      (h : rewriteArgv c.argv s.db = some argv) : Direct A cfg s c argv
  | fanout {argv out : Argv} {keys : List Slice} {g : KeyGroup} (hn : c.name ∉ ownCommands)
      (h : rewriteArgv c.argv s.db = some argv) (hf : fanoutOf argv ≠ .none)
      (hk : extractKeys argv = some keys) (hg : g ∈ groupBySlot keys (slotOf cfg))
      (hr : rebuildFanoutArgv argv g = some out) : Direct A cfg s c out
  | publish {fl : Flavor} (hn : c.name ∈ ["PUBLISH", "SPUBLISH"]) :
      Direct A cfg s c (rewritePublish fl c.argv)
  | sub {argv : Argv} (h : SubArgv c argv) : Direct A cfg s c argv
  | flushDB (hn : c.name = "FLUSHDB") (hdb : s.db = 0) : Direct A cfg s c [arg "FLUSHDB"]
  | scan {cursor count : Slice} (hn : c.name ∈ ["FLUSHDB", "RANDOMKEY"]) (hdb : s.db ≠ 0) :
      Direct A cfg s c [arg "SCAN", cursor, arg "MATCH", dbPattern s.db, arg "COUNT", count]
  | del {conn : ConnId} {cursor : Slice} {f : Frame} {v next keys : Value} {rest : List Value}
      (hn : c.name = "FLUSHDB") (hdb : s.db ≠ 0)
      (hf : f.argv = [arg "SCAN", cursor, arg "MATCH", dbPattern s.db, arg "COUNT", arg "256"])
      (hA : A ⟨.read conn f, .ok v⟩) (ht : v.type = .array) (hv : v.values = next :: keys :: rest) :
      Direct A cfg s c (arg "DEL" :: delArgv keys)
  | randomKey (hn : c.name = "RANDOMKEY") (hdb : s.db = 0) : Direct A cfg s c [arg "RANDOMKEY"]
  | transfer {key dst : Slice} {argv : Argv} (hk : TransferKeys cfg s c key dst)
      (ha : TransferArgv key dst argv) : Direct A cfg s c argv
  | asking : Direct A cfg s c [arg "ASKING"]

/-- The frames `handle` may send for `c` in state `s`. -/
inductive Sent (A : Event → Prop) (cfg : Config) (s : Session) (c : ClientCmd) : Frame → Prop where
  | direct {argv : Argv} (hm : s.multi = false) (hs : s.sub = none)
      (h : Direct A cfg s c argv) : Sent A cfg s c { argv, src := c.src s }
  | raw (hm : s.multi = false) (hs : s.sub = none) (hn : c.name ∉ ownCommands) (hdb : s.db = 0) :
      Sent A cfg s c { argv := c.argv, raw := c.raw, src := c.src s }
  | subscribed {argv : Argv} (hs : s.sub ≠ none) (h : SubArgv c argv) :
      Sent A cfg s c { argv, src := c.src s }
  | control {w : String} (hw : w ∈ ["MULTI", "EXEC", "UNWATCH"])
      (hn : c.name ∈ ["EXEC", "UNWATCH"]) : Sent A cfg s c { argv := [arg w], src := c.src s }
  | queued {p : ExecPlan} {f : Frame} (hn : c.name = "EXEC") (hm : s.multi = true)
      (hs : s.sub = none) (hp : execPlan cfg s.db s.queued = some p) (hf : f ∈ p.backend) :
      Sent A cfg s c f

/-- The value `handle` answers with when it needs no backend for it. -/
def answerHere (cfg : Config) (s : Session) (c : ClientCmd) : Option Value :=
  if s.sub ≠ none then
    if c.name ∉ ["PING", "QUIT"] ∧ classifyPubSub c.name ∈ [.none, .publish, .spublish, .pubsub] then
      some errSubMode
    else none
  else if c.name = "SELECT" then some (selectStep cfg s c).2
  else match (localStep cfg s c.argv).2 with
    | some v => some v
    | none =>
      if c.name = "MULTI" then some (multiStep s).2
      else if c.name = "DISCARD" then some (discardStep s).2
      else if c.name ∈ ["EXEC", "WATCH", "UNWATCH"] then none
      else if s.multi then some queuedReply
      else if c.name = "SWAPDB" then some errSwapDB
      else if c.name = "FLUSHALL" then some errFlushAll
      else none

/-- A reply to `c` itself, and the expected one where no backend is asked. -/
def Answers (cfg : Config) (s : Session) (c : ClientCmd) (id : Option CmdId) (v : Value) : Prop :=
  id = some c.id ∧ ∀ w, answerHere cfg s c = some w → v = w

variable {A : Event → Prop} {S : Frame → Prop} {R : Option CmdId → Value → Prop} (cfg : Config)

/-! ## Subscriptions -/

theorem ensureBackend_silent (addr : Addr) :
    Silent A (fun _ => True) (ensureBackend cfg addr) := by
  intro r _
  refine ⟨trivial, ?_⟩
  cases r with
  | some c => trivial
  | none =>
    refine (getConn_silent cfg addr false).bindOk (fun _ => trivial) fun c _ => ?_
    exact fun _ _ => ⟨trivial, trivial⟩

/-- The values that answer a subscription command: errors of the proxy, acknowledgements
that arrived, and arrays made up for one that did not, or in other words. -/
inductive SubReply (A : Event → Prop) : Value → Prop where
  | err (e : Err) : SubReply A (errOf e)
  | ack {conn : ConnId} {v : Value} (h : A ⟨.waitAck conn, .ok v⟩) : SubReply A v
  | made (vs : List Value) : SubReply A (array vs)

theorem SubReply.told {conn : ConnId} (h : A ⟨.waitAck conn, .ok v⟩) (kind : String)
    (ch : Slice) (count : Nat) (rewrite : Bool) :
    SubReply A (clientAck v kind ch count rewrite) := by
  unfold clientAck
  split
  · exact .ack h
  · exact .made _

abbrev SubReplies (A : Event → Prop) (vs : List Value) : Prop := ∀ v ∈ vs, SubReply A v

theorem SubReply.only (h : SubReply A v) : SubReplies A [v] :=
  List.forall_mem_singleton.2 h

theorem subRoundTrip_sends (hf : S f) (c : ConnId) :
    Sends A S R (fun r => ∀ v, r = .ok v → A ⟨.waitAck c, .ok v⟩) (subRoundTrip c f) := by
  intro r _
  refine ⟨?_, ?_⟩
  · intro g hg
    rwa [List.mem_singleton.1 hg]
  · cases r with
    | some e =>
      intro v hv
      cases hv
    | none =>
      intro r hr
      refine ⟨trivial, ?_⟩
      rintro v rfl
      exact hr

theorem subscribeLoop_sends {chs : List Slice}
    (hS : ∀ ch ∈ chs, S { argv := [arg cmd, ch], src }) (hvs : SubReplies A vs) :
    Sends A S R (SubReplies A) (subscribeLoop cfg src cmd kind rewrite chs vs) := by
  induction chs generalizing vs with
  | nil => exact hvs
  | cons ch chs ih =>
    refine (owner_inner _ _).sends.bind ?_
    intro addr _
    cases addr with
    | none => exact (SubReply.err "no backend nodes").only
    | some addr =>
      refine (Silent.sends (ensureBackend_silent cfg addr)).bindOk (fun e => (SubReply.err e).only)
        fun c _ => ?_
      refine (subRoundTrip_sends (hS ch List.mem_cons_self) c).bind ?_
      intro r hr
      cases r with
      | error e => exact (SubReply.err e).only
      | ok ack =>
        refine fun _ _ => ⟨trivial, ih (fun ch' h => hS ch' (List.mem_cons_of_mem ch h)) ?_⟩
        exact List.forall_mem_append.2 ⟨hvs, (SubReply.told (hr ack rfl) _ _ _ _).only⟩

theorem unsubscribeOne_sends {ch : Slice} (hS : S { argv := [arg cmd, ch], src }) :
    Sends A S R (SubReply A) (unsubscribeOne src cmd kind rewrite ch) := by
  intro addr _
  refine ⟨trivial, ?_⟩
  intro r _
  refine ⟨trivial, ?_⟩
  cases r with
  | none => exact fun _ _ => ⟨trivial, .made _⟩
  | some c =>
    intro r _
    refine ⟨?_, ?_⟩
    · intro g hg
      rwa [List.mem_singleton.1 hg]
    · intro r hr
      refine ⟨trivial, ?_⟩
      cases r with
      | error e => exact fun _ _ => ⟨trivial, .made _⟩
      | ok ack => exact fun _ _ => ⟨trivial, .told hr _ _ _ _⟩

theorem unsubscribeLoop_sends (hS : ∀ ch, S { argv := [arg cmd, ch], src }) (chs : List Slice) :
    Sends A S R (SubReplies A) (unsubscribeLoop src cmd kind rewrite chs) := by
  induction chs with
  | nil => exact List.forall_mem_nil _
  | cons ch chs ih =>
    refine (unsubscribeOne_sends (hS ch)).bind ?_
    intro v hv
    exact ih.bind fun vs hvs => List.forall_mem_cons.2 ⟨hv, hvs⟩

theorem classifyPubSub_pattern {name : String}
    (h : classifyPubSub name = .psubscribe ∨ classifyPubSub name = .punsubscribe) :
    name ∈ ["PSUBSCRIBE", "PUNSUBSCRIBE"] := by
  unfold classifyPubSub at h
  grind

theorem subscribe_sends (mode : Mode) (chs : List Slice) (fromGlobal : Bool)
    (hS : ∀ w ∈ ["SUBSCRIBE", "SSUBSCRIBE", "UNSUBSCRIBE", "SUNSUBSCRIBE"], ∀ ch,
      S { argv := [arg w, ch], src }) :
    Sends A S R (SubReplies A) (subscribe cfg mode src chs fromGlobal) := by
  unfold subscribe
  dsimp only
  split
  · exact (SubReply.err "wrong number of arguments for 'subscribe' command").only
  · refine subscribeLoop_sends cfg (fun ch _ => hS _ ?_ ch) (List.forall_mem_nil _)
    split <;> simp

theorem unsubscribe_sends (mode : Mode) (chs : List Slice) (fromGlobal : Bool)
    (hS : ∀ w ∈ ["SUBSCRIBE", "SSUBSCRIBE", "UNSUBSCRIBE", "SUNSUBSCRIBE"], ∀ ch,
      S { argv := [arg w, ch], src }) :
    Sends A S R (SubReplies A) (unsubscribe mode src chs fromGlobal) := by
  intro known _
  refine ⟨trivial, ?_⟩
  refine unsubscribeLoop_sends (fun ch => hS _ ?_ ch) _
  split <;> simp

theorem patternRoundTrip_sends (hS : S { argv, src }) :
    Sends A S R (SubReplies A) (patternRoundTrip cfg src argv) := by
  refine anyMaster_inner.sends.bind ?_
  intro n _
  cases n with
  | none => exact (SubReply.err "no backend nodes").only
  | some n =>
    refine (Silent.sends (ensureBackend_silent cfg n.addr)).bindOk (fun e => (SubReply.err e).only)
      fun c _ => ?_
    refine (subRoundTrip_sends hS c).bind ?_
    intro r hr
    cases r with
    | error e => exact (SubReply.err e).only
    | ok ack => exact (SubReply.ack (hr ack rfl)).only

/-- What a subscription command sends and is answered with, and that anything else is refused. -/
theorem handleClientCmd_sends (hc : c.argv ≠ []) (mode : Mode)
    (hS : ∀ argv, SubArgv c argv → S { argv, src }) :
    Sends A S R (fun vs => SubReplies A vs ∧
      (classifyPubSub c.name ∈ [.none, .publish, .spublish, .pubsub] → vs = [errSubMode]))
      (handleClientCmd cfg mode src c.argv) := by
  have hch : ∀ w ∈ ["SUBSCRIBE", "SSUBSCRIBE", "UNSUBSCRIBE", "SUNSUBSCRIBE"], ∀ ch,
      S { argv := [arg w, ch], src } := fun w hw ch => hS _ (.channel hw)
  have hpat : c.name ∈ ["PSUBSCRIBE", "PUNSUBSCRIBE"] →
      Sends A S R (SubReplies A) (patternRoundTrip cfg src c.argv) :=
    fun h => patternRoundTrip_sends cfg (hS _ (.pattern h))
  -- a command that sends something is not one of the refused ones
  have sends : ∀ {p : Prog (List Value)}, Sends A S R (SubReplies A) p →
      classifyPubSub c.name ∉ [.none, .publish, .spublish, .pubsub] →
      Sends A S R (fun vs => SubReplies A vs ∧
        (classifyPubSub c.name ∈ [.none, .publish, .spublish, .pubsub] → vs = [errSubMode])) p :=
    fun h hn => h.imp fun _ hvs => ⟨hvs, fun hin => absurd hin hn⟩
  unfold handleClientCmd
  rw [← ClientCmd.name_of_ne hc]
  cases hop : classifyPubSub c.name with
  | none | publish | spublish | pubsub =>
    exact ⟨(SubReply.err "only (UN)SUBSCRIBE / PING / QUIT allowed in this mode").only, fun _ => rfl⟩
  | subscribe =>
    rw [hop] at sends
    exact sends (subscribe_sends cfg mode _ true hch) (by decide)
  | ssubscribe =>
    rw [hop] at sends
    exact sends (subscribe_sends cfg mode _ false hch) (by decide)
  | unsubscribe =>
    rw [hop] at sends
    exact sends (unsubscribe_sends mode _ true hch) (by decide)
  | sunsubscribe =>
    rw [hop] at sends
    exact sends (unsubscribe_sends mode _ false hch) (by decide)
  | psubscribe | punsubscribe =>
    rw [hop] at sends
    refine sends ?_ (by decide)
    dsimp only
    split
    · exact (SubReply.err "PSUBSCRIBE is not supported against Dragonfly cluster").only
    · exact hpat (classifyPubSub_pattern (by simp [hop]))

/-! ## Transactions -/

theorem checkout_sends (slot : Nat) : Sends A S R (fun _ => True) (checkout cfg slot) :=
  Silent.sends (checkout_silent cfg slot)

/-- The pinned connection is the old one or a new one; nothing else changes. -/
theorem ensurePin_silent (s : Session) (slot : Nat) :
    Silent A (fun r => ∀ s' c, r = .ok (s', c) →
      s'.pin = some c ∧ ∃ gen, s' = { s with pin := some c, pinGen := gen })
      (ensurePin cfg s slot) := by
  unfold ensurePin
  cases hpin : s.pin with
  | some c =>
    rintro s' c' h
    cases h
    exact ⟨hpin, s.pinGen, by rw [← hpin]⟩
  | none =>
    refine (checkout_silent cfg slot).bindOk (fun _ _ _ h => by cases h) fun c _ => ?_
    refine generation_inner.sends.bind ?_
    rintro gen - s' c' h
    cases h
    exact ⟨rfl, gen, rfl⟩

/-- What `EXEC` sends are the commands of the queue, each translated for the database
that is selected in its place. -/
theorem mem_execPlan_backend {db : Nat} {p : ExecPlan}
    (hp : execPlan cfg db queue = some p) (hf : f ∈ p.backend) :
    ∃ q ∈ queue, ∃ argv db', rewriteArgv q.argv db' = some argv ∧
      f = { argv, src := .client q.id q.argv db' true } := by
  induction queue generalizing db p with
  | nil =>
    cases hp
    cases hf
  | cons q qs ih =>
    have hrest : ∀ {db p}, execPlan cfg db qs = some p → f ∈ p.backend →
        ∃ q' ∈ q :: qs, ∃ argv db', rewriteArgv q'.argv db' = some argv ∧
          f = { argv, src := .client q'.id q'.argv db' true } := by
      intro db p hp hf
      obtain ⟨q', hq, h⟩ := ih hp hf
      exact ⟨q', List.mem_cons_of_mem q hq, h⟩
    rw [execPlan] at hp
    split at hp
    · -- `SELECT` adds an item that is answered here
      split at hp
      all_goals
        obtain ⟨p', hp', rfl⟩ := Option.map_eq_some_iff.1 hp
        exact hrest hp' hf
    · obtain ⟨argv, hargv, hp⟩ := Option.bind_eq_some_iff.1 hp
      obtain ⟨keys, -, hp⟩ := Option.bind_eq_some_iff.1 hp
      obtain ⟨p', hp', hp⟩ := Option.bind_eq_some_iff.1 hp
      cases hp
      rcases List.mem_cons.1 hf with rfl | hf
      · exact ⟨q, List.mem_cons_self, argv, db, hargv, rfl⟩
      · exact hrest hp' hf

theorem doFrames_sends {fs : List Frame} (hS : ∀ f ∈ fs, S f) (c : ConnId) (last : Value) :
    Sends A S R (fun _ => True) (doFrames c fs last) := by
  induction fs generalizing last with
  | nil => trivial
  | cons f fs ih =>
    refine (doFrame_sends (hS f List.mem_cons_self) c).bindOk (fun _ => trivial) fun v _ => ?_
    exact ih (fun g hg => hS g (List.mem_cons_of_mem f hg)) v

/-- The states that differ from `s` in the watched keys and the pin only. -/
def Watching (s s' : Session) : Prop :=
  ∃ pin gen w, s' = { s with pin := pin, pinGen := gen, watched := w }

theorem Watching.refl (s : Session) : Watching s s := ⟨s.pin, s.pinGen, s.watched, rfl⟩

theorem Watching.unpin (h : Watching s s') : Watching s s'.unpin := by
  obtain ⟨pin, gen, w, rfl⟩ := h
  exact ⟨none, gen, w, rfl⟩

theorem Watching.watch (h : Watching s s') (w : List Slice) :
    Watching s { s' with watched := w } := by
  obtain ⟨pin, gen, _, rfl⟩ := h
  exact ⟨pin, gen, w, rfl⟩

/-- `finish` in a state reached from `s`. -/
theorem finish_watching (h : Watching s s')
    (hR : R (some id) v) : Sends A S R (fun r => Watching s r.1) (finish s' id v) :=
  (finish_sends hR).imp fun r hr => by rwa [hr]

variable {cfg}

theorem watchKeys_sends (hS : S { argv, src := c.src s }) (hR : ∀ v, R (some c.id) v)
    (keys : List Slice) (slot : Nat) :
    Sends A S R (fun r => Watching s r.1) (watchKeys cfg s c argv keys slot) := by
  refine (Silent.sends (ensurePin_silent cfg s slot)).bindOk (fun _ => finish_watching (.refl s) (hR _))
    fun sc hr => ?_
  obtain ⟨s₁, pin⟩ := sc
  obtain ⟨-, gen, rfl⟩ := hr s₁ pin rfl
  have hw : Watching s { s with pin := some pin, pinGen := gen } := ⟨_, _, _, rfl⟩
  refine (doFrame_sends (f := { argv, src := c.src s }) hS pin).bind ?_
  intro r _
  cases r with
  | error e =>
    refine (Silent.sends (dropPin_silent _)).bind ?_
    rintro s' rfl
    exact finish_watching hw.unpin (hR _)
  | ok v => exact finish_watching (hw.watch _) (hR _)

theorem cmdWatch_sends (hR : ∀ v, R (some c.id) v)
    (hS : s.multi = false → ∀ argv, rewriteArgv c.argv s.db = some argv →
      S { argv, src := c.src s }) :
    Sends A S R (fun r => Watching s r.1) (cmdWatch cfg s c) := by
  unfold cmdWatch
  cases hm : s.multi with
  | true => exact finish_watching (.refl s) (hR _)
  | false =>
    simp only [Bool.false_eq_true, if_false]
    cases hargv : rewriteArgv c.argv s.db with
    | none => exact Watching.refl s
    | some argv =>
      simp only
      cases hkeys : extractKeys argv with
      | none => exact Watching.refl s
      | some keys =>
        cases keys with
        | nil => exact finish_watching (.refl s) (hR _)
        | cons k ks =>
          simp only
          split
          · exact finish_watching (.refl s) (hR _)
          · exact watchKeys_sends (hS hm argv hargv) hR _ _

theorem cmdUnwatch_sends (hR : ∀ v, R (some c.id) v) (hS : S { argv := [arg "UNWATCH"], src := c.src s }) :
    Sends A S R (fun r => Watching s r.1) (cmdUnwatch s c) := by
  unfold cmdUnwatch
  cases hpin : s.pin with
  | none => exact finish_watching ⟨none, s.pinGen, [], rfl⟩ (hR _)
  | some pin =>
    refine (doFrame_sends hS pin).bind ?_
    intro r _
    refine (Silent.sends (dropPin_silent s)).bind ?_
    rintro s' rfl
    exact finish_watching ((Watching.refl s).unpin.watch _) (hR _)

/-- The states that differ from `s` in the watched keys, the pin and the database. -/
def AfterExec (s s' : Session) : Prop :=
  ∃ pin w db, s' = { s with pin := pin, watched := w, db := db }

theorem finish_afterExec (h : AfterExec s s')
    (hR : R (some id) v) : Sends A S R (fun r => AfterExec s r.1) (finish s' id v) :=
  (finish_sends hR).imp fun r hr => by rwa [hr]

theorem AfterExec.unpin (s : Session) : AfterExec s s.unpin := ⟨none, s.watched, s.db, rfl⟩

theorem execBackend_sends {p : ExecPlan} (hR : ∀ v, R (some c.id) v) (hf : ∀ f ∈ p.backend, S f)
    (hS : ∀ w ∈ ["MULTI", "EXEC"], S { argv := [arg w], src := c.src s }) (slot : Nat) :
    Sends A S R (fun r => AfterExec s r.1) (execBackend cfg s c p slot) := by
  have hconn : Sends A S R (fun _ => True) (execConn cfg s slot) := by
    unfold execConn
    cases s.pin with
    | some pin => trivial
    | none => exact checkout_sends cfg slot
  refine hconn.bindOk (fun _ => finish_afterExec (.unpin s) (hR _)) fun conn _ => ?_
  refine (doFrames_sends ?_ conn _).bind ?_
  · intro f hmem
    simp only [List.cons_append, List.mem_cons, List.mem_append, List.not_mem_nil,
      or_false] at hmem
    rcases hmem with rfl | hmem | rfl
    · exact hS "MULTI" (by simp)
    · exact hf f hmem
    · exact hS "EXEC" (by simp)
  · intro r _
    cases r with
    | error e => exact fun _ _ => ⟨trivial, finish_afterExec (.unpin s) (hR _)⟩
    | ok v =>
      have hdone : AfterExec s (execDone s.unpin p v).1 := by
        unfold execDone
        split
        · exact ⟨none, [], s.db, rfl⟩
        · exact ⟨none, [], p.db, rfl⟩
      refine (reply_sends (hR _)).bind ?_
      intro o _
      exact fun _ _ => ⟨trivial, hdone⟩

theorem execQueued_sends (hR : ∀ v, R (some c.id) v)
    (hf : ∀ p, execPlan cfg s.db queue = some p → ∀ f ∈ p.backend, S f)
    (hS : ∀ w ∈ ["MULTI", "EXEC"], S { argv := [arg w], src := c.src s }) :
    Sends A S R (fun r => AfterExec s r.1) (execQueued cfg s c queue) := by
  unfold execQueued
  cases hp : execPlan cfg s.db queue with
  | none => exact ⟨s.pin, s.watched, s.db, rfl⟩
  | some p =>
    dsimp only
    split
    · refine (Silent.sends (dropPin_silent s)).bind ?_
      rintro s' rfl
      exact finish_afterExec (.unpin s) (hR _)
    · split
      · exact finish_afterExec ⟨s.pin, [], p.db, rfl⟩ (hR _)
      · exact execBackend_sends hR (hf p hp) hS _

/-- `EXEC` leaves `MULTI` and empties the queue. -/
theorem cmdExec_sends (hR : ∀ v, R (some c.id) v)
    (hf : s.multi = true → ∀ p, execPlan cfg s.db s.queued = some p → ∀ f ∈ p.backend, S f)
    (hS : ∀ w ∈ ["MULTI", "EXEC"], S { argv := [arg w], src := c.src s }) :
    Sends A S R (fun r => r.1 = s ∧ s.multi = false ∨
      s.multi = true ∧ AfterExec { s with multi := false, queued := [] } r.1) (cmdExec cfg s c) := by
  unfold cmdExec
  cases hm : s.multi with
  | false =>
    refine (finish_sends (hR _)).imp ?_
    intro r hr
    exact .inl ⟨hr, rfl⟩
  | true =>
    refine (pinStale_inner _).sends.bind ?_
    intro stale _
    have hdone : ∀ {p : Prog (Session × Outcome)},
        Sends A S R (fun r => AfterExec { s with multi := false, queued := [] } r.1) p →
        Sends A S R (fun r => r.1 = s ∧ true = false ∨
          true = true ∧ AfterExec { s with multi := false, queued := [] } r.1) p :=
      fun h => h.imp fun r hr => .inr ⟨rfl, hr⟩
    cases stale with
    | true =>
      refine hdone ((Silent.sends (dropPin_silent _)).bind ?_)
      rintro s' rfl
      exact finish_afterExec (.unpin _) (hR _)
    | false => exact hdone (execQueued_sends hR (hf hm) hS)

end Proxy

end RespProxy
