import RespProxy.PubSub.Machine

/-! # The order of a goroutine's requests

A goroutine that runs `subscribe`, `unsubscribe` or `roundTrip` asks for the shared
maps, writes and waits in a fixed order. `Follows ph p` says that the program `p` goes
on from the point `ph` of this order; all programs of the machine do
(`handleClientCmd_follows`, `subscribe_follows`), so what holds of the shared state at
each point can be carried from step to step.
-/

namespace RespProxy.PubSub

open Cluster Command Resp Proxy Interact

/-- Where a goroutine is, with what it has found out. -/
inductive Phase where
  | free
  /-- `ensureBackend`: no connection to `addr` is known -/
  | missing (addr : Addr)
  /-- `ensureBackend`: checked out for `addr`, not entered yet -/
  | fresh (addr : Addr) (c : ConnId)
  /-- the connection to write to -/
  | ready (addr : Addr) (c : ConnId)
  /-- `subscribe`: waits for the acknowledgement -/
  | wrote (addr : Addr) (c : ConnId) (x : Subscription)
  /-- `subscribe`: ahead of the record -/
  | acked (addr : Addr) (c : ConnId) (x : Subscription)
  /-- `roundTrip`: waits for the acknowledgement -/
  | patterned (c : ConnId)
  /-- `unsubscribe`: the address of the channel -/
  | found (ch : Slice) (addr : Addr)
  /-- `unsubscribe`: the connection to write to -/
  | aimed (ch : Slice) (c : ConnId)
  /-- `unsubscribe`: waits for the acknowledgement -/
  | unwrote (c : ConnId) (x : Subscription)
  /-- `unsubscribe`: ahead of the deletion -/
  | dropping (x : Subscription) (c : Option ConnId)

/-- The program goes on from the phase. It asks for subscriptions in `W` and ends those of
a kind in `U` only. -/
inductive Follows (W : Subscription → Prop) (U : Family → Prop) :
    Phase → Prog (List Value) → Prop where
  | ret (vs : List Value) : Follows W U .free (.ret vs)
  | load {k : Option Topology → Prog (List Value)} (h : ∀ t, Follows W U .free (k t)) :
      Follows W U .free (.call .load k)
  | keys {k : List Bytes → Prog (List Value)} (h : ∀ chs, Follows W U .free (k chs)) :
      Follows W U .free (.call .subsKeys k)
  | lookup {addr : Addr} {k : Option ConnId → Prog (List Value)}
      (hnone : Follows W U (.missing addr) (k none))
      (hsome : ∀ c, Follows W U (.ready addr c) (k (some c))) :
      Follows W U .free (.call (.backend addr) k)
  | get {addr a : Addr} {b : Bool} {k : Except Err ConnId → Prog (List Value)}
      (herr : ∀ e, Follows W U .free (k (.error e)))
      (hok : ∀ c, Follows W U (.fresh addr c) (k (.ok c))) :
      Follows W U (.missing addr) (.call (.get a b) k)
  | enter {addr : Addr} {c : ConnId} {k : Unit → Prog (List Value)}
      (h : Follows W U (.ready addr c) (k ())) :
      Follows W U (.fresh addr c) (.call (.addBackend addr c) k)
  | subscribe {addr : Addr} {c : ConnId} {f : Frame} {x : Subscription}
      {k : Option Err → Prog (List Value)} (hf : begins f.argv = [x]) (hleave : leaves f.argv = [])
      (hx : x.1 ≠ .pattern) (hW : W x) (herr : ∀ e, Follows W U .free (k (some e)))
      (hok : Follows W U (.wrote addr c x) (k none)) :
      Follows W U (.ready addr c) (.call (.write c [f]) k)
  | subscribed {addr : Addr} {c : ConnId} {x : Subscription}
      {k : Except Err Value → Prog (List Value)} (herr : ∀ e, Follows W U .free (k (.error e)))
      (hok : ∀ v, Follows W U (.acked addr c x) (k (.ok v))) :
      Follows W U (.wrote addr c x) (.call (.waitAck c) k)
  | record {addr : Addr} {c : ConnId} {x : Subscription} {ch : Slice}
      {k : Nat → Prog (List Value)} (hch : ch.bytes = x.2) (h : ∀ n, Follows W U .free (k n)) :
      Follows W U (.acked addr c x) (.call (.subsAdd ch addr) k)
  | pattern {addr : Addr} {c : ConnId} {f : Frame} {k : Option Err → Prog (List Value)}
      (hf : ∀ x ∈ begins f.argv ++ leaves f.argv, x.1 = .pattern)
      (herr : ∀ e, Follows W U .free (k (some e))) (hok : Follows W U (.patterned c) (k none)) :
      Follows W U (.ready addr c) (.call (.write c [f]) k)
  | patterned {c : ConnId} {k : Except Err Value → Prog (List Value)}
      (h : ∀ r, Follows W U .free (k r)) : Follows W U (.patterned c) (.call (.waitAck c) k)
  | find {ch : Slice} {k : Addr → Prog (List Value)}
      (h : ∀ addr, Follows W U (.found ch addr) (k addr)) :
      Follows W U .free (.call (.subsAddr ch) k)
  | aim {ch : Slice} {addr : Addr} {u : Family} {k : Option ConnId → Prog (List Value)} (hU : U u)
      (hnone : Follows W U (.dropping (u, ch.bytes) none) (k none))
      (hsome : ∀ c, Follows W U (.aimed ch c) (k (some c))) :
      Follows W U (.found ch addr) (.call (.backend addr) k)
  | unsubscribe {ch : Slice} {c : ConnId} {f : Frame} {u : Family}
      {k : Option Err → Prog (List Value)} (hf : leaves f.argv = [(u, ch.bytes)])
      (hbegin : begins f.argv = []) (hu : u ≠ .pattern) (hU : U u)
      (h : ∀ e, Follows W U (.unwrote c (u, ch.bytes)) (k e)) :
      Follows W U (.aimed ch c) (.call (.write c [f]) k)
  | unsubscribed {c : ConnId} {x : Subscription} {k : Except Err Value → Prog (List Value)}
      (h : ∀ r, Follows W U (.dropping x (some c)) (k r)) :
      Follows W U (.unwrote c x) (.call (.waitAck c) k)
  | forget {x : Subscription} {c : Option ConnId} {ch : Slice} {k : Nat → Prog (List Value)}
      (hch : ch.bytes = x.2) (hU : U x.1) (h : ∀ n, Follows W U .free (k n)) :
      Follows W U (.dropping x c) (.call (.subsDel ch) k)

variable {cfg : Config} {mode : Mode} {src : Origin}
variable {W : Subscription → Prop} {U : Family → Prop}
variable {p : Prog (List Value)} {R R' : Bytes → Prop} {argv : Argv}

variable {cmd kind : String} {rewrite : Bool} {u : Family}

theorem named_family {k : Option Family} {x : Subscription} (h : x ∈ named k argv) :
    k = some x.1 := by
  cases k with
  | none => cases h
  | some k =>
    obtain ⟨ch, -, rfl⟩ := List.mem_map.1 h
    rfl

/-! ## The programs of the machine -/

theorem owner_follows {slot : Nat} {f : Option Addr → Prog (List Value)}
    (h : ∀ a, Follows W U .free (f a)) : Follows W U .free ((owner cfg slot false).bind f) := by
  refine .load fun t => ?_
  simp only [Prog.pure_eq, Prog.ret_bind]
  split
  · exact h _
  · exact .load fun _ => h _

theorem ensureBackend_follows {addr : Addr} {f : Except Err ConnId → Prog (List Value)}
    (herr : ∀ e, Follows W U .free (f (.error e)))
    (hok : ∀ c, Follows W U (.ready addr c) (f (.ok c))) :
    Follows W U .free ((ensureBackend cfg addr).bind f) := by
  refine .lookup ?_ hok
  exact .get herr fun c => .enter (hok c)

theorem subscribeLoop_follows
    (hcmd : ∀ ch, begins [arg cmd, ch] = [(u, ch.bytes)]) (hleave : ∀ ch, leaves [arg cmd, ch] = [])
    (hu : u ≠ .pattern) (chs : List Slice) (hW : ∀ ch ∈ chs, W (u, ch.bytes)) (vs : List Value) :
    Follows W U .free (subscribeLoop cfg src cmd kind rewrite chs vs) := by
  induction chs generalizing vs with
  | nil => exact .ret vs
  | cons ch chs ih =>
    refine owner_follows fun a => ?_
    cases a with
    | none => exact .ret _
    | some addr =>
      refine ensureBackend_follows (fun _ => .ret _) fun c => ?_
      refine .subscribe (hcmd ch) (hleave ch) hu (hW ch (by simp)) (fun _ => .ret _) ?_
      refine .subscribed (fun _ => .ret _) fun v => .record rfl fun n => ?_
      exact ih (fun ch' h => hW ch' (List.mem_cons_of_mem ch h)) _

/-- `subscribe` writes its channels one by one. -/
theorem subscribe_follows (chs : List Slice) (fromGlobal : Bool)
    (hW : ∀ ch ∈ chs, W (familyOf mode (if fromGlobal then .channel else .shard), ch.bytes)) :
    Follows W U .free (Proxy.subscribe cfg mode src chs fromGlobal) := by
  unfold Proxy.subscribe
  dsimp only
  split
  · exact .ret _
  · cases mode <;> cases fromGlobal <;>
      exact subscribeLoop_follows (fun _ => rfl) (fun _ => rfl) (by decide) chs hW []

theorem unsubscribeOne_follows
    (hcmd : ∀ ch, leaves [arg cmd, ch] = [(u, ch.bytes)]) (hbegin : ∀ ch, begins [arg cmd, ch] = [])
    (hu : u ≠ .pattern) (hU : U u) {ch : Slice} {f : Value → Prog (List Value)}
    (h : ∀ v, Follows W U .free (f v)) :
    Follows W U .free ((unsubscribeOne src cmd kind rewrite ch).bind f) := by
  refine .find fun addr => .aim hU (.forget rfl hU fun _ => h _) fun c => ?_
  refine .unsubscribe (hcmd ch) (hbegin ch) hu hU fun e => .unsubscribed fun r => ?_
  cases r with
  | error e => exact .forget rfl hU fun _ => h _
  | ok v => exact .forget rfl hU fun _ => h _

theorem unsubscribeLoop_follows
    (hcmd : ∀ ch, leaves [arg cmd, ch] = [(u, ch.bytes)]) (hbegin : ∀ ch, begins [arg cmd, ch] = [])
    (hu : u ≠ .pattern) (hU : U u) (chs : List Slice) {f : List Value → Prog (List Value)}
    (h : ∀ vs, Follows W U .free (f vs)) :
    Follows W U .free ((unsubscribeLoop src cmd kind rewrite chs).bind f) := by
  induction chs generalizing f with
  | nil => exact h []
  | cons ch chs ih =>
    show Follows W U .free (Prog.bind (Prog.bind _ _) f)
    rw [Prog.bind_assoc]
    refine unsubscribeOne_follows hcmd hbegin hu hU fun v => ?_
    show Follows W U .free (Prog.bind (Prog.bind _ _) f)
    rw [Prog.bind_assoc]
    exact ih fun vs => h (v :: vs)

theorem unsubscribe_follows (chs : List Slice) (fromGlobal : Bool)
    (hU : U (familyOf mode (if fromGlobal then .channel else .shard))) :
    Follows W U .free (Proxy.unsubscribe mode src chs fromGlobal) := by
  unfold Proxy.unsubscribe
  refine .keys fun known => ?_
  show Follows W U .free (unsubscribeLoop _ _ _ _ _)
  rw [← Prog.bind_ret (unsubscribeLoop _ _ _ _ _)]
  cases mode <;> cases fromGlobal <;>
    exact unsubscribeLoop_follows (fun _ => rfl) (fun _ => rfl) (by decide) hU _ .ret

theorem patternRoundTrip_follows (h : ∀ x ∈ begins argv ++ leaves argv, x.1 = .pattern) :
    Follows W U .free (patternRoundTrip cfg src argv) := by
  refine .load fun t => ?_
  simp only [Prog.pure_eq, Prog.ret_bind]
  split
  · exact .ret _
  · refine ensureBackend_follows (fun _ => .ret _) fun c => ?_
    refine .pattern h (fun _ => .ret _) (.patterned fun r => ?_)
    cases r with
    | error e => exact .ret _
    | ok v => exact .ret _

/-- What the client's goroutine does for a command. -/
theorem handleClientCmd_follows (argv : Argv) (hW : ∀ x ∈ wanted mode argv, W x)
    (hU : ∀ u, dropped mode argv = some u → U u) :
    Follows W U .free (handleClientCmd cfg mode src argv) := by
  have hpattern : classifyPubSub (nameOf argv) = .psubscribe ∨
      classifyPubSub (nameOf argv) = .punsubscribe →
      ∀ x ∈ begins argv ++ leaves argv, x.1 = .pattern := by
    intro hop x hx
    rcases List.mem_append.1 hx with hx | hx
    · have hk := named_family hx
      rcases hop with hop | hop
      · exact Option.some.inj (hk.symm.trans (by rw [hop]; rfl))
      · rw [hop] at hk
        cases hk
    · have hk := named_family hx
      rcases hop with hop | hop
      · rw [hop] at hk
        cases hk
      · exact Option.some.inj (hk.symm.trans (by rw [hop]; rfl))
  have hwanted : ∀ {k}, opens (classifyPubSub (nameOf argv)) = some k → k ≠ .pattern →
      ∀ ch ∈ argv.drop 1, W (familyOf mode k, ch.bytes) := by
    intro k hk hne ch hch
    refine hW _ (List.mem_map.2 ⟨(k, ch.bytes), List.mem_filter.2 ⟨?_, by simpa using hne⟩, rfl⟩)
    rw [begins, hk]
    exact List.mem_map.2 ⟨ch, hch, rfl⟩
  have hdropped : ∀ {k}, closes (classifyPubSub (nameOf argv)) = some k → k ≠ .pattern →
      U (familyOf mode k) := by
    intro k hk hne
    exact hU _ (by simp [dropped, hk, hne])
  unfold handleClientCmd
  cases hop : classifyPubSub (nameOf argv) with
  | psubscribe =>
    dsimp only
    split
    · exact .ret _
    · exact patternRoundTrip_follows (hpattern (.inl hop))
  | punsubscribe =>
    dsimp only
    split
    · exact .ret _
    · exact patternRoundTrip_follows (hpattern (.inr hop))
  | subscribe => exact subscribe_follows _ true (hwanted (by rw [hop]; rfl) (by decide))
  | ssubscribe => exact subscribe_follows _ false (hwanted (by rw [hop]; rfl) (by decide))
  | unsubscribe => exact unsubscribe_follows _ true (hdropped (by rw [hop]; rfl) (by decide))
  | sunsubscribe => exact unsubscribe_follows _ false (hdropped (by rw [hop]; rfl) (by decide))
  | none | publish | spublish | pubsub => exact .ret _

/-! ## What a goroutine asks for -/

/-- The event asks for channels in `W` only, and records only those in `R`. -/
def AsksOnly (W : Subscription → Prop) (R : Bytes → Prop) (e : Event) : Prop :=
  match e.op with
  | .write _ fs => ∀ f ∈ fs, ∀ x ∈ begins f.argv, x.1 ≠ .pattern → W x
  | .subsAdd ch _ => R ch.bytes
  | _ => True

/-- The goroutine does so until it ends. -/
def Asks (W : Subscription → Prop) (R : Bytes → Prop) (p : Prog (List Value)) : Prop :=
  p.Ensures (fun _ => True) (AsksOnly W R) fun _ => True

theorem AsksOnly.mono {W W' : Subscription → Prop} {e : Event}
    (h : AsksOnly W R e) (hW : ∀ x, W x → W' x) (hR : ∀ ch, R ch → R' ch) : AsksOnly W' R' e := by
  obtain ⟨o, r⟩ := e
  cases o <;> try trivial
  · exact fun f hf x hx hk => hW x (h f hf x hx hk)
  · exact hR _ h

theorem Asks.mono {W W' : Subscription → Prop}
    (h : Asks W R p) (hW : ∀ x, W x → W' x) (hR : ∀ ch, R ch → R' ch) : Asks W' R' p :=
  Prog.Ensures.mono h (fun _ _ he => he.mono hW hR) fun _ h => h

/-- A goroutine that waits to record a channel may record it. -/
def Phase.Records (R : Bytes → Prop) : Phase → Prop
  | .wrote _ _ x | .acked _ _ x => R x.2
  | _ => True

/-- A goroutine asks for the channels it may ask for only. -/
theorem Follows.asks {R : Bytes → Prop} (hR : ∀ x, W x → R x.2) {ph : Phase} (h : Follows W U ph p)
    (hph : ph.Records R) : Asks W R p := by
  induction h with
  | ret vs => trivial
  | load _ ih | keys _ ih | find _ ih | patterned _ ih | unsubscribed _ ih =>
    exact fun r _ => ⟨trivial, ih r trivial⟩
  | enter _ ih => exact fun _ _ => ⟨trivial, ih trivial⟩
  | record hch _ ih =>
    refine fun n _ => ⟨?_, ih n trivial⟩
    show R _
    rw [hch]
    exact hph
  | forget _ _ _ ih => exact fun n _ => ⟨trivial, ih n trivial⟩
  | lookup _ _ ihnone ihsome | aim _ _ _ ihnone ihsome =>
    intro r _
    cases r with
    | none => exact ⟨trivial, ihnone trivial⟩
    | some c => exact ⟨trivial, ihsome c trivial⟩
  | get _ _ iherr ihok =>
    intro r _
    cases r with
    | error e => exact ⟨trivial, iherr e trivial⟩
    | ok c => exact ⟨trivial, ihok c trivial⟩
  | subscribed _ _ iherr ihok =>
    intro r _
    cases r with
    | error e => exact ⟨trivial, iherr e trivial⟩
    | ok v => exact ⟨trivial, ihok v hph⟩
  | subscribe hb _ _ hW _ _ iherr ihok =>
    intro r _
    refine ⟨fun g hg x hx _ => ?_, ?_⟩
    · rw [List.mem_singleton.1 hg, hb] at hx
      rwa [List.mem_singleton.1 hx]
    · cases r with
      | none => exact ihok (hR _ hW)
      | some e => exact iherr e trivial
  | pattern hb _ _ iherr ihok =>
    intro r _
    refine ⟨fun g hg x hx hk => ?_, ?_⟩
    · rw [List.mem_singleton.1 hg] at hx
      exact absurd (hb x (List.mem_append_left _ hx)) hk
    · cases r with
      | none => exact ihok trivial
      | some e => exact iherr e trivial
  | unsubscribe _ hb _ _ _ ih =>
    refine fun r _ => ⟨fun g hg x hx _ => ?_, ih r trivial⟩
    rw [List.mem_singleton.1 hg, hb] at hx
    cases hx

end RespProxy.PubSub
