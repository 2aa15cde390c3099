import RespProxy.Proxy.Frames
import RespProxy.PubSub.Close
import RespProxy.PubSub.Leave

/-! # The kinds of messages and of renewed subscriptions

A client may subscribe to a channel with `SUBSCRIBE` or with `SSUBSCRIBE`, and expects
messages of the kind `message` or `smessage`. The session does not keep which of the two
it was: with sharded pub/sub in place of the global one `forward` renames every
`smessage`, and `maybeResub` always subscribes as for `SUBSCRIBE`.

`Ledger` runs the machine and keeps what is forgotten: what the client has asked for, in
its own words, the subscription whose end a reader has read, and the subscription that a
goroutine of `maybeResub` is to renew. In a run that meets `SameVerb`, every message that
is pushed is of a kind the client asked for, and every subscription that a backend ended
is renewed with the command it was made with (`RightKinds`).
-/

namespace RespProxy.PubSub

open Cluster Command Resp Proxy

variable {asked more : List Subscription} {x : Subscription} {v : Value}
variable {ch : Bytes} {r : Reply}

/-! ## Messages and ends -/

/-- The kind and the channel of a message. -/
def messageOf (v : Value) : Option Subscription :=
  match v.values with
  | k :: ch :: _ =>
    if v.type ≠ .array ∧ v.type ≠ .push then none
    else if equalFold k.str.bytes "message" then some (.channel, ch.str.bytes)
    else if equalFold k.str.bytes "smessage" then some (.shard, ch.str.bytes)
    else none
  | _ => none

/-- The subscription that an acknowledgement says has ended. -/
def endOf (v : Value) : Option Subscription :=
  match v.values with
  | k :: ch :: _ =>
    if equalFold k.str.bytes "unsubscribe" then some (.channel, ch.str.bytes)
    else if equalFold k.str.bytes "sunsubscribe" then some (.shard, ch.str.bytes)
    else none
  | _ => none

theorem equalFold_unique {b : Bytes} {w w' : String} (h : equalFold b w = true)
    (hne : lit w ≠ lit w') : equalFold b w' = false := by
  rw [equalFold, decide_eq_true_eq] at h
  rw [equalFold, decide_eq_false_iff_not, h]
  exact hne

/-- The values a message can be of. -/
theorem messageOf_eq_some :
    messageOf v = some x ↔ (v.type = .array ∨ v.type = .push) ∧
      ∃ k ch rest, v.values = k :: ch :: rest ∧ x.2 = ch.str.bytes ∧
        (equalFold k.str.bytes "message" = true ∧ x.1 = .channel ∨
          equalFold k.str.bytes "smessage" = true ∧ x.1 = .shard) := by
  obtain ⟨f, b⟩ := x
  unfold messageOf
  split
  · rename_i k ch rest hv
    have hapart : equalFold k.str.bytes "message" = true →
        equalFold k.str.bytes "smessage" = false := fun h => equalFold_unique h (by decide)
    grind
  · grind

theorem messageOf_ne_pattern (h : messageOf v = some x) :
    x.1 ≠ .pattern := by
  obtain ⟨-, k, ch, rest, -, -, ⟨-, hx⟩ | ⟨-, hx⟩⟩ := messageOf_eq_some.1 h <;> simp [hx]

/-- `rewriteIncoming` gives one of three words another name. -/
theorem rewriteIncoming_cases (v : Value) :
    rewriteIncoming v = v ∧ (∀ k rest, v.values = k :: rest → v.type = .array ∨ v.type = .push →
      equalFold k.str.bytes "smessage" = false) ∨
    ∃ k rest w w', v.values = k :: rest ∧ (v.type = .array ∨ v.type = .push) ∧
      (w, w') ∈ [("smessage", "message"), ("ssubscribe", "subscribe"),
        ("sunsubscribe", "unsubscribe")] ∧ equalFold k.str.bytes w = true ∧
      rewriteIncoming v = { v with values := { k with str := arg w' } :: rest, raw := [] } := by
  unfold rewriteIncoming
  split
  · rename_i hv
    exact .inl ⟨rfl, fun k rest h => by rw [hv] at h; cases h⟩
  · rename_i k rest hv
    dsimp only
    by_cases htype : v.type ≠ .array ∧ v.type ≠ .push
    · rw [if_pos htype]
      exact .inl ⟨rfl, fun _ _ _ h => absurd h (not_or.2 htype)⟩
    · have harray : v.type = .array ∨ v.type = .push := by
        simpa only [not_and_or, not_not] using htype
      rw [if_neg htype]
      split_ifs with h₁ h₂ h₃
      · exact .inr ⟨k, rest, _, _, hv, harray, List.mem_cons_self, h₁, rfl⟩
      · exact .inr ⟨k, rest, _, _, hv, harray, by simp, h₂, rfl⟩
      · exact .inr ⟨k, rest, _, _, hv, harray, by simp, h₃, rfl⟩
      · refine .inl ⟨rfl, fun k' rest' h _ => ?_⟩
        obtain ⟨rfl, -⟩ := List.cons.inj (hv.symm.trans h)
        exact Bool.eq_false_iff.2 h₁

/-- A renamed message is one for channels. -/
theorem messageOf_rewriteIncoming (h : messageOf (rewriteIncoming v) = some x) :
    ∃ y, messageOf v = some y ∧ x = (.channel, y.2) := by
  rcases rewriteIncoming_cases v with ⟨hsame, hnot⟩ | ⟨k, rest, w, w', hv, htype, hw, hk, hnew⟩
  · rw [hsame] at h
    obtain ⟨htype, k, ch, rest, hv, hch, ⟨-, hx⟩ | ⟨hk, -⟩⟩ := messageOf_eq_some.1 h
    · exact ⟨x, h, Prod.ext hx rfl⟩
    · rw [hnot k _ hv htype] at hk
      cases hk
  · rw [hnew] at h
    obtain ⟨-, k', ch, rest', hvals, hch, hkind⟩ := messageOf_eq_some.1 h
    obtain ⟨rfl, rfl⟩ := List.cons.inj hvals
    dsimp only at hkind
    simp only [List.mem_cons, Prod.mk.injEq, List.not_mem_nil, or_false] at hw
    rcases hw with ⟨rfl, rfl⟩ | ⟨rfl, rfl⟩ | ⟨rfl, rfl⟩
    · rcases hkind with ⟨-, hx⟩ | ⟨hbad, -⟩
      · exact ⟨(.shard, ch.str.bytes), messageOf_eq_some.2
          ⟨htype, k, ch, rest', hv, rfl, .inr ⟨hk, rfl⟩⟩, Prod.ext hx hch⟩
      · exact absurd hbad (by decide)
    -- the other two words are no messages
    · rcases hkind with ⟨hbad, -⟩ | ⟨hbad, -⟩ <;> exact absurd hbad (by decide)
    · rcases hkind with ⟨hbad, -⟩ | ⟨hbad, -⟩ <;> exact absurd hbad (by decide)

theorem channelOf_rewriteIncoming (v : Value) : channelOf (rewriteIncoming v) = channelOf v := by
  rcases rewriteIncoming_cases v with ⟨hsame, -⟩ | ⟨k, rest, w, w', hv, -, -, -, hnew⟩
  · rw [hsame]
  · rw [hnew, channelOf, channelOf, hv]
    rfl

theorem endOf_of_isUnsub (hunsub : isUnsub v = true)
    (hch : channelOf v = some ch) : ∃ k, endOf v = some (k, ch) := by
  unfold channelOf at hch
  unfold isUnsub at hunsub
  unfold endOf
  cases hv : v.values with
  | nil =>
    rw [hv] at hunsub
    cases hunsub
  | cons k rest =>
    rw [hv] at hch hunsub
    cases rest with
    | nil => cases hch
    | cons c rest =>
      obtain rfl : c.str.bytes = ch := by simpa using hch
      dsimp only
      split_ifs with h₁ h₂
      · exact ⟨_, rfl⟩
      · exact ⟨_, rfl⟩
      · simp [h₁, h₂] at hunsub

/-- What is renamed to an end was one. -/
theorem isUnsub_rewriteIncoming (h : isUnsub (rewriteIncoming v) = true) :
    isUnsub v = true := by
  rcases rewriteIncoming_cases v with ⟨hsame, -⟩ | ⟨k, rest, w, w', hv, -, hw, hk, hnew⟩
  · rwa [hsame] at h
  · rw [hnew] at h
    simp only [List.mem_cons, Prod.mk.injEq, List.not_mem_nil, or_false] at hw
    rcases hw with ⟨rfl, rfl⟩ | ⟨rfl, rfl⟩ | ⟨rfl, rfl⟩
    · exact absurd h (by simp [isUnsub]; decide)
    · exact absurd h (by simp [isUnsub]; decide)
    · simp [isUnsub, hv, hk]

theorem messageOf_ackValue (op : PubSubOp) (ch : Slice) (n : Nat) :
    messageOf (ackValue (verbOf op) ch n) = none := by
  cases op <;> rfl

theorem messageOf_forcedAck (x : Subscription) (n : Nat) : messageOf (forcedAck x n) = none := by
  unfold forcedAck
  split <;> rfl

/-- An acknowledgement of a forced end names the subscription. -/
theorem endOf_forcedAck (hx : x.1 ≠ .pattern) (n : Nat) :
    endOf (forcedAck x n) = some x := by
  obtain ⟨k, ch⟩ := x
  cases k with
  | channel => exact if_pos (by decide : equalFold (arg "unsubscribe").bytes "unsubscribe" = true)
  | shard =>
    refine (if_neg
      (by decide : ¬ equalFold (arg "sunsubscribe").bytes "unsubscribe" = true)).trans ?_
    exact if_pos (by decide : equalFold (arg "sunsubscribe").bytes "sunsubscribe" = true)
  | pattern => exact absurd rfl hx

/-- What a backend answers to a command is no message. -/
theorem messageOf_serve {S : List Subscription} {argv : Argv}
    (h : v ∈ (serve S argv).2) : messageOf v = none := by
  have hacks : ∀ {k : Family} {enter : Bool} {op : PubSubOp} {chs : List Slice}
      {S : List Subscription}, v ∈ (acknowledge k enter (verbOf op) S chs).2 →
      messageOf v = none := by
    intro k enter op chs
    induction chs with
    | nil => exact fun h => (List.not_mem_nil h).elim
    | cons ch chs ih =>
      intro S h
      rcases List.mem_cons.1 h with rfl | h
      · exact messageOf_ackValue op ch _
      · exact ih h
  unfold serve at h
  dsimp only at h
  split at h
  · split at h
    · rw [List.mem_singleton.1 h]
      rfl
    · exact hacks h
  · generalize (if argv.drop 1 = [] then _ else argv.drop 1) = chs at h
    split at h
    · rw [List.mem_singleton.1 h]
      exact messageOf_ackValue _ _ _
    · exact hacks h
  · rw [List.mem_singleton.1 h]
    rfl

/-! ## The ledger -/

/-- A session, and what it forgets. -/
structure Ledger where
  session : State := {}
  /-- the subscriptions the client has asked for -/
  asked : List Subscription := []
  /-- the subscription whose end the reader of a connection has read last -/
  ended : ConnId → Option Subscription := fun _ => none
  /-- the subscription that a goroutine of `maybeResub` is to renew -/
  renewing : Tid → Option Subscription := fun _ => none

/-- The subscription that a backend has ended by itself, ahead of `maybeResub`. -/
def Ledger.forced (s : Ledger) (c : ConnId) : Option Subscription :=
  match (s.session.conns c).reader.checked with
  | some r => if r.src = none then s.ended c else none
  | none => none

variable (cfg : Config) (mode : Mode) (src : Origin)

/-- The ledger behind a step. -/
def Ledger.after (s : Ledger) (l : Label) (session : State) : Ledger :=
  match l with
  | .command argv => { s with session, asked := s.asked ++ begins argv }
  | .read c =>
    let ended := (s.session.conns c).replies.head?.bind fun r => endOf r.value
    { s with session, ended := fun d => if d = c then ended else s.ended d }
  | .check c =>
    { s with
      session
      renewing := fun t => if t = s.session.spawned then s.forced c else s.renewing t }
  | _ => { s with session }

def Ledger.next (s : Ledger) (l : Label) : Option Ledger :=
  (s.session.next cfg mode src l).map (s.after l)

/-- Backends send messages of a kind to connections that have a subscription of the kind. -/
def ToSubscribers (s : Ledger) : Label → Prop
  | .publish c v => ∀ x ∈ messageOf v, x ∈ (s.session.conns c).subscribed
  | _ => True

/-- What a step must meet for the kinds to be right. -/
def SameVerb (s : Ledger) : Label → Prop
  -- where `SSUBSCRIBE` stands in for `SUBSCRIBE`, the client uses it only for channels it has
  -- asked for with `SUBSCRIBE` as well
  | .command argv => mode = .shardedRewrite →
      ∀ x ∈ begins argv, x.1 = .shard → (.channel, x.2) ∈ s.asked
  -- where both are passed through, what ends while its channel is recorded was asked for with
  -- `SUBSCRIBE`
  | .check c => mode = .passthrough → ∀ r ∈ (s.session.conns c).reader.checked,
      ∀ ch ∈ s.session.tracked r.value,
        s.ended c = some (.channel, ch) ∧ (.channel, ch) ∈ s.asked
  | _ => True

instance (s : Ledger) : (l : Label) → Decidable (ToSubscribers s l)
  | .publish c v =>
    inferInstanceAs (Decidable (∀ x ∈ messageOf v, x ∈ (s.session.conns c).subscribed))
  | .command _ | .ret _ | .load _ _ | .get _ _ | .write _ _ _ | .ack _ | .timeout _ _ | .keys _ _
  | .subsAddr _ | .backend _ | .addBackend _ | .subsAdd _ | .subsDel _ | .read _ | .check _
  | .send _ | .push _ | .stop _ | .serve _ | .force _ _ => inferInstanceAs (Decidable True)

instance (s : Ledger) : (l : Label) → Decidable (SameVerb mode s l)
  | .command argv => inferInstanceAs (Decidable (_ → ∀ x ∈ begins argv, _))
  | .check c => inferInstanceAs (Decidable (_ → ∀ r ∈ (s.session.conns c).reader.checked,
      ∀ ch ∈ s.session.tracked r.value, _))
  | .ret _ | .load _ _ | .get _ _ | .write _ _ _ | .ack _ | .timeout _ _ | .keys _ _
  | .subsAddr _ | .backend _ | .addBackend _ | .subsAdd _ | .subsDel _ | .read _ | .send _
  | .push _ | .stop _ | .serve _ | .force _ _ | .publish _ _ => inferInstanceAs (Decidable True)

variable {cfg mode src}

theorem Ledger.session_after (s : Ledger) (l : Label) (session : State) :
    (s.after l session).session = session := by
  cases l <;> rfl

/-- The ledger is kept beside the run of the session. -/
theorem exec_ledger (tr : List Label) :
    (Machine.exec (Ledger.next cfg mode src) {} tr).map Ledger.session =
      Machine.exec (State.next cfg mode src) {} tr := by
  refine Machine.exec_map (fun s l => ?_) _ tr
  rw [Ledger.next, Option.map_map]
  exact (Option.map_congr fun session _ => s.session_after l session).trans Option.map_id'

/-! ## The invariant -/

/-- A backend may have the subscription: its messages, as they are pushed, are of a kind the
client asked for, and `maybeResub` would renew it as it is. -/
def Due (mode : Mode) (asked : List Subscription) (x : Subscription) : Prop :=
  match mode with
  | .passthrough => x ∈ asked
  | .shardedRewrite => x.1 = .shard ∧ (.channel, x.2) ∈ asked

/-- The channel may be recorded. -/
def Noted (mode : Mode) (asked : List Subscription) (ch : Bytes) : Prop :=
  mode = .shardedRewrite → (.channel, ch) ∈ asked

/-- The goroutine writes only commands that ask for `x`. -/
def Renews (x : Subscription) (p : Prog (List Value)) : Prop :=
  Sends (fun _ => True) (fun f => begins f.argv = [x]) (fun _ _ => True) (fun _ => True) p

structure Conn.Due (mode : Mode) (asked : List Subscription) (ended : Option Subscription)
    (c : Conn) : Prop where
  wire : ∀ q ∈ c.wire, ∀ x ∈ begins q.argv, x.1 ≠ .pattern → PubSub.Due mode asked x
  subscribed : ∀ x ∈ c.subscribed, x.1 ≠ .pattern → PubSub.Due mode asked x
  messages : ∀ r ∈ c.replies, ∀ x ∈ messageOf r.value, PubSub.Due mode asked x
  pushed : ∀ v ∈ c.reader.pushed, ∀ x ∈ messageOf v, x ∈ asked
  /-- sharded pub/sub has no other ends than its own -/
  ends : mode = .shardedRewrite → ∀ r ∈ c.replies, isAck r.value = true → r.src = none →
    ∀ x ∈ endOf r.value, x.1 = .shard
  checked : mode = .shardedRewrite → ∀ r ∈ c.reader.checked, r.src = none →
    ∀ ch ∈ channelOf r.value, ended = some (.shard, ch)

structure Ledger.Inv (mode : Mode) (s : Ledger) : Prop where
  client : 0 < s.session.spawned
  threads : ∀ t p, s.session.prog t = some p → t < s.session.spawned
  unforced : s.renewing 0 = none
  asks : ∀ t p, s.session.prog t = some p → Asks (Due mode s.asked) (Noted mode s.asked) p
  renews : ∀ t p, s.session.prog t = some p → ∀ x ∈ s.renewing t, Renews x p
  subs : ∀ ch ∈ s.session.subs.keys, Noted mode s.asked ch
  conns : ∀ c, (s.session.conns c).Due mode s.asked (s.ended c)

theorem Ledger.Inv.init (mode : Mode) : Ledger.Inv mode {} where
  client := Nat.one_pos
  threads := fun t p hp => by cases hp
  unforced := rfl
  asks := fun t p hp => by cases hp
  renews := fun t p hp => by cases hp
  subs := fun ch hch => by cases hch
  conns := fun c => by
    constructor <;> simp [Reader.pushed, Reader.checked]

section

variable {s : Ledger} {l : Label} {session : State}

theorem Due.mono (h : Due mode asked x) :
    Due mode (asked ++ more) x := by
  cases mode with
  | passthrough => exact List.mem_append_left more h
  | shardedRewrite => exact ⟨h.1, List.mem_append_left more h.2⟩

theorem Noted.mono (h : Noted mode asked ch) :
    Noted mode (asked ++ more) ch :=
  fun hm => List.mem_append_left more (h hm)

theorem Due.noted (h : Due mode asked x) :
    Noted mode asked x.2 := by
  rintro rfl
  exact h.2

theorem Conn.Due.mono {ended : Option Subscription} {c : Conn}
    (h : c.Due mode asked ended) : c.Due mode (asked ++ more) ended where
  wire q hq x hx hk := (h.wire q hq x hx hk).mono
  subscribed x hx hk := (h.subscribed x hx hk).mono
  messages r hr x hx := (h.messages r hr x hx).mono
  pushed v hv x hx := List.mem_append_left more (h.pushed v hv x hx)
  ends := h.ends
  checked := h.checked

/-- What the client asks for. -/
theorem handleClientCmd_asks {argv : Argv} (hC : SameVerb mode s (.command argv)) :
    Asks (Due mode (s.asked ++ begins argv)) (Noted mode (s.asked ++ begins argv))
      (handleClientCmd cfg mode src argv) := by
  refine Follows.asks (fun _ => Due.noted)
    (handleClientCmd_follows (U := fun _ => True) argv ?_ fun _ _ => trivial) trivial
  intro y hy
  obtain ⟨x, hx, rfl⟩ := List.mem_map.1 hy
  obtain ⟨hx, hk⟩ := List.mem_filter.1 hx
  have hmem : x ∈ s.asked ++ begins argv := List.mem_append_right _ hx
  cases mode with
  | passthrough =>
    have hfam : familyOf .passthrough x.1 = x.1 := if_neg (by simp)
    rw [hfam]
    exact hmem
  | shardedRewrite =>
    obtain ⟨k, ch⟩ := x
    cases k with
    | channel => exact ⟨rfl, hmem⟩
    | shard => exact ⟨rfl, List.mem_append_left _ (hC rfl _ hx rfl)⟩
    | pattern => exact absurd hk (by simp)

/-- What `maybeResub` asks for. -/
theorem subscribe_asks (h : Due mode asked (familyOf mode .channel, ch)) :
    Asks (Due mode asked) (Noted mode asked) (subscribe cfg mode src [.mk ch] true) := by
  refine Follows.asks (fun _ => Due.noted)
    (subscribe_follows (U := fun _ => True) [.mk ch] true ?_) trivial
  intro ch' hch'
  rw [List.mem_singleton.1 hch']
  exact h

theorem subscribe_renews (ch : Bytes) :
    Renews (familyOf mode .channel, ch) (subscribe cfg mode src [.mk ch] true) := by
  unfold subscribe
  dsimp only
  rw [if_neg (List.cons_ne_nil _ _)]
  refine Sends.any (subscribeLoop_sends cfg (fun ch' hch' => ?_) (List.forall_mem_nil _))
  rw [List.mem_singleton.1 hch']
  cases mode <;> rfl

/-- A channel that is found recorded may be subscribed to again. -/
theorem Ledger.Inv.resub (h : s.Inv mode) {c : ConnId}
    (hC : SameVerb mode s (.check c)) (hr : (s.session.conns c).reader = .checking r)
    (hch : s.session.tracked r.value = some ch) :
    Due mode s.asked (familyOf mode .channel, ch) ∧
      ∀ x ∈ s.forced c, x = (familyOf mode .channel, ch) := by
  have hchecked : (s.session.conns c).reader.checked = some r := by rw [hr]; rfl
  obtain ⟨hname, htracked⟩ := Option.filter_eq_some_iff.1 hch
  have hforced : ∀ x ∈ s.forced c, r.src = none ∧ s.ended c = some x := by
    intro x hx
    rw [Ledger.forced, hchecked] at hx
    dsimp only at hx
    split at hx
    · exact ⟨‹_›, hx⟩
    · cases hx
  cases mode with
  | passthrough =>
    obtain ⟨hended, hasked⟩ := hC rfl r hchecked ch hch
    refine ⟨hasked, fun x hx => ?_⟩
    exact Option.some.inj ((hforced x hx).2.symm.trans hended)
  | shardedRewrite =>
    have hkey : ch ∈ s.session.subs.keys := AList.lookup_isSome.1 htracked
    refine ⟨⟨rfl, h.subs ch hkey rfl⟩, fun x hx => ?_⟩
    have hended := (h.conns c).checked rfl r hchecked (hforced x hx).1 ch hname
    exact Option.some.inj ((hforced x hx).2.symm.trans hended)

/-! ## Connections -/

section

variable {asked : List Subscription} {ended : Option Subscription} {c : Conn}

/-- A reader that has nothing to push or to check. -/
theorem Conn.Due.setReader (h : c.Due mode asked ended) {reader : Reader}
    (hpushed : reader.pushed = none) (hchecked : reader.checked = none) :
    Conn.Due mode asked ended { c with reader } where
  wire := h.wire
  subscribed := h.subscribed
  messages := h.messages
  pushed := by simp [hpushed]
  ends := h.ends
  checked := by simp [hchecked]

/-- A backend that has sent `rs`. -/
theorem Conn.Due.sent (h : c.Due mode asked ended) {wire : List Request}
    {subscribed : List Subscription} {rs : List Reply} (hwire : ∀ q ∈ wire, q ∈ c.wire)
    (hsub : ∀ x ∈ subscribed, x.1 ≠ .pattern → PubSub.Due mode asked x)
    (hmessages : ∀ r ∈ rs, ∀ x ∈ messageOf r.value, PubSub.Due mode asked x)
    (hends : mode = .shardedRewrite → ∀ r ∈ rs, isAck r.value = true → r.src = none →
      ∀ x ∈ endOf r.value, x.1 = .shard) :
    Conn.Due mode asked ended { c with wire, subscribed, replies := c.replies ++ rs } where
  wire q hq := h.wire q (hwire q hq)
  subscribed := hsub
  messages r hr := (List.mem_append.1 hr).elim (h.messages r) (hmessages r)
  pushed := h.pushed
  ends hm r hr := (List.mem_append.1 hr).elim (h.ends hm r) (hends hm r)
  checked := h.checked

theorem dispatch_pushed (h : (dispatch mode r).pushed = some v) :
    v = if mode = .shardedRewrite then rewriteIncoming r.value else r.value := by
  unfold dispatch incoming at h
  generalize (if mode = .shardedRewrite then rewriteIncoming r.value else r.value) = w at h ⊢
  by_cases hack : isAck r.value = true
  · simp only [hack, if_true] at h
    split at h <;> cases h
  · simp only [hack] at h
    cases h
    rfl

theorem dispatch_checked {r r' : Reply} (h : (dispatch mode r).checked = some r') :
    isAck r.value = true ∧
      isUnsub (if mode = .shardedRewrite then rewriteIncoming r.value else r.value) = true ∧
      r' = { r with value := if mode = .shardedRewrite then rewriteIncoming r.value
        else r.value } := by
  unfold dispatch incoming at h
  generalize (if mode = .shardedRewrite then rewriteIncoming r.value else r.value) = w at h ⊢
  by_cases hack : isAck r.value = true
  · simp only [hack, if_true] at h
    split at h
    · rename_i hunsub
      cases h
      exact ⟨hack, hunsub, rfl⟩
    · cases h
  · simp only [hack] at h
    cases h

/-- `forward` hands on what the connection was due. -/
theorem Conn.Due.read (h : c.Due mode asked ended) {replies : List Reply}
    (hreplies : c.replies = r :: replies) :
    Conn.Due mode asked (endOf r.value) { c with replies, reader := dispatch mode r } := by
  have hr : r ∈ c.replies := by rw [hreplies]; exact List.mem_cons_self
  have hrest : ∀ r' ∈ replies, r' ∈ c.replies := by
    rw [hreplies]
    exact fun r' => List.mem_cons_of_mem r
  refine ⟨h.wire, h.subscribed, fun r' hr' => h.messages r' (hrest r' hr'), ?_,
    fun hm r' hr' => h.ends hm r' (hrest r' hr'), ?_⟩
  · intro v hv x hx
    obtain rfl := dispatch_pushed hv
    cases mode with
    | passthrough => exact h.messages r hr x hx
    | shardedRewrite =>
      obtain ⟨y, hy, rfl⟩ := messageOf_rewriteIncoming hx
      exact (h.messages r hr y hy).2
  · rintro rfl r' hr' hsrc ch hch
    obtain ⟨hack, hunsub, rfl⟩ := dispatch_checked hr'
    rw [if_pos rfl] at hunsub
    have hname : channelOf r.value = some ch := (channelOf_rewriteIncoming _).symm.trans hch
    obtain ⟨k, hk⟩ := endOf_of_isUnsub (isUnsub_rewriteIncoming hunsub) hname
    obtain rfl : k = .shard := h.ends rfl r hr hack hsrc _ hk
    exact hk

end

theorem Ledger.Inv.conns_next (h : s.Inv mode) (hB : ToSubscribers s l)
    (hstep : Step cfg mode src s.session l session) (d : ConnId) :
    (session.conns d).Due mode (s.after l session).asked ((s.after l session).ended d) := by
  have hset : ∀ {c : ConnId} {conn : Conn} {session : State},
      session.conns = (s.session.setConn c conn).conns →
      conn.Due mode s.asked (s.ended c) → (session.conns d).Due mode s.asked (s.ended d) := by
    intro c conn session hconns hconn
    rw [hconns, State.conns_setConn]
    split
    · subst d
      exact hconn
    · exact h.conns d
  -- a step that is not named below leaves the connections as they are
  cases hstep with
  | command => exact (h.conns d).mono
  | ret | load | refused | got | unsent | timeout | keys | subsAddr | backend | subsAdd
  | subsDel => exact h.conns d
  | @written t err sent c f k hp hsent =>
    refine hset rfl { h.conns c with wire := fun q hq => ?_ }
    rcases List.mem_append.1 hq with hq | hq
    · exact (h.conns c).wire q hq
    · cases List.mem_singleton.1 hq
      exact (h.asks t _ hp none trivial).1 f (List.mem_singleton_self f)
  | @ack t c r acks k hp hacks => exact hset rfl { h.conns c with }
  | @addBackend t addr c k hp => exact hset rfl ((h.conns c).setReader rfl rfl)
  | @read c r replies hr hreplies =>
    show Conn.Due mode s.asked
      (if d = c then (s.session.conns c).replies.head?.bind fun r => endOf r.value else s.ended d)
      (if d = c then { s.session.conns c with replies, reader := dispatch mode r }
        else s.session.conns d)
    split
    · rw [hreplies]
      exact (h.conns c).read hreplies
    · exact h.conns d
  | @resub c r ch hr hch => exact hset rfl ((h.conns c).setReader rfl rfl)
  | @pass c r hr hch => exact hset rfl ((h.conns c).setReader rfl rfl)
  | @send c r hr hroom =>
    have hidle : Conn.Due mode s.asked (s.ended c) { s.session.conns c with reader := .reading } :=
      (h.conns c).setReader rfl rfl
    exact hset rfl { hidle with }
  | @push c v hr => exact hset rfl ((h.conns c).setReader rfl rfl)
  | @stop c => exact hset rfl ((h.conns c).setReader rfl rfl)
  | @serve c q wire hw =>
    refine hset rfl ((h.conns c).sent (fun q' hq' => ?_) (fun x hx hk => ?_) ?_ ?_)
    · rw [hw]
      exact List.mem_cons_of_mem q hq'
    · rcases mem_of_mem_serve hx with hx | hx
      · exact (h.conns c).subscribed x hx hk
      · exact (h.conns c).wire q (by rw [hw]; exact List.mem_cons_self) x hx hk
    · -- an acknowledgement is no message
      intro r hr x hx
      obtain ⟨v, hv, rfl⟩ := List.mem_map.1 hr
      rw [messageOf_serve hv] at hx
      cases hx
    · intro _ r hr hack hsrc
      obtain ⟨v, hv, rfl⟩ := List.mem_map.1 hr
      rw [if_pos hack] at hsrc
      cases hsrc
  | @force c x n hx hk =>
    -- the forced end is of a subscription that is still in force
    refine hset rfl ((h.conns c).sent (fun q hq => hq) (fun y hy => ?_) ?_ ?_)
    · exact (h.conns c).subscribed y (List.mem_of_mem_filter hy)
    · intro r hr y hy
      rw [List.mem_singleton.1 hr, messageOf_forcedAck] at hy
      cases hy
    · rintro rfl r hr _ _ y hy
      rw [List.mem_singleton.1 hr, endOf_forcedAck hk] at hy
      cases hy
      exact ((h.conns c).subscribed x hx hk).1
  | @publish c v hv =>
    refine hset rfl ((h.conns c).sent (fun q hq => hq) (h.conns c).subscribed ?_ ?_)
    · intro r hr x hx
      rw [List.mem_singleton.1 hr] at hx
      exact (h.conns c).subscribed x (hB x hx) (messageOf_ne_pattern hx)
    · intro _ r hr hack
      rw [List.mem_singleton.1 hr, hv] at hack
      cases hack

/-! ## Steps -/

theorem Ledger.asked_after (s : Ledger) (l : Label) (session : State) :
    ∃ more, (s.after l session).asked = s.asked ++ more := by
  cases l with
  | command argv => exact ⟨begins argv, rfl⟩
  | _ => exact ⟨[], (List.append_nil _).symm⟩

theorem Ledger.renewing_check (s : Ledger) (c : ConnId) (session : State) (t : Tid) :
    (s.after (.check c) session).renewing t =
      if t = s.session.spawned then s.forced c else s.renewing t := rfl

theorem Ledger.Inv.subs_next (h : s.Inv mode) (hstep : Step cfg mode src s.session l session) :
    ∀ ch ∈ session.subs.keys, Noted mode (s.after l session).asked ch := by
  obtain ⟨more, hmore⟩ := s.asked_after l session
  rw [hmore]
  have hold : ∀ ch ∈ s.session.subs.keys, Noted mode (s.asked ++ more) ch :=
    fun ch hch => (h.subs ch hch).mono
  cases hstep with
  | @subsAdd t ch addr k count hp =>
    intro ch' hch'
    rcases (AList.mem_insert _).1 hch' with rfl | hch'
    · exact Noted.mono (h.asks t _ hp 0 trivial).1
    · exact hold ch' hch'
  | @subsDel t ch k count hp =>
    intro ch' hch'
    exact hold ch' (AList.mem_erase.1 hch').2
  | _ => exact hold

theorem Ledger.Inv.next (h : s.Inv mode) (hB : ToSubscribers s l) (hC : SameVerb mode s l)
    {s' : Ledger} (hnext : s.next cfg mode src l = some s') : s'.Inv mode := by
  obtain ⟨session, hsession, rfl⟩ := Option.map_eq_some_iff.1 hnext
  have hstep := step_of_next hsession
  have hspawned : s.session.spawned ≤ session.spawned := by
    cases hstep with
    | resub => exact Nat.le_succ _
    | _ => exact Nat.le_refl _
  obtain ⟨more, hmore⟩ := s.asked_after l session
  constructor <;> try simp only [Ledger.session_after]
  · exact Nat.lt_of_lt_of_le h.client hspawned
  · refine hstep.progs (fun t p hp => Nat.lt_of_lt_of_le (h.threads t p hp) hspawned)
      (fun _ _ _ _ ht => ht) (fun _ _ => Nat.lt_of_lt_of_le h.client hspawned) ?_
    rintro c r ch rfl hr hch
    cases hstep with
    | resub => exact Nat.lt_succ_self _
    | pass hr' hch' =>
      rw [hr] at hr'
      cases hr'
      rw [hch] at hch'
      cases hch'
  · cases l with
    | check c => exact (if_neg (Nat.ne_of_lt h.client)).trans h.unforced
    | _ => exact h.unforced
  · refine hstep.progs (fun t p hp => ?_) (fun t o k r hp => (hp r trivial).2) ?_ ?_
    · rw [hmore]
      exact (h.asks t p hp).mono (fun _ => Due.mono) fun _ => Noted.mono
    · rintro argv rfl
      exact handleClientCmd_asks hC
    · rintro c r ch rfl hr hch
      exact subscribe_asks (h.resub hC hr hch).1
  · refine hstep.progs (fun t p hp x hx => ?_) (fun t o k r hp x hx => (hp x hx r trivial).2) ?_ ?_
    · -- a goroutine that runs is not the one that is started
      refine h.renews t p hp x ?_
      cases l with
      | check c => rwa [Ledger.renewing_check, if_neg (Nat.ne_of_lt (h.threads t p hp))] at hx
      | _ => exact hx
    · rintro argv rfl x hx
      rw [show (s.after (.command argv) session).renewing 0 = none from h.unforced] at hx
      cases hx
    · rintro c r ch rfl hr hch x hx
      rw [Ledger.renewing_check, if_pos rfl] at hx
      rw [(h.resub hC hr hch).2 x hx]
      exact subscribe_renews ch
  · exact h.subs_next hstep
  · exact h.conns_next hB hstep

end

end RespProxy.PubSub
