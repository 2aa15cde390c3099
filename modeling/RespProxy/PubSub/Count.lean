import RespProxy.Proxy.Frames
import RespProxy.PubSub.Leave

/-! # The number in a confirmation

`subscribe` and `unsubscribe` keep `count` beside the map `subs`, and confirm each
channel with a number. Where nothing is renamed the confirmation is the backend's own
acknowledgement, which counts the subscriptions of one connection; otherwise it is
made from `count`.

`Tally` runs the machine and keeps the client's books: the channels it has entered and
not left (`joined`), and their number behind each channel of its command (`marks`).
In a run that meets `Counting`, `count` is the number of channels in `subs`, and every
confirmation carries the number the client's books have.
-/

namespace RespProxy.PubSub

open Cluster Command Resp Proxy Interact

variable {counted : List (Nat × Nat)} {k : Nat → Prog (List Value)} {ch : Slice}
variable {w : Option Nat} {cmd kind : String} {rewrite : Bool} {r : Reply} {argv : Argv}
  {addr : Addr} {t : Tid} {c : Conn}

/-! ## Books -/

/-- The number in a confirmation. -/
def Carries (v : Value) (n : Nat) : Prop := (v.values[2]?).map Value.int = some (n : Int)

/-- The replies to a command: a confirmation with each of the numbers, or an error. -/
def Confirmed (vs : List Value) (marks : List Nat) : Prop :=
  List.Forall₂ Carries vs marks ∨ ∃ e, vs = [error e]

/-- A session and the books of its client. -/
structure Tally where
  session : State := {}
  /-- the channels the client has entered and not left -/
  joined : List Bytes := []
  /-- their number behind each channel of the command -/
  marks : List Nat := []
  /-- requests, and what the backend counted on their connection when it had served them -/
  counted : List (Nat × Nat) := []
  /-- the request of the acknowledgement that the command has taken for its channel -/
  taken : Option (Option Nat) := none

/-- The channel that a goroutine is about to record. -/
def State.recording (s : State) (t : Tid) : Option Bytes :=
  match s.prog t with
  | some (.call (.subsAdd ch _) _) => some ch.bytes
  | _ => none

/-- The acknowledgement that `waitAck` can take. -/
def State.arriving (s : State) (t : Tid) : Option Reply :=
  (s.waiting t).bind fun c => (s.conns c).acks.head?

/-- The kind of subscription that a command opens or closes. -/
def kindOf (argv : Argv) : Family :=
  let op := classifyPubSub (nameOf argv)
  ((opens op).or (closes op)).getD .channel

/-- What the backend counts for a request. -/
def Conn.count (c : Conn) (q : Request) : Nat :=
  tally (kindOf q.argv) (serve c.subscribed q.argv).1

def Tally.enter (s : Tally) (ch : Bytes) : Tally :=
  let joined := s.joined.insert ch
  { s with joined, marks := s.marks ++ [joined.length], taken := none }

def Tally.leave (s : Tally) (ch : Bytes) : Tally :=
  let joined := s.joined.erase ch
  { s with joined, marks := s.marks ++ [joined.length], taken := none }

variable (cfg : Config) (mode : Mode) (src : Origin)

/-- The books behind a step. -/
def Tally.after (s : Tally) (l : Label) (session : State) : Tally :=
  match l with
  | .command _ => { s with session, marks := [], taken := none }
  | .ack t =>
    if t = 0 then { s with session, taken := (s.session.arriving 0).map Reply.src }
    else { s with session }
  | .serve c =>
    let served := (s.session.conns c).wire.head?.map fun q =>
      (q.ticket, (s.session.conns c).count q)
    { s with session, counted := s.counted ++ served.toList }
  | .subsAdd t =>
    match s.session.recording t with
    | some ch => if t = 0 then { s.enter ch with session } else { s with session }
    | none => { s with session }
  | .subsDel t =>
    match s.session.deleting t with
    | some ch =>
      if t = 0 then { s.leave ch with session }
      else { s with session, joined := s.joined.erase ch }
    | none => { s with session }
  | _ => { s with session }

def Tally.next (s : Tally) (l : Label) : Option Tally :=
  (s.session.next cfg mode src l).map (s.after l)

/-! ## The condition -/

/-- A command with channels. -/
def Channels (argv : Argv) : Prop :=
  classifyPubSub (nameOf argv) ∈ [.subscribe, .ssubscribe, .unsubscribe, .sunsubscribe]

instance (argv : Argv) : Decidable (Channels argv) := inferInstanceAs (Decidable (_ ∈ _))

/-- What is passed through acknowledges a request behind which the backend counted `n`. -/
def Tally.Agrees (s : Tally) (n : Nat) : Prop :=
  mode = .passthrough → ∀ src ∈ s.taken, src ≠ none ∧
    ∀ e ∈ s.counted, src = some e.1 → e.2 = n

instance (s : Tally) (n : Nat) : Decidable (s.Agrees mode n) :=
  inferInstanceAs (Decidable (_ → _))

def Counting (s : Tally) : Label → Prop
  | .subsAdd t => ∀ ch ∈ s.session.recording t,
      if t = 0 then s.Agrees mode (s.session.subs.keys.insert ch).length
      -- a channel that is subscribed to again was not left meanwhile
      else ch ∈ s.session.subs.keys
  | .subsDel t => ∀ ch ∈ s.session.deleting t,
      (ch ∈ s.session.subs.keys ∨ s.session.subs.keys = []) ∧
      (t = 0 → s.Agrees mode (s.session.subs.keys.erase ch).length)
  | _ => True

instance (s : Tally) : (l : Label) → Decidable (Counting mode s l)
  | .subsAdd t => inferInstanceAs (Decidable (∀ ch ∈ s.session.recording t,
      if t = 0 then s.Agrees mode (s.session.subs.keys.insert ch).length
      else ch ∈ s.session.subs.keys))
  | .subsDel t => inferInstanceAs (Decidable (∀ ch ∈ s.session.deleting t,
      (ch ∈ s.session.subs.keys ∨ s.session.subs.keys = []) ∧
      (t = 0 → s.Agrees mode (s.session.subs.keys.erase ch).length)))
  | .command _ | .ret _ | .load _ _ | .get _ _ | .write _ _ _ | .ack _ | .timeout _ _ | .keys _ _
  | .subsAddr _ | .backend _ | .addBackend _ | .read _ | .check _ | .send _ | .push _ | .stop _
  | .serve _ | .force _ _ | .publish _ _ => inferInstanceAs (Decidable True)

variable {cfg mode src}

/-! ## What is written -/

/-- The names of the commands that are written. -/
def spoken : Mode → List String
  | .passthrough => ["SUBSCRIBE", "SSUBSCRIBE", "UNSUBSCRIBE", "SUNSUBSCRIBE"]
  | .shardedRewrite => ["SSUBSCRIBE", "SUNSUBSCRIBE"]

/-- A command with one channel. -/
def Spoken (mode : Mode) (argv : Argv) : Prop := ∃ w ∈ spoken mode, ∃ ch, argv = [arg w, ch]

/-- The goroutine writes only such commands. -/
def Speaks (mode : Mode) (p : Prog (List Value)) : Prop :=
  Sends (fun _ => True) (fun f => Spoken mode f.argv) (fun _ _ => True) (fun _ => True) p

theorem subscribe_speaks (chs : List Slice) (fromGlobal : Bool) :
    Speaks mode (Proxy.subscribe cfg mode src chs fromGlobal) := by
  unfold Proxy.subscribe
  dsimp only
  split
  · trivial
  · refine Sends.any (subscribeLoop_sends cfg (fun ch _ => ⟨_, ?_, ch, rfl⟩) (List.forall_mem_nil _))
    cases mode <;> cases fromGlobal <;> decide

theorem unsubscribe_speaks (chs : List Slice) (fromGlobal : Bool) :
    Speaks mode (Proxy.unsubscribe mode src chs fromGlobal) := by
  intro known _
  refine ⟨trivial, ?_⟩
  refine Sends.any (unsubscribeLoop_sends (fun ch => ⟨_, ?_, ch, rfl⟩) _)
  cases mode <;> cases fromGlobal <;> decide

theorem handleClientCmd_speaks (h : Channels argv) :
    Speaks mode (handleClientCmd cfg mode src argv) := by
  unfold handleClientCmd
  simp only [Channels, List.mem_cons, List.not_mem_nil, or_false] at h
  rcases h with h | h | h | h <;> rw [h]
  · exact subscribe_speaks _ true
  · exact subscribe_speaks _ false
  · exact unsubscribe_speaks _ true
  · exact unsubscribe_speaks _ false

/-! ## What is confirmed -/

/-- An acknowledgement that is passed through carries the number. -/
def Passes (mode : Mode) (v : Value) (n : Nat) : Prop :=
  match mode with
  | .passthrough => Carries v n
  | .shardedRewrite => v.raw = []

/-- Requests that do not touch the books. -/
def Plain : Op → Prop
  | .waitAck _ | .subsAdd _ _ | .subsDel _ => False
  | _ => True

/-- The program confirms what the books have, `marks` so far. The number is that of the
acknowledgement it has taken for its channel. -/
inductive Tells (mode : Mode) : List Nat → Option Nat → Prog (List Value) → Prop where
  | ret {marks : List Nat} {vs : List Value} (h : Confirmed vs marks) :
      Tells mode marks none (.ret vs)
  | call {marks : List Nat} {o : Op} {k : Res o → Prog (List Value)} (ho : Plain o)
      (h : ∀ r, Tells mode marks none (k r)) : Tells mode marks none (.call o k)
  | wait {marks : List Nat} {c : ConnId} {k : Except Err Value → Prog (List Value)}
      (herr : ∀ e, Tells mode marks none (k (.error e)))
      (hok : ∀ v m, Passes mode v m → Tells mode marks (some m) (k (.ok v))) :
      Tells mode marks none (.call (.waitAck c) k)
  | add {marks : List Nat} {w : Option Nat} {ch : Slice} {addr : Addr}
      {k : Nat → Prog (List Value)}
      (h : ∀ n, (mode = .passthrough → ∀ m ∈ w, m = n) → Tells mode (marks ++ [n]) none (k n)) :
      Tells mode marks w (.call (.subsAdd ch addr) k)
  | del {marks : List Nat} {w : Option Nat} {ch : Slice} {k : Nat → Prog (List Value)}
      (h : ∀ n, (mode = .passthrough → ∀ m ∈ w, m = n) → Tells mode (marks ++ [n]) none (k n)) :
      Tells mode marks w (.call (.subsDel ch) k)

theorem carries_array (kind : Slice) (ch : Slice) (n : Nat) :
    Carries (array [bulkString kind, bulkString ch, integer n]) n := rfl

/-- A confirmation carries the count, or the number of the acknowledgement. -/
theorem clientAck_carries {v : Value} {m n : Nat} (hv : Passes mode v m)
    (hn : mode = .passthrough → m = n) (kind : String) (ch : Slice) (rewrite : Bool) :
    Carries (clientAck v kind ch n rewrite) n := by
  unfold clientAck
  split
  · next h =>
    cases mode with
    | passthrough => exact hn rfl ▸ hv
    | shardedRewrite =>
      -- nothing that was renamed has its bytes
      have hraw : v.raw = [] := hv
      simp [hraw] at h
  · exact carries_array _ _ _

theorem carries_snoc {vs : List Value} {marks : List Nat} {v : Value} {n : Nat}
    (h : List.Forall₂ Carries vs marks) (hv : Carries v n) :
    List.Forall₂ Carries (vs ++ [v]) (marks ++ [n]) :=
  List.rel_append h (.cons hv .nil)

variable {marks : List Nat}

theorem owner_tells {slot : Nat} {f : Option Addr → Prog (List Value)}
    (h : ∀ a, Tells mode marks none (f a)) :
    Tells mode marks none ((owner cfg slot false).bind f) := by
  refine .call trivial fun t => ?_
  simp only [Prog.pure_eq, Prog.ret_bind]
  split
  · exact h _
  · exact .call trivial fun _ => h _

theorem ensureBackend_tells {f : Except Err ConnId → Prog (List Value)}
    (h : ∀ r, Tells mode marks none (f r)) :
    Tells mode marks none ((ensureBackend cfg addr).bind f) := by
  refine .call trivial fun r => ?_
  cases r with
  | some c => exact h _
  | none =>
    refine .call trivial fun r => ?_
    cases r with
    | error e => exact h _
    | ok c => exact .call trivial fun _ => h _

theorem subscribeLoop_tells (chs : List Slice)
    {vs : List Value} (h : List.Forall₂ Carries vs marks) :
    Tells mode marks none (subscribeLoop cfg src cmd kind rewrite chs vs) := by
  induction chs generalizing vs marks with
  | nil => exact .ret (.inl h)
  | cons ch chs ih =>
    refine owner_tells fun a => ?_
    cases a with
    | none => exact .ret (.inr ⟨_, rfl⟩)
    | some addr =>
      refine ensureBackend_tells fun r => ?_
      cases r with
      | error e => exact .ret (.inr ⟨_, rfl⟩)
      | ok c =>
        refine .call trivial fun r => ?_
        cases r with
        | some e => exact .ret (.inr ⟨_, rfl⟩)
        | none =>
          refine .wait (fun e => .ret (.inr ⟨_, rfl⟩)) fun v m hv => .add fun n hn => ?_
          exact ih (carries_snoc h (clientAck_carries hv (fun hm => hn hm m rfl) _ _ _))

theorem subscribe_tells (chs : List Slice) (fromGlobal : Bool) :
    Tells mode [] none (Proxy.subscribe cfg mode src chs fromGlobal) := by
  unfold Proxy.subscribe
  dsimp only
  split
  · exact .ret (.inr ⟨_, rfl⟩)
  · exact subscribeLoop_tells chs .nil

theorem unsubscribeOne_tells
    {f : Value → Prog (List Value)} (h : ∀ v n, Carries v n → Tells mode (marks ++ [n]) none (f v)) :
    Tells mode marks none ((unsubscribeOne src cmd kind rewrite ch).bind f) := by
  refine .call trivial fun addr => .call trivial fun r => ?_
  cases r with
  | none => exact .del fun n _ => h _ n (carries_array _ _ n)
  | some c =>
    refine .call trivial fun _ => .wait (fun e => ?_) fun v m hv => ?_
    · exact .del fun n _ => h _ n (carries_array _ _ n)
    · exact .del fun n hn => h _ n (clientAck_carries hv (fun hm => hn hm m rfl) _ _ _)

theorem unsubscribeLoop_tells (chs : List Slice)
    {f : List Value → Prog (List Value)} {done : List Value} (h : List.Forall₂ Carries done marks)
    (hf : ∀ vs marks, List.Forall₂ Carries (done ++ vs) marks → Tells mode marks none (f vs)) :
    Tells mode marks none ((unsubscribeLoop src cmd kind rewrite chs).bind f) := by
  induction chs generalizing f marks done with
  | nil => exact hf [] marks (by simpa using h)
  | cons ch chs ih =>
    show Tells mode marks none (Prog.bind (Prog.bind _ _) f)
    rw [Prog.bind_assoc]
    refine unsubscribeOne_tells fun v n hv => ?_
    show Tells mode _ none (Prog.bind (Prog.bind _ _) f)
    rw [Prog.bind_assoc]
    exact ih (carries_snoc h hv) fun vs marks hvs => hf (v :: vs) marks (by simpa using hvs)

theorem unsubscribe_tells (chs : List Slice) (fromGlobal : Bool) :
    Tells mode [] none (Proxy.unsubscribe mode src chs fromGlobal) := by
  unfold Proxy.unsubscribe
  refine .call trivial fun known => ?_
  show Tells mode [] none (unsubscribeLoop _ _ _ _ _)
  rw [← Prog.bind_ret (unsubscribeLoop _ _ _ _ _)]
  exact unsubscribeLoop_tells _ .nil fun vs marks h => .ret (.inl h)

theorem handleClientCmd_tells (h : Channels argv) :
    Tells mode [] none (handleClientCmd cfg mode src argv) := by
  unfold handleClientCmd
  simp only [Channels, List.mem_cons, List.not_mem_nil, or_false] at h
  rcases h with h | h | h | h <;> rw [h]
  · exact subscribe_tells _ true
  · exact subscribe_tells _ false
  · exact unsubscribe_tells _ true
  · exact unsubscribe_tells _ false

/-! ## What backends count -/

/-- The acknowledgement a reader holds. -/
def Reader.ack : Reader → Option Reply
  | .checking r | .sending r => some r
  | _ => none

/-- The acknowledgements that are under way, as they are handed on. -/
def Conn.sent (mode : Mode) (c : Conn) : List Reply :=
  c.acks ++ (c.reader.ack.toList ++ c.replies.filterMap fun r => (dispatch mode r).ack)

/-- An acknowledgement carries what the backend counted for its request. -/
def Numbers (mode : Mode) (counted : List (Nat × Nat)) (r : Reply) : Prop :=
  match mode with
  | .passthrough => ∃ n, Carries r.value n ∧ ∀ k ∈ r.src, (k, n) ∈ counted
  | .shardedRewrite => r.value.raw = []

structure Conn.Numbered (mode : Mode) (counted : List (Nat × Nat)) (c : Conn) : Prop where
  wire : ∀ q ∈ c.wire, Spoken mode q.argv
  subscribed : mode = .shardedRewrite → ∀ x ∈ c.subscribed, x.1 = .shard
  sent : ∀ r ∈ c.sent mode, Numbers mode counted r

theorem Numbers.mono {more : List (Nat × Nat)} (h : Numbers mode counted r) :
    Numbers mode (counted ++ more) r := by
  cases mode with
  | passthrough =>
    obtain ⟨n, hn, hmem⟩ := h
    exact ⟨n, hn, fun k hk => List.mem_append_left _ (hmem k hk)⟩
  | shardedRewrite => exact h

/-- Fewer acknowledgements are under way. -/
theorem Conn.Numbered.sub {c c' : Conn} (h : c.Numbered mode counted)
    (hwire : c'.wire = c.wire) (hsub : c'.subscribed = c.subscribed)
    (hsent : ∀ r ∈ c'.sent mode, r ∈ c.sent mode) : c'.Numbered mode counted :=
  ⟨hwire ▸ h.wire, hsub ▸ h.subscribed, fun r hr => h.sent r (hsent r hr)⟩

theorem dispatch_ack (r : Reply) : (dispatch mode r).ack = if isAck r.value then
    some { r with value := if mode = .shardedRewrite then rewriteIncoming r.value else r.value }
    else none := by
  unfold dispatch incoming
  dsimp only
  cases isAck r.value with
  | false => rfl
  | true =>
    simp only [if_true]
    split <;> split <;> rfl

/-- A backend acknowledges a command with one channel once, with what it counts. -/
theorem serve_spoken (h : Spoken mode argv) (S : List Subscription) :
    ∃ verb ch, (serve S argv).2 = [ackValue verb ch (tally (kindOf argv) (serve S argv).1)] ∧
      (mode = .shardedRewrite → verb ∈ ["ssubscribe", "sunsubscribe"]) := by
  obtain ⟨w, hw, ch, rfl⟩ := h
  have hw' : w ∈ spoken .passthrough := by
    cases mode with
    | passthrough => exact hw
    | shardedRewrite =>
      simp only [spoken, List.mem_cons, List.not_mem_nil, or_false] at hw ⊢
      tauto
  simp only [spoken, List.mem_cons, List.not_mem_nil, or_false] at hw'
  rcases hw' with rfl | rfl | rfl | rfl
  · refine ⟨"subscribe", ch, rfl, fun hm => ?_⟩
    subst hm
    exact absurd hw (by decide)
  · exact ⟨"ssubscribe", ch, rfl, fun _ => by decide⟩
  · refine ⟨"unsubscribe", ch, rfl, fun hm => ?_⟩
    subst hm
    exact absurd hw (by decide)
  · exact ⟨"sunsubscribe", ch, rfl, fun _ => by decide⟩

/-- An acknowledgement as a backend sends it. -/
theorem numbers_ackValue {verb : String} {n : Nat}
    {src : Option Nat} (hverb : mode = .shardedRewrite → verb ∈ ["ssubscribe", "sunsubscribe"])
    (hsrc : ∀ k ∈ src, (k, n) ∈ counted) :
    ∀ r ∈ (dispatch mode ⟨ackValue verb ch n, src⟩).ack, Numbers mode counted r := by
  intro r hr
  rw [dispatch_ack] at hr
  split at hr
  · cases hr
    cases mode with
    | passthrough => exact ⟨n, rfl, hsrc⟩
    | shardedRewrite =>
      have hverb := hverb rfl
      simp only [List.mem_cons, List.not_mem_nil, or_false] at hverb
      rcases hverb with rfl | rfl <;> rfl
  · cases hr

section

variable {s : Tally} {l : Label} {session : State}

theorem Tally.counted_after (s : Tally) (l : Label) (session : State) :
    ∃ more, (s.after l session).counted = s.counted ++ more := by
  unfold Tally.after
  split
  case h_3 => exact ⟨_, rfl⟩
  all_goals refine ⟨[], ?_⟩
  all_goals try split
  all_goals try split
  all_goals simp [Tally.enter, Tally.leave]

/-- Reading moves an acknowledgement on. -/
theorem Conn.sent_read {replies : List Reply} (hr : c.reader = .reading)
    (hreplies : c.replies = r :: replies) :
    Conn.sent mode { c with replies, reader := dispatch mode r } = c.sent mode := by
  rw [Conn.sent, Conn.sent, hr, hreplies, List.filterMap_cons]
  cases (dispatch mode r).ack <;> rfl

/-- A reply is sent. -/
theorem Conn.Numbered.reply (h : c.Numbered mode counted)
    (hr : ∀ r' ∈ (dispatch mode r).ack, Numbers mode counted r') :
    Conn.Numbered mode counted { c with replies := c.replies ++ [r] } := by
  refine ⟨h.wire, h.subscribed, fun r' hr' => ?_⟩
  simp only [Conn.sent, List.filterMap_append, List.mem_append] at hr'
  rcases hr' with hr' | hr' | hr' | hr'
  · exact h.sent r' (List.mem_append_left _ hr')
  · exact h.sent r' (List.mem_append_right _ (List.mem_append_left _ hr'))
  · exact h.sent r' (List.mem_append_right _ (List.mem_append_right _ hr'))
  · obtain ⟨r₀, hmem, hack⟩ := List.mem_filterMap.1 hr'
    cases List.mem_singleton.1 hmem
    exact hr r' hack

/-- A command is served. -/
theorem Conn.Numbered.serve {counted : List (Nat × Nat)} (h : c.Numbered mode counted)
    {q : Request} {wire : List Request} (hw : c.wire = q :: wire)
    (hcount : (q.ticket, c.count q) ∈ counted) :
    Conn.Numbered mode counted { c with
      wire
      subscribed := (PubSub.serve c.subscribed q.argv).1
      replies := c.replies ++ (PubSub.serve c.subscribed q.argv).2.map fun v =>
        { value := v, src := if isAck v then some q.ticket else none } } := by
  have hspoken := h.wire q (by simp [hw])
  obtain ⟨verb, ch, hserve, hverb⟩ := serve_spoken hspoken c.subscribed
  rw [hserve]
  have hrest : Conn.Numbered mode counted
      { c with wire, subscribed := (PubSub.serve c.subscribed q.argv).1 } := by
    refine ⟨fun q' hq' => h.wire q' (by simp [hw, hq']), fun hm x hx => ?_, h.sent⟩
    rcases mem_of_mem_serve hx with hx | hx
    · exact h.subscribed hm x hx
    · -- only shard channels are asked for
      obtain ⟨w, hw, ch, hargv⟩ := hspoken
      subst hm
      rw [hargv] at hx
      simp only [spoken, List.mem_cons, List.not_mem_nil, or_false] at hw
      rcases hw with rfl | rfl
      · cases List.mem_singleton.1 hx
        rfl
      · cases hx
  refine hrest.reply (numbers_ackValue hverb fun k hk => ?_)
  split at hk
  · cases hk
    exact hcount
  · cases hk

/-! ## The invariant -/

/-- The acknowledgement the client's command has taken carries what was counted for it. -/
def Tally.Taken (mode : Mode) (s : Tally) (w : Option Nat) : Prop :=
  mode = .passthrough → ∀ m ∈ w, ∃ src ∈ s.taken, ∀ k ∈ src, (k, m) ∈ s.counted

/-- The program confirms what the books have. -/
def Tally.Confirms (mode : Mode) (s : Tally) (p : Prog (List Value)) : Prop :=
  ∃ w, Tells mode s.marks w p ∧ s.Taken mode w

structure Tally.Inv (mode : Mode) (s : Tally) : Prop where
  client : 0 < s.session.spawned
  count : s.session.count = s.session.subs.keys.length
  joined : s.joined.Perm s.session.subs.keys
  speaks : ∀ t p, s.session.prog t = some p → Speaks mode p
  conns : ∀ c, (s.session.conns c).Numbered mode s.counted
  tells : ∀ p, s.session.prog 0 = some p → s.Confirms mode p

theorem Tally.Inv.init (mode : Mode) : Tally.Inv mode {} := by
  constructor
  · decide
  · rfl
  · exact .nil
  · intro t p hp
    cases hp
  · exact fun c => ⟨by simp, by simp, by simp [Conn.sent, Reader.ack]⟩
  · intro p hp
    cases hp

/-- What the goroutines write. -/
theorem speaks_next (h : ∀ t p, s.session.prog t = some p → Speaks mode p)
    (hcommand : ∀ argv, l = .command argv → Channels argv)
    (hstep : Step cfg mode src s.session l session) :
    ∀ t p, session.prog t = some p → Speaks mode p := by
  refine hstep.progs h (fun t o k r hp => (hp r trivial).2) ?_ ?_
  · exact fun argv hl => handleClientCmd_speaks (hcommand argv hl)
  · exact fun c r ch _ _ _ => subscribe_speaks _ true

/-- What is under way on the connections. -/
theorem numbered_next (hspeaks : ∀ t p, s.session.prog t = some p → Speaks mode p)
    (h : ∀ c, (s.session.conns c).Numbered mode s.counted)
    (hstep : Step cfg mode src s.session l session) :
    ∀ c, (session.conns c).Numbered mode (s.after l session).counted := by
  obtain ⟨more, hmore⟩ := s.counted_after l session
  -- what was counted stays counted, so only the connection of the step is looked at
  have hold : ∀ c, (s.session.conns c).Numbered mode (s.after l session).counted := by
    intro c
    rw [hmore]
    exact ⟨(h c).wire, (h c).subscribed, fun r hr => ((h c).sent r hr).mono⟩
  generalize hcounted : (s.after l session).counted = counted at hold ⊢
  have hset : ∀ {d : ConnId} {conn : Conn}, session.conns = (s.session.setConn d conn).conns →
      conn.Numbered mode counted → ∀ c, (session.conns c).Numbered mode counted := by
    intro d conn hconns hconn c
    rw [hconns, State.conns_setConn]
    split
    · exact hconn
    · exact hold c
  cases hstep with
  | command | ret | load | refused | got | unsent | timeout | keys | subsAddr | backend | subsAdd
  | subsDel => exact hold
  | @written t err sent c f k hp hsent =>
    refine hset rfl ⟨fun q hq => ?_, (hold c).subscribed, (hold c).sent⟩
    rcases List.mem_append.1 hq with hq | hq
    · exact (hold c).wire q hq
    · cases List.mem_singleton.1 hq
      exact (hspeaks _ _ hp none trivial).1 f (List.mem_singleton_self f)
  | @ack t c r acks k hp hacks =>
    refine hset rfl ((hold c).sub rfl rfl fun r' hr' => ?_)
    rcases List.mem_append.1 hr' with hr' | hr'
    · exact List.mem_append_left _ (by rw [hacks]; exact List.mem_cons_of_mem r hr')
    · exact List.mem_append_right _ hr'
  | @addBackend t addr c k hp =>
    refine hset rfl ((hold c).sub rfl rfl fun r hr => ?_)
    simp only [Conn.sent, Reader.ack, List.mem_append] at hr ⊢
    tauto
  | @read c r replies hr hreplies =>
    refine hset rfl ((hold c).sub rfl rfl fun r' hr' => ?_)
    rwa [Conn.sent_read hr hreplies] at hr'
  | @resub c r ch hr hch =>
    refine hset rfl ((hold c).sub rfl rfl fun r' hr' => ?_)
    simp only [Conn.sent, Reader.ack, List.mem_append] at hr' ⊢
    tauto
  | @pass c r hr hch =>
    refine hset rfl ((hold c).sub rfl rfl fun r' hr' => ?_)
    simpa [Conn.sent, hr, Reader.ack] using hr'
  | @send c r hr hroom =>
    refine hset rfl ((hold c).sub rfl rfl fun r' hr' => ?_)
    simpa [Conn.sent, hr, Reader.ack, or_assoc] using hr'
  | @push c v hr =>
    refine hset rfl ((hold c).sub rfl rfl fun r' hr' => ?_)
    simpa [Conn.sent, hr, Reader.ack] using hr'
  | @stop c =>
    refine hset rfl ((hold c).sub rfl rfl fun r hr => ?_)
    simp only [Conn.sent, Reader.ack, List.mem_append] at hr ⊢
    tauto
  | @serve c q wire hw =>
    refine hset rfl ((hold c).serve hw ?_)
    rw [← hcounted]
    simp [Tally.after, hw]
  | @force c x n hx hk =>
    -- the backend ends a subscription by itself, and says so
    have hrest : Conn.Numbered mode counted { s.session.conns c with
        subscribed := (s.session.conns c).subscribed.filter (· ≠ x) } := by
      refine ⟨(hold c).wire, fun hm y hy => ?_, (hold c).sent⟩
      exact (hold c).subscribed hm y (List.mem_of_mem_filter hy)
    refine hset rfl (hrest.reply (numbers_ackValue (fun hm => ?_) fun k hk => by cases hk))
    rw [if_pos ((hold c).subscribed hm x hx)]
    decide
  | @publish c v hv =>
    refine hset rfl ((hold c).reply fun r hr => ?_)
    rw [dispatch_ack, if_neg (by simp [hv])] at hr
    cases hr

theorem keys_insert_perm (subs : AList fun _ : Bytes => Addr) (ch : Bytes) (addr : Addr) :
    (subs.keys.insert ch).Perm (subs.insert ch addr).keys := by
  refine (List.perm_ext_iff_of_nodup (subs.keys_nodup.insert) (AList.keys_nodup _)).2 fun a => ?_
  rw [List.mem_insert_iff, ← AList.mem_keys, ← AList.mem_keys, AList.mem_insert]

theorem keys_erase_perm (subs : AList fun _ : Bytes => Addr) (ch : Bytes) :
    (subs.keys.erase ch).Perm (subs.erase ch).keys := by
  refine (List.perm_ext_iff_of_nodup (subs.keys_nodup.erase ch) (AList.keys_nodup _)).2 fun a => ?_
  rw [subs.keys_nodup.mem_erase_iff, ← AList.mem_keys, ← AList.mem_keys, AList.mem_erase]

theorem count_of_subsAdd {s s' : State} (hp : s.prog t = some (.call (.subsAdd ch addr) k))
    (h : s.next cfg mode src (.subsAdd t) = some s') (hcount : s.count = s.subs.keys.length) :
    s'.count = (s.subs.keys.insert ch.bytes).length := by
  simp only [State.next, State.runStep, hp] at h
  cases h
  dsimp only
  by_cases hch : ch.bytes ∈ s.subs.keys
  · rw [if_pos (AList.lookup_isSome.2 hch), List.insert_of_mem hch, hcount]
  · rw [if_neg (fun h => hch (AList.lookup_isSome.1 h)), List.length_insert_of_not_mem hch, hcount]

theorem count_of_subsDel {s s' : State} (hp : s.prog t = some (.call (.subsDel ch) k))
    (h : s.next cfg mode src (.subsDel t) = some s') (hcount : s.count = s.subs.keys.length)
    (hch : ch.bytes ∈ s.subs.keys ∨ s.subs.keys = []) :
    s'.count = (s.subs.keys.erase ch.bytes).length := by
  simp only [State.next, State.runStep, hp] at h
  cases h
  dsimp only
  rcases hch with hch | hnil
  · rw [List.length_erase_of_mem hch, hcount]
  · rw [hcount, hnil]
    rfl

theorem Tally.after_subsAdd
    (hp : s.session.prog t = some (.call (.subsAdd ch addr) k)) : s.after (.subsAdd t) session =
      if t = 0 then { s.enter ch.bytes with session } else { s with session } := by
  simp only [Tally.after, State.recording, hp]

theorem Tally.after_subsDel
    (hp : s.session.prog t = some (.call (.subsDel ch) k)) : s.after (.subsDel t) session =
      if t = 0 then { s.leave ch.bytes with session }
      else { s with session, joined := s.joined.erase ch.bytes } := by
  simp only [Tally.after, State.deleting, hp]

/-- The count, and the client's books. -/
theorem books_next (hcount : s.session.count = s.session.subs.keys.length)
    (hjoined : s.joined.Perm s.session.subs.keys) (hC : Counting mode s l)
    (hnext : s.session.next cfg mode src l = some session) :
    session.count = session.subs.keys.length ∧
      (s.after l session).joined.Perm session.subs.keys := by
  have hkeep : session.count = s.session.count → session.subs = s.session.subs →
      (s.after l session).joined = s.joined → session.count = session.subs.keys.length ∧
        (s.after l session).joined.Perm session.subs.keys := by
    intro hc hs hj
    rw [hc, hs, hj]
    exact ⟨hcount, hjoined⟩
  cases step_of_next hnext with
  | @ack t c r acks k hp hacks =>
    refine hkeep rfl rfl ?_
    unfold Tally.after
    dsimp only
    split <;> rfl
  | @subsAdd t ch addr k count hp =>
    have hperm := keys_insert_perm s.session.subs ch.bytes addr
    refine ⟨(count_of_subsAdd hp hnext hcount).trans hperm.length_eq, ?_⟩
    have hcond := hC ch.bytes (by simp [State.recording, hp])
    rw [Tally.after_subsAdd hp]
    by_cases ht : t = 0
    · rw [if_pos ht]
      exact (hjoined.insert ch.bytes).trans hperm
    · -- subscribed to again, and recorded all the time
      rw [if_neg ht] at hcond ⊢
      rw [List.insert_of_mem hcond] at hperm
      exact hjoined.trans hperm
  | @subsDel t ch k count hp =>
    have hperm := keys_erase_perm s.session.subs ch.bytes
    have hcond := hC ch.bytes (by simp [State.deleting, hp])
    refine ⟨(count_of_subsDel hp hnext hcount hcond.1).trans hperm.length_eq, ?_⟩
    rw [Tally.after_subsDel hp]
    split <;> exact (hjoined.erase ch.bytes).trans hperm
  | _ => exact hkeep rfl rfl rfl

theorem Tells.answer {mode : Mode} {marks : List Nat} {o : Op}
    {k : Res o → Prog (List Value)} (h : Tells mode marks w (.call o k)) (ho : Plain o) (r : Res o) :
    Tells mode marks none (k r) := by
  cases h with
  | call _ h => exact h r
  | wait | add | del => exact ho.elim

theorem Tells.error {mode : Mode} {marks : List Nat} {c : ConnId}
    {k : Except Err Value → Prog (List Value)} (h : Tells mode marks w (.call (.waitAck c) k))
    (e : Err) : Tells mode marks none (k (.error e)) := by
  cases h with
  | call ho _ => exact ho.elim
  | wait herr _ => exact herr e

/-- A command takes an acknowledgement. -/
theorem Tally.Inv.taken (h : s.Inv mode) {c : ConnId} {acks : List Reply}
    {k : Except Err Value → Prog (List Value)}
    (hp : s.session.prog 0 = some (.call (.waitAck c) k))
    (hacks : (s.session.conns c).acks = r :: acks) :
    ∃ m, Tells mode s.marks (some m) (k (.ok r.value)) ∧
      (mode = .passthrough → ∀ k ∈ r.src, (k, m) ∈ s.counted) := by
  obtain ⟨w, htells, -⟩ := h.tells _ hp
  have hr : Numbers mode s.counted r :=
    (h.conns c).sent r (List.mem_append_left _ (by rw [hacks]; exact List.mem_cons_self))
  cases htells with
  | call ho _ => exact ho.elim
  | wait _ hok =>
    cases mode with
    | passthrough =>
      obtain ⟨m, hm, hsrc⟩ := hr
      exact ⟨m, hok r.value m hm, fun _ => hsrc⟩
    | shardedRewrite => exact ⟨0, hok r.value 0 hr, fun hmode => by cases hmode⟩

/-- The acknowledgement was taken with the number of channels there will be. -/
theorem Tally.Agrees.eq {n m : Nat} (h : s.Agrees mode n) (hw : s.Taken mode w)
    (hmode : mode = .passthrough) (hm : m ∈ w) : m = n := by
  obtain ⟨src, htaken, hcounted⟩ := hw hmode m hm
  obtain ⟨hne, hall⟩ := h hmode src htaken
  obtain ⟨k, rfl⟩ := Option.ne_none_iff_exists'.1 hne
  exact hall (k, m) (hcounted k rfl) rfl

theorem Tells.confirms {p : Prog (List Value)} (h : Tells mode s.marks none p) :
    s.Confirms mode p :=
  ⟨none, h, fun _ m hm => by cases hm⟩

/-- A channel is recorded or forgotten: the mark is the number that the program gets. -/
theorem Tally.Taken.marked {count : Nat} {joined keys : List Bytes}
    (hw : s.Taken mode w) (hagrees : s.Agrees mode keys.length) (hperm : joined.Perm keys)
    (hcount : count = keys.length)
    (h : ∀ n, (mode = .passthrough → ∀ m ∈ w, m = n) → Tells mode (s.marks ++ [n]) none (k n)) :
    Tells mode (s.marks ++ [joined.length]) none (k count) := by
  rw [hperm.length_eq, ← hcount]
  exact h count fun hmode m hm => hcount ▸ hagrees.eq hw hmode hm

theorem tells_next (h : s.Inv mode) (hcommand : ∀ argv, l = .command argv → Channels argv)
    (hC : Counting mode s l) (hnext : s.session.next cfg mode src l = some session) :
    ∀ p, session.prog 0 = some p → (s.after l session).Confirms mode p := by
  -- the client's goroutine stays where it is
  have hstay : session.prog 0 = s.session.prog 0 → (s.after l session).marks = s.marks →
      (s.after l session).taken = s.taken → ∀ p, session.prog 0 = some p →
      (s.after l session).Confirms mode p := by
    intro hprog hmarks htaken p hp
    obtain ⟨w, htells, hw⟩ := h.tells p (hprog ▸ hp)
    obtain ⟨more, hmore⟩ := s.counted_after l session
    refine ⟨w, hmarks ▸ htells, fun hmode m hm => ?_⟩
    obtain ⟨src, hsrc, hk⟩ := hw hmode m hm
    exact ⟨src, htaken ▸ hsrc, fun k hmem => hmore ▸ List.mem_append_left _ (hk k hmem)⟩
  -- a goroutine goes on with `p'`
  have hmove : ∀ {t : Tid} {p' : Prog (List Value)} {pending : Option (ConnId × Request)},
      session.threads = (s.session.resume t p' pending).threads →
      (t ≠ 0 → (s.after l session).marks = s.marks ∧ (s.after l session).taken = s.taken) →
      (t = 0 → (s.after l session).Confirms mode p') →
      ∀ p, session.prog 0 = some p → (s.after l session).Confirms mode p := by
    intro t p' pending hthreads hne heq
    have hprog : session.prog 0 = (s.session.resume t p' pending).prog 0 := by
      rw [State.prog, hthreads]
      rfl
    rw [State.prog_resume] at hprog
    rcases eq_or_ne t 0 with rfl | ht
    · intro p hp
      rw [if_pos rfl, hp] at hprog
      cases hprog
      exact heq rfl
    · rw [if_neg ht.symm] at hprog
      exact hstay hprog (hne ht).1 (hne ht).2
  -- with an answer that is not for the books
  have hplain : ∀ {t : Tid} {o : Op} {k : Res o → Prog (List Value)} {r : Res o}
      {pending : Option (ConnId × Request)}, s.session.prog t = some (.call o k) → Plain o →
      session.threads = (s.session.resume t (k r) pending).threads →
      (s.after l session).marks = s.marks → (s.after l session).taken = s.taken →
      ∀ p, session.prog 0 = some p → (s.after l session).Confirms mode p := by
    intro t o k r pending hp ho hthreads hmarks htaken
    refine hmove hthreads (fun _ => ⟨hmarks, htaken⟩) fun ht => ?_
    subst ht
    obtain ⟨w, htells, -⟩ := h.tells _ hp
    exact (hmarks ▸ htells.answer ho r : Tells mode (s.after l session).marks none _).confirms
  cases step_of_next hnext with
  | command hidle hne =>
    refine hmove rfl (fun ht => absurd rfl ht) fun _ => ?_
    exact Tells.confirms (handleClientCmd_tells (hcommand _ rfl))
  | @ret t vs hp =>
    intro p hp'
    have hprog : s.session.prog 0 = some p := by
      unfold State.prog at hp' ⊢
      dsimp only at hp'
      split at hp'
      · cases hp'
      · exact hp'
    exact h.tells p hprog
  | load hp | refused hp | got hp | written hp | unsent hp | keys hp | subsAddr hp | backend hp
  | addBackend hp => exact hplain hp trivial rfl rfl rfl
  | @timeout t e c k hp =>
    refine hmove rfl (fun _ => ⟨rfl, rfl⟩) fun ht => ?_
    subst ht
    obtain ⟨w, htells, -⟩ := h.tells _ hp
    exact Tells.confirms (htells.error e)
  | @ack t c r acks k hp hacks =>
    refine hmove rfl (fun ht => ?_) fun ht => ?_
    · simp [Tally.after, ht]
    · subst ht
      obtain ⟨m, htells, hsrc⟩ := h.taken hp hacks
      refine ⟨some m, htells, fun hmode m' hm' => ?_⟩
      cases hm'
      exact ⟨r.src, by simp [Tally.after, State.arriving, State.waiting, hp, hacks], hsrc hmode⟩
  | @subsAdd t ch addr k count hp =>
    refine hmove rfl (fun ht => ?_) fun ht => ?_
    · rw [Tally.after_subsAdd hp, if_neg ht]
      exact ⟨rfl, rfl⟩
    · subst ht
      obtain ⟨w, htells, hw⟩ := h.tells _ hp
      have hagrees := hC ch.bytes (by simp [State.recording, hp])
      rw [Tally.after_subsAdd hp, if_pos rfl]
      cases htells with
      | call ho _ => exact ho.elim
      | add hadd =>
        exact Tells.confirms (hw.marked hagrees (h.joined.insert ch.bytes)
          (count_of_subsAdd hp hnext h.count) hadd)
  | @subsDel t ch k count hp =>
    refine hmove rfl (fun ht => ?_) fun ht => ?_
    · rw [Tally.after_subsDel hp, if_neg ht]
      exact ⟨rfl, rfl⟩
    · subst ht
      obtain ⟨w, htells, hw⟩ := h.tells _ hp
      have hcond := hC ch.bytes (by simp [State.deleting, hp])
      rw [Tally.after_subsDel hp, if_pos rfl]
      cases htells with
      | call ho _ => exact ho.elim
      | del hdel =>
        exact Tells.confirms (hw.marked (hcond.2 rfl) (h.joined.erase ch.bytes)
          (count_of_subsDel hp hnext h.count hcond.1) hdel)
  | @resub c r ch hr hch =>
    exact hmove rfl (fun _ => ⟨rfl, rfl⟩) fun ht => absurd ht (Nat.ne_of_gt h.client)
  | read | pass | send | push | stop | serve | force | publish => exact hstay rfl rfl rfl

theorem Tally.session_after (s : Tally) (l : Label) (session : State) :
    (s.after l session).session = session := by
  unfold Tally.after
  split <;> try rfl
  all_goals split <;> try rfl
  all_goals split <;> rfl

theorem Tally.Inv.next (h : s.Inv mode) (hcommand : ∀ argv, l = .command argv → Channels argv)
    (hC : Counting mode s l) {s' : Tally} (hnext : s.next cfg mode src l = some s') :
    s'.Inv mode := by
  obtain ⟨session, hsession, rfl⟩ := Option.map_eq_some_iff.1 hnext
  have hstep := step_of_next hsession
  have hbooks := books_next h.count h.joined hC hsession
  have hspawned : s.session.spawned ≤ session.spawned := by
    cases hstep with
    | resub => exact Nat.le_succ _
    | _ => exact Nat.le_refl _
  constructor <;> simp only [Tally.session_after]
  · exact Nat.lt_of_lt_of_le h.client hspawned
  · exact hbooks.1
  · exact hbooks.2
  · exact speaks_next h.speaks hcommand hstep
  · exact numbered_next h.speaks h.conns hstep
  · exact tells_next h hcommand hC hsession

end

/-- The books are kept beside the run of the session. -/
theorem exec_tally (tr : List Label) :
    (Machine.exec (Tally.next cfg mode src) {} tr).map Tally.session =
      Machine.exec (State.next cfg mode src) {} tr := by
  refine Machine.exec_map (fun s l => ?_) _ tr
  rw [Tally.next, Option.map_map]
  exact (Option.map_congr fun session _ => s.session_after l session).trans Option.map_id'

/-- **Counts.** In a run with commands for channels that meets the condition, `count` is the
number of channels in `subs`, and the confirmations the client gets carry the number of
channels it was subscribed to, one by one. -/
theorem counted_of_counting {tr : List Label} {s : Tally}
    (hcommands : ∀ argv, .command argv ∈ tr → Channels argv)
    (hcounting : Machine.Meets (Tally.next cfg mode src) (Counting mode) {} tr)
    (hrun : Machine.exec (Tally.next cfg mode src) {} tr = some s) :
    s.session.count = s.session.subs.keys.length ∧
      ∀ vs, s.session.prog 0 = some (.ret vs) → Confirmed vs s.marks := by
  have hmeets : Machine.Meets (Tally.next cfg mode src)
      (fun s l => (∀ argv, l = .command argv → Channels argv) ∧ Counting mode s l) {} tr := by
    intro pre l post s htr hs
    refine ⟨?_, hcounting pre l post s htr hs⟩
    rintro argv rfl
    exact hcommands argv (by simp [htr])
  have hinv : s.Inv mode := Machine.invariant_of_meets (I := fun _ s => Tally.Inv mode s)
    (Tally.Inv.init mode) (fun _ _ _ _ _ hI hC hnext => hI.next hC.1 hC.2 hnext) hmeets hrun
  refine ⟨hinv.count, fun vs hvs => ?_⟩
  obtain ⟨w, htells, -⟩ := hinv.tells _ hvs
  cases htells with
  | ret h => exact h

theorem counted_of_counting_subscribe : ∃ s,
    Machine.exec (Tally.next seeded .passthrough .refresh) {} subscribeA.dropLast = some s ∧
      s.marks = [1] ∧ s.session.count = s.session.subs.keys.length ∧
      ∀ vs, s.session.prog 0 = some (.ret vs) → Confirmed vs s.marks := by
  have hmarks : (Machine.exec (Tally.next seeded .passthrough .refresh) {}
      subscribeA.dropLast).map Tally.marks = some [1] := by
    decide +kernel
  obtain ⟨s, hs, hmarks⟩ := Option.map_eq_some_iff.1 hmarks
  refine ⟨s, hs, hmarks, counted_of_counting ?_ (Machine.meets_of_checked (by decide +kernel)) hs⟩
  intro argv hmem
  simp only [subscribeA, List.dropLast, List.mem_cons, List.not_mem_nil, or_false, reduceCtorEq,
    Label.command.injEq] at hmem
  rw [hmem]
  decide

/-- The client leaves a channel it was never subscribed to. -/
def leaveB : List Label :=
  [.command [arg "UNSUBSCRIBE", arg "b"], .keys 0 [lit "a"], .subsAddr 0, .backend 0, .subsDel 0]

/-- `count` is 0 with a channel in `subs`. -/
theorem unknown_channel_uncounted : ¬ ∀ tr s, (∀ argv, .command argv ∈ tr → Channels argv) →
    Machine.exec (Tally.next seeded .passthrough .refresh) {} tr = some s →
      s.session.count = s.session.subs.keys.length ∧
      ∀ vs, s.session.prog 0 = some (.ret vs) → Confirmed vs s.marks := by
  intro h
  have hview : (Machine.exec (Tally.next seeded .passthrough .refresh) {}
      (subscribeA ++ leaveB)).map (fun s => (s.session.count, s.session.subs.keys)) =
        some (0, [lit "a"]) := by
    decide +kernel
  obtain ⟨s, hs, hview⟩ := Option.map_eq_some_iff.1 hview
  obtain ⟨hcount, hkeys⟩ := Prod.mk.inj hview
  have hfalse := (h _ s ?_ hs).1
  · rw [hcount, hkeys] at hfalse
    cases hfalse
  · intro argv hmem
    simp only [subscribeA, leaveB, List.cons_append, List.nil_append, List.mem_cons,
      List.not_mem_nil, or_false, false_or, reduceCtorEq, Label.command.injEq] at hmem
    rcases hmem with rfl | rfl <;> decide

end RespProxy.PubSub
