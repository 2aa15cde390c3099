import RespProxy.PubSub.Phase

/-! # Acknowledgements

`waitAck` takes whatever comes next from the channel of a connection. That is the
acknowledgement of the command its caller wrote as long as commands take turns on a
connection (`InTurn`): each is acknowledged once, nobody gives up waiting, and no
other acknowledgement reaches the channel. Then the channel, the reader and the wire
of a connection never hold more than the one command that is waited for.
-/

namespace RespProxy.PubSub

open Cluster Command Resp Proxy

variable {cfg : Config} {mode : Mode} {src : Origin} {s s' : State} {l : Label} {t : Tid}
variable {c : ConnId} {p : Prog (List Value)}
variable {k : Except Err Value → Prog (List Value)} {r : Reply} {acks : List Reply} {op : PubSubOp}
  {argv : Argv} {conn : Conn} {ph : Phase} {f : Frame} {v : Value}

/-! ## Taking turns -/

/-- What a goroutine is about to write. -/
def State.writing (s : State) (t : Tid) : Option (ConnId × Argv) :=
  match s.prog t with
  | some (.call (.write c [f]) _) => some (c, f.argv)
  | _ => none

/-- The connection a goroutine is in `waitAck` for. -/
def State.waiting (s : State) (t : Tid) : Option ConnId :=
  match s.prog t with
  | some (.call (.waitAck c) _) => some c
  | _ => none

theorem State.waiting_eq (h : s.waiting t = some c) :
    ∃ k, s.prog t = some (.call (.waitAck c) k) := by
  unfold State.waiting at h
  split at h
  · cases h
    exact ⟨_, ‹_›⟩
  · cases h

theorem State.writing_eq {k : Option Err → Prog (List Value)}
    (hp : s.prog t = some (.call (.write c [f]) k)) : s.writing t = some (c, f.argv) := by
  rw [State.writing, hp]

/-- A command with one channel or pattern that asks for it, or ends a pattern. -/
def Single (argv : Argv) : Prop :=
  argv.length = 2 ∧ ((opens (classifyPubSub (nameOf argv))).isSome = true ∨
    closes (classifyPubSub (nameOf argv)) = some .pattern)

instance (argv : Argv) : Decidable (Single argv) := inferInstanceAs (Decidable (_ ∧ _))

/-- Commands take turns. -/
def InTurn (s : State) : Label → Prop
  -- a write that fails delivers nothing; the command is acknowledged once, by something
  -- other than an unsubscription; nobody else waits for the connection
  | .write t err sent => (err ≠ none → sent = false) ∧ ∀ w ∈ s.writing t, Single w.2 ∧
      ∀ u < s.spawned, ∀ q ∈ s.pending u, q.1 ≠ w.1
  -- nobody gives up
  | .timeout _ _ => False
  -- an unsubscription that arrives is a forced one of a channel that is recorded
  | .check c => ∀ r ∈ (s.conns c).reader.checked, (s.tracked r.value).isSome = true
  -- a backend does not end a subscription that is waited for
  | .force c x => ∀ u < s.spawned, ∀ q ∈ s.pending u, ¬ (q.1 = c ∧ x ∈ begins q.2.argv)
  | _ => True

instance (s : State) : (l : Label) → Decidable (InTurn s l)
  | .write t err sent => inferInstanceAs (Decidable ((err ≠ none → sent = false) ∧
      ∀ w ∈ s.writing t, Single w.2 ∧ ∀ u < s.spawned, ∀ q ∈ s.pending u, q.1 ≠ w.1))
  | .timeout _ _ => inferInstanceAs (Decidable False)
  | .check c => inferInstanceAs (Decidable
      (∀ r ∈ (s.conns c).reader.checked, (s.tracked r.value).isSome = true))
  | .force c x => inferInstanceAs (Decidable
      (∀ u < s.spawned, ∀ q ∈ s.pending u, ¬ (q.1 = c ∧ x ∈ begins q.2.argv)))
  | .command _ | .ret _ | .load _ _ | .get _ _ | .ack _ | .keys _ _ | .subsAddr _ | .backend _
  | .addBackend _ | .subsAdd _ | .subsDel _ | .read _ | .send _ | .push _ | .stop _ | .serve _
  | .publish _ _ => inferInstanceAs (Decidable True)

/-- Where `waitAck` takes an acknowledgement, it is that of the command its caller has just
written, and the backend has the subscription. -/
def Matched (s : State) (l : Label) : Prop :=
  ∀ t c, l = .ack t → s.waiting t = some c → ∀ r ∈ (s.conns c).acks.head?,
    ∃ q, s.pending t = some (c, q) ∧ r.src = some q.ticket ∧
      ∀ x ∈ begins q.argv, x ∈ (s.conns c).subscribed

/-! ## What backends send -/

theorem isAck_ackValue (h : op ∈ [.subscribe, .ssubscribe, .psubscribe, .punsubscribe])
    (ch : Slice) (n : Nat) : isAck (ackValue (verbOf op) ch n) = true := by
  simp only [List.mem_cons, List.not_mem_nil, or_false] at h
  rcases h with rfl | rfl | rfl | rfl <;> rfl

theorem dispatch_ackValue (mode : Mode)
    (h : op ∈ [.subscribe, .ssubscribe, .psubscribe, .punsubscribe]) (ch : Slice) (n : Nat)
    (src : Option Nat) :
    ∃ w, dispatch mode ⟨ackValue (verbOf op) ch n, src⟩ = .sending ⟨w, src⟩ := by
  simp only [List.mem_cons, List.not_mem_nil, or_false] at h
  rcases h with rfl | rfl | rfl | rfl <;> cases mode <;> exact ⟨_, rfl⟩

theorem dispatch_forcedAck (mode : Mode) (x : Subscription) (n : Nat) :
    ∃ w, dispatch mode ⟨forcedAck x n, none⟩ = .checking ⟨w, none⟩ := by
  unfold forcedAck
  split <;> cases mode <;> exact ⟨_, rfl⟩

theorem dispatch_publish (mode : Mode) (hv : isAck v = false) (src : Option Nat) :
    ∃ w, dispatch mode ⟨v, src⟩ = .pushing w := by
  unfold dispatch incoming
  dsimp only
  rw [hv]
  exact ⟨_, rfl⟩

/-- A single command gets one acknowledgement, and the backend has what it asks for. -/
theorem serve_single (h : Single argv) (S : List Subscription) :
    (∃ op ∈ [PubSubOp.subscribe, .ssubscribe, .psubscribe, .punsubscribe], ∃ ch n,
      (serve S argv).2 = [ackValue (verbOf op) ch n]) ∧
    ∀ x ∈ begins argv, x ∈ (serve S argv).1 := by
  obtain ⟨hlen, hop⟩ := h
  obtain ⟨name, ch, rfl⟩ := List.length_eq_two.1 hlen
  unfold serve begins
  cases hk : classifyPubSub (nameOf [name, ch]) <;> rw [hk] at hop <;>
    simp [opens, closes] at hop
  case subscribe =>
    exact ⟨⟨.subscribe, by simp, ch, _, rfl⟩, by simp [named, opens, acknowledge]⟩
  case ssubscribe =>
    exact ⟨⟨.ssubscribe, by simp, ch, _, rfl⟩, by simp [named, opens, acknowledge]⟩
  case psubscribe =>
    exact ⟨⟨.psubscribe, by simp, ch, _, rfl⟩, by simp [named, opens, acknowledge]⟩
  case punsubscribe =>
    exact ⟨⟨.punsubscribe, by simp, ch, _, rfl⟩, by simp [named, opens]⟩

/-! ## The invariant -/

/-- The requests whose acknowledgements a reader holds. -/
def Reader.tickets : Reader → List Nat
  | .checking r | .sending r => r.src.toList
  | _ => []

/-- The requests that are on their way: unread in the channel, read, sent, or written. -/
def Conn.tickets (c : Conn) : List Nat :=
  c.acks.filterMap Reply.src ++
    (c.reader.tickets ++ (c.replies.filterMap Reply.src ++ c.wire.map Request.ticket))

/-- Acknowledgements go to the channel if and only if somebody asked for them. -/
def Reader.Proper : Reader → Prop
  | .checking r => r.src = none
  | .sending r => r.src ≠ none
  | _ => True

structure Conn.Clean (mode : Mode) (c : Conn) : Prop where
  wire : ∀ q ∈ c.wire, Single q.argv
  replies : ∀ r ∈ c.replies, (dispatch mode r).Proper ∧ (dispatch mode r).tickets = r.src.toList
  reader : c.reader.Proper
  acks : ∀ r ∈ c.acks, r.src ≠ none

/-- The last request is on the wire or was served. -/
def Conn.Served (c : Conn) (q : Request) : Prop :=
  c.wire = [q] ∨ c.wire = [] ∧ ∀ x ∈ begins q.argv, x ∈ c.subscribed

/-- Nothing but `q` is on its way. -/
structure Conn.Awaits (c : Conn) (q : Request) : Prop where
  tickets : c.tickets.Sublist [q.ticket]
  served : c.Served q

/-- At most one goroutine waits for a connection, for the one command on its way. -/
def Turn (s : State) (c : ConnId) : Prop :=
  (∃ t q, s.pending t = some (c, q) ∧ (∀ u p, s.pending u = some (c, p) → u = t) ∧
    (s.conns c).Awaits q) ∨
  (∀ u p, s.pending u ≠ some (c, p)) ∧ (s.conns c).tickets = []

/-- A goroutine has a request pending while it waits for it. -/
def Phase.Waits : Phase → Option (ConnId × Request) → Prop
  | .wrote _ c _, w | .patterned c, w => ∃ q, w = some (c, q)
  | .unwrote _ _, _ => False
  | _, w => w = none

structure TurnInv (mode : Mode) (s : State) : Prop where
  client : 0 < s.spawned
  fresh : ∀ t, s.spawned ≤ t → s.threads t = none
  follows : ∀ t p, s.prog t = some p →
    ∃ ph, Follows (fun _ => True) (fun _ => True) ph p ∧ ph.Waits (s.pending t)
  clean : ∀ c, (s.conns c).Clean mode
  turn : ∀ c, Turn s c

theorem TurnInv.init (mode : Mode) : TurnInv mode {} where
  client := by decide
  fresh _ _ := rfl
  follows _ _ h := by cases h
  clean _ := ⟨by simp, by simp, trivial, by simp⟩
  turn _ := .inr ⟨fun _ _ h => (by cases h), rfl⟩

theorem Turn.congr {c : ConnId} (h : Turn s c)
    (hpending : ∀ u q, s'.pending u = some (c, q) ↔ s.pending u = some (c, q))
    (hconn : s'.conns c = s.conns c) : Turn s' c := by
  rcases h with ⟨t, q, hq, hone, h⟩ | ⟨hnone, h⟩
  · exact .inl ⟨t, q, (hpending t q).2 hq, fun u p hu => hone u p ((hpending u p).1 hu), hconn ▸ h⟩
  · exact .inr ⟨fun u p hu => hnone u p ((hpending u p).1 hu), hconn ▸ h⟩

/-- The invariant speaks of connections and goroutines only. -/
theorem TurnInv.congr (h : TurnInv mode s) (hc : s'.conns = s.conns)
    (ht : s'.threads = s.threads) (hn : s'.spawned = s.spawned) : TurnInv mode s' := by
  have hprog : s'.prog = s.prog := by
    funext t
    rw [State.prog, State.prog, ht]
  have hpending : s'.pending = s.pending := by
    funext t
    rw [State.pending, State.pending, ht]
  refine ⟨hn ▸ h.client, fun t hle => ?_, fun t p hp => ?_, fun c => ?_, fun c => ?_⟩
  · rw [ht]
    exact h.fresh t (hn ▸ hle)
  · rw [hpending]
    exact h.follows t p (hprog ▸ hp)
  · rw [hc]
    exact h.clean c
  · exact (h.turn c).congr (fun u q => by rw [hpending]) (by rw [hc])

/-- A goroutine goes on, and no connection but `c` can tell. -/
theorem TurnInv.exchange (h : TurnInv mode s) (ht : t < s.spawned) {w : Option (ConnId × Request)}
    (hf : Follows (fun _ => True) (fun _ => True) ph p) (hph : ph.Waits w)
    (hold : ∀ d q, s.pending t = some (d, q) → d = c) (hnew : ∀ d q, w = some (d, q) → d = c)
    (hclean : conn.Clean mode) (hturn : Turn ((s.resume t p w).setConn c conn) c) :
    TurnInv mode ((s.resume t p w).setConn c conn) := by
  refine ⟨h.client, fun u hu => ?_, fun u p' hp => ?_, fun d => ?_, fun d => ?_⟩
  · have hne : u ≠ t := by
      rintro rfl
      exact absurd ht (Nat.not_lt.2 hu)
    exact (if_neg hne).trans (h.fresh u hu)
  · show ∃ ph : Phase, _ ∧ ph.Waits ((s.resume t p w).pending u)
    have hp' := State.prog_resume.symm.trans hp
    rw [State.pending_resume]
    split at hp'
    · cases hp'
      rw [if_pos ‹u = t›]
      exact ⟨ph, hf, hph⟩
    · rw [if_neg ‹_›]
      exact h.follows u p' hp'
  · rw [State.conns_setConn]
    split
    · exact hclean
    · exact h.clean d
  · by_cases hd : d = c
    · rwa [hd]
    · refine (h.turn d).congr (fun u q => ?_) (if_neg hd)
      show (s.resume t p w).pending u = some (d, q) ↔ _
      rw [State.pending_resume]
      split
      · rw [‹u = t›]
        exact iff_of_false (fun hw => hd (hnew d q hw)) fun hw => hd (hold d q hw)
      · exact Iff.rfl

/-- A goroutine that waits for nothing goes on. -/
theorem TurnInv.move (h : TurnInv mode s) (ht : t < s.spawned) (hw : s.pending t = none)
    (hf : Follows (fun _ => True) (fun _ => True) ph p) (hph : ph.Waits none) :
    TurnInv mode (s.resume t p none) := by
  have hpending : ∀ u q, (s.resume t p none).pending u = some q ↔ s.pending u = some q := by
    intro u q
    rw [State.pending_resume]
    split
    · rw [‹u = t›, hw]
    · exact Iff.rfl
  have hinv : TurnInv mode ((s.resume t p none).setConn 0 (s.conns 0)) :=
    h.exchange ht hf hph (by simp [hw]) (by simp) (h.clean 0)
      ((h.turn 0).congr (fun u q => hpending u (0, q)) rfl)
  refine hinv.congr ?_ rfl rfl
  funext d
  rw [State.conns_setConn]
  split
  · rw [‹d = 0›]
    rfl
  · rfl

/-- A connection changes, and holds no more than before. -/
theorem TurnInv.setConn (h : TurnInv mode s) (hclean : conn.Clean mode)
    (htickets : conn.tickets.Sublist (s.conns c).tickets)
    (hserved : ∀ t q, s.pending t = some (c, q) → (s.conns c).Served q → conn.Served q) :
    TurnInv mode (s.setConn c conn) := by
  refine ⟨h.client, h.fresh, h.follows, fun d => ?_, fun d => ?_⟩
  · rw [State.conns_setConn]
    split
    · exact hclean
    · exact h.clean d
  · unfold Turn
    rw [State.conns_setConn]
    split
    · subst d
      rcases h.turn c with ⟨t, q, hq, hone, hconn⟩ | ⟨hnone, hconn⟩
      · exact .inl ⟨t, q, hq, hone, htickets.trans hconn.tickets, hserved t q hq hconn.served⟩
      · exact .inr ⟨hnone, List.sublist_nil.1 (hconn ▸ htickets)⟩
    · exact h.turn d

/-- A goroutine is started. -/
theorem TurnInv.spawn (h : TurnInv mode s) (hf : Follows (fun _ => True) (fun _ => True) .free p) :
    TurnInv mode { s.resume s.spawned p none with spawned := s.spawned + 1 } := by
  have hmore : TurnInv mode { s with spawned := s.spawned + 1 } :=
    ⟨Nat.succ_pos _, fun t ht => h.fresh t (Nat.le_of_succ_le ht), h.follows, h.clean, h.turn⟩
  exact hmore.move (Nat.lt_succ_self _) (State.pending_eq_none (h.fresh _ (Nat.le_refl _))) hf rfl

/-- A goroutine that waits for nothing ends. -/
theorem TurnInv.ended (h : TurnInv mode s) (hw : s.pending t = none) :
    TurnInv mode { s with threads := fun u => if u = t then none else s.threads u } := by
  have hpending : ∀ u, State.pending { s with threads := fun u => if u = t then none else s.threads u } u =
      s.pending u := by
    intro u
    by_cases hu : u = t
    · rw [hu, hw]
      exact State.pending_eq_none (if_pos rfl)
    · simp [State.pending, hu]
  refine ⟨h.client, fun u hu => ?_, fun u p hp => ?_, h.clean, fun c => ?_⟩
  · show (if u = t then none else s.threads u) = none
    rw [h.fresh u hu, ite_self]
  · rw [hpending]
    by_cases hu : u = t
    · rw [State.prog_eq_none (if_pos hu)] at hp
      cases hp
    · refine h.follows u p ?_
      simpa [State.prog, hu] using hp
  · exact (h.turn c).congr (fun u q => by rw [hpending]) rfl

theorem TurnInv.lt (h : TurnInv mode s) (hp : s.prog t = some p) :
    t < s.spawned := by
  by_contra hle
  rw [State.prog_eq_none (h.fresh t (Nat.not_lt.1 hle))] at hp
  cases hp

/-! ## The steps -/

/-- The acknowledgement that `waitAck` takes is the one its caller waits for. -/
theorem TurnInv.takes (h : TurnInv mode s) (hp : s.prog t = some (.call (.waitAck c) k))
    (hacks : (s.conns c).acks = r :: acks) :
    ∃ q, s.pending t = some (c, q) ∧ (∀ u p, s.pending u = some (c, p) → u = t) ∧
      r.src = some q.ticket ∧ { s.conns c with acks }.tickets = [] ∧
      ∀ x ∈ begins q.argv, x ∈ (s.conns c).subscribed := by
  have hq : ∃ q, s.pending t = some (c, q) := by
    obtain ⟨ph, hf, hw⟩ := h.follows t _ hp
    cases hf with
    | subscribed | patterned => exact hw
    | unsubscribed => exact hw.elim
  obtain ⟨q, hq⟩ := hq
  obtain ⟨t', q', hq', hone, hconn⟩ | ⟨hnone, -⟩ := h.turn c
  · cases hone t q hq
    cases Option.some.inj (hq.symm.trans hq')
    obtain ⟨j, hj⟩ := Option.ne_none_iff_exists'.1 ((h.clean c).acks r (by rw [hacks]; simp))
    have hsplit : (s.conns c).tickets = j :: { s.conns c with acks }.tickets := by
      simp [Conn.tickets, hacks, hj]
    have hsub := hconn.tickets
    rw [hsplit, List.cons_sublist_cons'] at hsub
    rcases hsub with hsub | ⟨hjq, hrest⟩
    · exact absurd (List.Sublist.length_le hsub) (by simp)
    · have hnil := List.sublist_nil.1 hrest
      refine ⟨q, hq, hone, by rw [hj, hjq], hnil, ?_⟩
      have hwire : (s.conns c).wire = [] := by
        simp only [Conn.tickets, List.append_eq_nil_iff, List.map_eq_nil_iff] at hnil
        exact hnil.2.2.2
      rcases hconn.served with hw | ⟨-, hx⟩
      · rw [hwire] at hw
        cases hw
      · exact hx
  · exact absurd hq (hnone t q)

theorem Conn.wire_of_tickets {c : Conn} (h : c.tickets = []) : c.wire = [] := by
  simp only [Conn.tickets, List.append_eq_nil_iff, List.map_eq_nil_iff] at h
  exact h.2.2.2

/-- A single command does not end the subscription to a channel. -/
theorem Single.leaves_pattern (h : Single argv) {x : Subscription}
    (hx : leaves argv = [x]) : x.1 = .pattern := by
  have hmem : x ∈ leaves argv := hx ▸ List.mem_singleton_self x
  have hfam := named_family hmem
  rcases h.2 with hopen | hclose
  · cases hop : classifyPubSub (nameOf argv) <;> rw [hop] at hopen hfam <;> cases hopen <;> cases hfam
  · exact Option.some.inj (hfam.symm.trans hclose)

theorem TurnInv.written (h : TurnInv mode s) {c : ConnId} {err : Option Err}
    {sent : Bool} {k : Option Err → Prog (List Value)} (hC : InTurn s (.write t err sent))
    (hp : s.prog t = some (.call (.write c [f]) k)) (hsent : err = none ∨ sent = true) :
    TurnInv mode ((s.resume t (k err) (some (c, ⟨f.argv, s.tickets⟩))).setConn c
      { s.conns c with wire := (s.conns c).wire ++ [⟨f.argv, s.tickets⟩] }) := by
  have hwriting := State.writing_eq hp
  obtain ⟨hfail, hC⟩ := hC
  have hsingle : Single f.argv := (hC _ hwriting).1
  have herr : err = none := by
    by_contra hne
    rw [hfail hne] at hsent
    exact hsent.elim hne (by simp)
  subst herr
  -- nobody else waits at this connection, so nothing of it is under way
  have hnobody : ∀ u p, s.pending u ≠ some (c, p) := by
    intro u p hu
    by_cases hlt : u < s.spawned
    · exact (hC _ hwriting).2 u hlt _ hu rfl
    · rw [State.pending_eq_none (h.fresh u (Nat.not_lt.1 hlt))] at hu
      cases hu
  have hempty : (s.conns c).tickets = [] := by
    rcases h.turn c with ⟨u, p, hu, -⟩ | ⟨-, hnil⟩
    · exact absurd hu (hnobody u p)
    · exact hnil
  have hwire := Conn.wire_of_tickets hempty
  obtain ⟨ph, hf, hph, hold⟩ : ∃ ph, Follows (fun _ => True) (fun _ => True) ph (k none) ∧
      ph.Waits (some (c, ⟨f.argv, s.tickets⟩)) ∧ s.pending t = none := by
    obtain ⟨ph, hf, hw⟩ := h.follows t _ hp
    cases hf with
    | subscribe _ _ _ _ _ hok => exact ⟨_, hok, ⟨_, rfl⟩, hw⟩
    | pattern _ _ hok => exact ⟨_, hok, ⟨_, rfl⟩, hw⟩
    | unsubscribe hleaves _ hu => exact absurd (hsingle.leaves_pattern hleaves) hu
  refine h.exchange (h.lt hp) hf hph (by simp [hold]) (fun d q hq => ?_) ?_ (.inl ?_)
  · cases hq
    rfl
  · obtain ⟨-, hreplies, hreader, hacks⟩ := h.clean c
    refine ⟨?_, hreplies, hreader, hacks⟩
    intro q hq
    rw [hwire] at hq
    cases List.mem_singleton.1 hq
    exact hsingle
  · refine ⟨t, ⟨f.argv, s.tickets⟩, State.pending_resume.trans (if_pos rfl), ?_, ?_⟩
    · intro u p hu
      by_contra hne
      exact hnobody u p ((State.pending_resume.trans (if_neg hne)).symm.trans hu)
    · rw [State.conns_setConn, if_pos rfl]
      refine ⟨?_, .inl (by rw [hwire]; rfl)⟩
      simp only [Conn.tickets, List.append_eq_nil_iff] at hempty ⊢
      obtain ⟨h₁, h₂, h₃, -⟩ := hempty
      simp [h₁, h₂, h₃, hwire]

theorem TurnInv.acked (h : TurnInv mode s) (hp : s.prog t = some (.call (.waitAck c) k))
    (hacks : (s.conns c).acks = r :: acks) :
    TurnInv mode ((s.resume t (k (.ok r.value)) none).setConn c { s.conns c with acks }) := by
  obtain ⟨q, hq, hone, -, hnil, -⟩ := h.takes hp hacks
  obtain ⟨ph, hf, hph⟩ : ∃ ph, Follows (fun _ => True) (fun _ => True) ph (k (.ok r.value)) ∧
      ph.Waits none := by
    obtain ⟨ph, hf, hw⟩ := h.follows t _ hp
    cases hf with
    | subscribed _ hok => exact ⟨_, hok _, rfl⟩
    | patterned hok => exact ⟨_, hok _, rfl⟩
    | unsubscribed => exact hw.elim
  refine h.exchange (h.lt hp) hf hph (fun d p hd => ?_) (by simp) ?_ (.inr ⟨?_, ?_⟩)
  · rw [hq] at hd
    cases hd
    rfl
  · obtain ⟨hwire, hreplies, hreader, hclean⟩ := h.clean c
    exact ⟨hwire, hreplies, hreader, fun r' hr' => hclean r' (by simp [hacks, hr'])⟩
  · intro u p hu
    have hu' := State.pending_resume.symm.trans hu
    split at hu'
    · cases hu'
    · exact absurd (hone u p hu') ‹_›
  · rw [State.conns_setConn, if_pos rfl]
    exact hnil

/-- The reader of a connection goes on, and its acknowledgement is not needed. -/
theorem Conn.tickets_reader (c : Conn) {reader : Reader} (h : reader.tickets = []) :
    { c with reader }.tickets.Sublist c.tickets := by
  simp [Conn.tickets, h]

theorem TurnInv.setReader (h : TurnInv mode s) (reader : Reader)
    (hproper : reader.Proper) (htickets : reader.tickets = []) :
    TurnInv mode (s.setConn c { s.conns c with reader }) := by
  obtain ⟨hwire, hreplies, -, hacks⟩ := h.clean c
  exact h.setConn ⟨hwire, hreplies, hproper, hacks⟩ (Conn.tickets_reader _ htickets)
    fun _ _ _ hs => hs

theorem TurnInv.read (h : TurnInv mode s) {c : ConnId} {replies : List Reply}
    (hr : (s.conns c).reader = .reading) (hreplies : (s.conns c).replies = r :: replies) :
    TurnInv mode (s.setConn c { s.conns c with replies, reader := dispatch mode r }) := by
  obtain ⟨hwire, hclean, -, hacks⟩ := h.clean c
  rw [hreplies] at hclean
  obtain ⟨hproper, htickets⟩ := hclean r List.mem_cons_self
  refine h.setConn ⟨hwire, fun r' hr' => hclean r' (List.mem_cons_of_mem r hr'), hproper, hacks⟩
    ?_ fun _ _ _ hs => hs
  have hsame : (r :: replies).filterMap Reply.src = r.src.toList ++ replies.filterMap Reply.src := by
    cases hsrc : r.src <;> simp [hsrc]
  have hreading : Reader.reading.tickets = [] := rfl
  simp [Conn.tickets, htickets, hr, hreplies, hsame, hreading]

theorem TurnInv.send (h : TurnInv mode s) {c : ConnId} (hr : (s.conns c).reader = .sending r) :
    TurnInv mode (s.setConn c
      { s.conns c with acks := (s.conns c).acks ++ [r], reader := .reading }) := by
  obtain ⟨hwire, hreplies, hproper, hacks⟩ := h.clean c
  rw [hr] at hproper
  refine h.setConn ⟨hwire, hreplies, trivial, ?_⟩ ?_ fun _ _ _ hs => hs
  · intro r' hr'
    rcases List.mem_append.1 hr' with hr' | hr'
    · exact hacks r' hr'
    · rw [List.mem_singleton.1 hr']
      exact hproper
  · obtain ⟨j, hj⟩ := Option.ne_none_iff_exists'.1 hproper
    simp [Conn.tickets, hr, hj, Reader.tickets]

theorem TurnInv.reply (h : TurnInv mode s)
    (hv : (dispatch mode ⟨v, none⟩).Proper ∧ (dispatch mode ⟨v, none⟩).tickets = [])
    {subscribed : List Subscription}
    (hserved : ∀ t q, s.pending t = some (c, q) →
      ∀ x ∈ begins q.argv, x ∈ (s.conns c).subscribed → x ∈ subscribed) :
    TurnInv mode (s.setConn c { s.conns c with
      subscribed, replies := (s.conns c).replies ++ [⟨v, none⟩] }) := by
  obtain ⟨hwire, hreplies, hreader, hacks⟩ := h.clean c
  refine h.setConn ⟨hwire, ?_, hreader, hacks⟩ (by simp [Conn.tickets]) ?_
  · intro r hr
    rcases List.mem_append.1 hr with hr | hr
    · exact hreplies r hr
    · rw [List.mem_singleton.1 hr]
      exact hv
  · rintro t q hq (hw | ⟨hw, hx⟩)
    · exact .inl hw
    · exact .inr ⟨hw, fun x hx' => hserved t q hq x hx' (hx x hx')⟩

theorem TurnInv.serve (h : TurnInv mode s) {c : ConnId} {q : Request} {wire : List Request}
    (hw : (s.conns c).wire = q :: wire) :
    TurnInv mode (s.setConn c { s.conns c with
      wire
      subscribed := (serve (s.conns c).subscribed q.argv).1
      replies := (s.conns c).replies ++ (serve (s.conns c).subscribed q.argv).2.map fun v =>
        { value := v, src := if isAck v then some q.ticket else none } }) := by
  obtain ⟨hwire, hreplies, hreader, hacks⟩ := h.clean c
  rw [hw] at hwire
  obtain ⟨⟨op, hop, ch, n, hv⟩, hx⟩ := serve_single (hwire q List.mem_cons_self)
    (s.conns c).subscribed
  obtain ⟨w, hdispatch⟩ := dispatch_ackValue mode hop ch n (some q.ticket)
  rw [hv, List.map_singleton, if_pos (isAck_ackValue hop ch n)]
  refine h.setConn ⟨fun q' hq' => hwire q' (List.mem_cons_of_mem q hq'), ?_, hreader, hacks⟩
    (by simp [Conn.tickets, hw]) ?_
  · intro r hr
    rcases List.mem_append.1 hr with hr | hr
    · exact hreplies r hr
    · rw [List.mem_singleton.1 hr, hdispatch]
      exact ⟨by simp [Reader.Proper], rfl⟩
  · rintro t q' - (hq' | ⟨hq', -⟩)
    · rw [hw] at hq'
      cases hq'
      exact .inr ⟨rfl, hx⟩
    · rw [hw] at hq'
      cases hq'

/-- **Every step in turn keeps the invariant.** -/
theorem TurnInv.next (h : TurnInv mode s) (hC : InTurn s l) (hstep : Step cfg mode src s l s') :
    TurnInv mode s' := by
  -- steps at points at which a goroutine waits for nothing
  have hmove : ∀ {t p p'}, s.prog t = some p →
      (∀ ph, Follows (fun _ => True) (fun _ => True) ph p → ph.Waits (s.pending t) →
        s.pending t = none ∧ ∃ ph', Follows (fun _ => True) (fun _ => True) ph' p' ∧
          ph'.Waits none) → TurnInv mode (s.resume t p' none) := by
    intro t p p' hp hgo
    obtain ⟨ph, hf, hw⟩ := h.follows t p hp
    obtain ⟨hnone, ph', hf', hw'⟩ := hgo ph hf hw
    exact h.move (h.lt hp) hnone hf' hw'
  cases hstep with
  | @command argv hidle =>
    have hf : Follows (fun _ => True) (fun _ => True) .free (handleClientCmd cfg mode src argv) :=
      handleClientCmd_follows argv (fun _ _ => trivial) fun _ _ => trivial
    exact (h.move h.client (State.pending_eq_none hidle) hf rfl).congr rfl rfl rfl
  | ret hp =>
    obtain ⟨ph, hf, hw⟩ := h.follows _ _ hp
    cases hf
    exact (h.ended hw).congr rfl rfl rfl
  | load hp | keys hp | subsAddr hp =>
    refine hmove hp fun ph hf hw => ?_
    cases hf
    rename_i hk
    exact ⟨hw, _, hk _, rfl⟩
  | refused hp =>
    refine hmove hp fun ph hf hw => ?_
    cases hf with
    | get herr _ => exact ⟨hw, _, herr _, rfl⟩
  | got hp _ =>
    refine (hmove hp fun ph hf hw => ?_).congr rfl rfl rfl
    cases hf with
    | get _ hok => exact ⟨hw, _, hok _, rfl⟩
  | written hp hsent => exact (h.written hC hp hsent).congr rfl rfl rfl
  | @unsent t err sent c f k hp hsent =>
    have hsingle : Single f.argv := (hC.2 (c, f.argv) (State.writing_eq hp)).1
    obtain ⟨e, rfl⟩ : ∃ e, err = some e := Option.ne_none_iff_exists'.1 fun he => hsent (.inl he)
    refine hmove hp fun ph hf hw => ?_
    cases hf with
    | subscribe _ _ _ _ herr _ => exact ⟨hw, _, herr _, rfl⟩
    | pattern _ herr _ => exact ⟨hw, _, herr _, rfl⟩
    | unsubscribe hleaves _ hu => exact absurd (hsingle.leaves_pattern hleaves) hu
  | ack hp hacks => exact h.acked hp hacks
  | timeout => exact hC.elim
  | @backend t addr k hp =>
    refine hmove hp fun ph hf hw => ?_
    cases hf with
    | lookup hnone hsome | aim _ hnone hsome =>
      refine ⟨hw, ?_⟩
      cases s.backends.lookup addr with
      | none => exact ⟨_, hnone, rfl⟩
      | some c => exact ⟨_, hsome c, rfl⟩
  | addBackend hp =>
    have hinv := hmove hp fun ph hf hw => by
      cases hf with
      | enter hk => exact ⟨hw, _, hk, rfl⟩
    exact (hinv.setReader .reading trivial rfl).congr rfl rfl rfl
  | subsAdd hp | subsDel hp =>
    refine (hmove hp fun ph hf hw => ?_).congr rfl rfl rfl
    cases hf
    rename_i hk
    exact ⟨hw, _, hk _, rfl⟩
  | read hr hreplies => exact h.read hr hreplies
  | resub hr hch =>
    exact (h.setReader .reading trivial rfl).spawn
      (subscribe_follows _ true fun _ _ => trivial)
  | pass hr hch =>
    have htracked := hC _ (by rw [hr]; rfl)
    rw [hch] at htracked
    cases htracked
  | send hr _ => exact h.send hr
  | push => exact h.setReader .reading trivial rfl
  | stop => exact h.setReader .stopped trivial rfl
  | serve hw => exact h.serve hw
  | @force c x n hx hk =>
    obtain ⟨w, hdispatch⟩ := dispatch_forcedAck mode x n
    refine h.reply (by rw [hdispatch]; exact ⟨rfl, rfl⟩) fun t q hq y hy hmem => ?_
    have hlt : t < s.spawned := by
      by_contra hle
      rw [State.pending_eq_none (h.fresh t (Nat.not_lt.1 hle))] at hq
      cases hq
    refine List.mem_filter.2 ⟨hmem, ?_⟩
    have hne : y ≠ x := fun hyx => hC t hlt (c, q) hq ⟨rfl, hyx ▸ hy⟩
    simpa using hne
  | @publish c v hv =>
    obtain ⟨w, hdispatch⟩ := dispatch_publish mode hv none
    exact h.reply (by rw [hdispatch]; exact ⟨trivial, rfl⟩) fun _ _ _ _ _ hmem => hmem

/-- **Acknowledgements.** In a run in which commands take turns, every acknowledgement that
`waitAck` takes is that of the command its caller has just written. -/
theorem matched_of_inTurn {tr : List Label}
    (h : Machine.Meets (State.next cfg mode src) InTurn {} tr) :
    Machine.Meets (State.next cfg mode src) Matched {} tr := by
  intro pre l post s htr hrun
  have hinv : TurnInv mode s := by
    rw [htr] at h
    exact Machine.invariant_of_meets (I := fun _ s => TurnInv mode s) (TurnInv.init mode)
      (fun _ _ _ _ _ hI hC hnext => hI.next hC (step_of_next hnext)) h.init hrun
  rintro t c rfl hw r hr
  obtain ⟨k, hp⟩ := State.waiting_eq hw
  obtain ⟨acks, hacks⟩ := List.head?_eq_some_iff.1 hr
  obtain ⟨q, hq, -, hsrc, -, hx⟩ := hinv.takes hp hacks
  exact ⟨q, hq, hsrc, hx⟩

/-- A new connection is subscribed to the channel `a`. -/
def subscribeA : List Label :=
  [.command [arg "SUBSCRIBE", arg "a"], .load 0 none, .load 0 none, .backend 0, .get 0 (.ok 7),
    .addBackend 0, .write 0 none true, .serve 7, .read 7, .send 7, .ack 0, .subsAdd 0, .ret 0]

theorem matched_of_inTurn_subscribe :
    (Machine.exec (State.next seeded .passthrough .refresh) {} subscribeA).isSome = true ∧
      Machine.Meets (State.next seeded .passthrough .refresh) Matched {} subscribeA :=
  ⟨by decide +kernel, matched_of_inTurn (Machine.meets_of_checked (by decide +kernel))⟩

/-- `PSUBSCRIBE` with two patterns, and `SUBSCRIBE` behind it. -/
def patternsFirst : List Label :=
  [.command [arg "PSUBSCRIBE", arg "p", arg "q"], .load 0 none, .backend 0, .get 0 (.ok 7),
    .addBackend 0, .write 0 none true, .serve 7, .read 7, .send 7, .ack 0, .ret 0,
    .command [arg "SUBSCRIBE", arg "a"], .load 0 none, .load 0 none, .backend 0,
    .write 0 none true, .read 7, .send 7]

/-- `SUBSCRIBE` takes the acknowledgement of the second pattern. -/
theorem second_pattern_acks_subscribe :
    ¬ ∀ tr, (Machine.exec (State.next seeded .passthrough .refresh) {} tr).isSome = true →
      Machine.Meets (State.next seeded .passthrough .refresh) Matched {} tr := by
  intro h
  have hview : (Machine.exec (State.next seeded .passthrough .refresh) {} patternsFirst).map
      (fun s => (s.waiting 0, (s.conns 7).acks.head?.map Reply.src,
        (s.pending 0).map fun q => q.2.ticket)) = some (some 7, some (some 0), some 1) := by
    decide +kernel
  obtain ⟨s, hs, hview⟩ := Option.map_eq_some_iff.1 hview
  obtain ⟨hw, hview⟩ := Prod.mk.inj hview
  obtain ⟨hack, hticket⟩ := Prod.mk.inj hview
  obtain ⟨r, hr, hsrc⟩ := Option.map_eq_some_iff.1 hack
  obtain ⟨q, hq, hmatch, -⟩ := h (patternsFirst ++ [.ack 0]) (by decide +kernel) patternsFirst _ []
    s rfl hs 0 7 rfl hw r hr
  rw [hsrc] at hmatch
  rw [hq, Option.map_some, ← Option.some.inj hmatch] at hticket
  cases hticket

end RespProxy.PubSub
