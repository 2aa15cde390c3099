import RespProxy.PubSub.Acks

/-! # Unsubscribing

`unsubscribe` forgets a channel only behind `waitAck`. `forward` takes the
acknowledgement of an unsubscription of a channel that is still recorded for a forced
one, and subscribes again. So the client can be told that it left a channel while a
backend has it subscribed.

It is not so in runs in which the reader comes too late for that and the backend has
served the command by the time the channel is forgotten (`Orderly`): then what a client
has left stays unsubscribed.
-/

namespace RespProxy.PubSub

open Cluster Command Resp Proxy

variable {cfg : Config} {mode : Mode} {src : Origin} {s s' : State} {l : Label}
variable {p : Prog (List Value)} {x : Subscription}
variable {k : Nat → Prog (List Value)} {notes : List Note} {q : Request} {addr : Addr} {ph : Phase}
  {ch : Slice} {t : Tid} {n : Nat}

variable {c : ConnId} {S : List Subscription} {conn : Conn} {argv : Argv}

/-! ## What a client has left -/

/-- The client was told that it left `x`, to which it was subscribed, and has not asked for
it since. -/
def Left (log : List Note) (x : Subscription) : Prop :=
  ∃ pre post, log = pre ++ .left x :: post ∧ .began x ∈ pre ∧ .asked x ∉ post

/-- The goroutine may still ask a backend for `x`. -/
def Wants (x : Subscription) (p : Prog (List Value)) : Prop :=
  ∃ tr vs, p.Runs tr vs ∧ ∃ c f, (c, f) ∈ written tr ∧ x ∈ begins f.argv

/-- No connection is subscribed to `x` or is going to be. -/
structure Gone (s : State) (x : Subscription) : Prop where
  subscribed : ∀ c, x ∉ (s.conns c).subscribed
  wire : ∀ c, ∀ q ∈ (s.conns c).wire, x ∉ begins q.argv
  threads : ∀ t p, s.prog t = some p → ¬ Wants x p

/-! ## Orderly runs -/

/-- The backend has the subscription, or has been sent a command that asks for it. -/
def Conn.Touches (c : Conn) (x : Subscription) : Prop :=
  x ∈ c.subscribed ∨ ∃ q ∈ c.wire, x ∈ begins q.argv

instance (c : Conn) (x : Subscription) : Decidable (c.Touches x) :=
  inferInstanceAs (Decidable (_ ∨ _))

/-- The channel that a goroutine is about to forget. -/
def State.deleting (s : State) (t : Tid) : Option Bytes :=
  match s.prog t with
  | some (.call (.subsDel ch) _) => some ch.bytes
  | _ => none

/-- What a step must meet for clients to leave channels for good. -/
def Orderly (s : State) : Label → Prop
  | .write t err sent => ∀ w ∈ s.writing t,
      -- channels are asked for when they are not recorded, and not behind a write that fails
      (∀ x ∈ begins w.2, x.1 ≠ .pattern →
        s.subs.lookup x.2 = none ∧ (err ≠ none → sent = false)) ∧
      -- the end of a subscription reaches the backend, which has the name for this kind only
      (∀ x ∈ leaves w.2, x.1 ≠ .pattern → (err = none ∨ sent = true) ∧
        ∀ k ∈ [Family.channel, .shard], k ≠ x.1 → ¬ (s.conns w.1).Touches (k, x.2))
  -- only `unsubscribe` and `roundTrip` give up
  | .timeout t _ => ∀ q ∈ s.pending t, ∀ x ∈ begins q.2.argv, x.1 = .pattern
  -- by the time a channel is forgotten, the backend has served what was written
  | .subsDel t => ∀ ch ∈ s.deleting t, ∀ addr ∈ s.subs.lookup ch,
      ∀ c ∈ s.backends.lookup addr, (s.conns c).wire = []
  -- the reader finds no channel recorded that was unsubscribed
  | .check c => ∀ r ∈ (s.conns c).reader.checked, s.tracked r.value = none
  | _ => True

instance (s : State) : (l : Label) → Decidable (Orderly s l)
  | .write t err sent => inferInstanceAs (Decidable (∀ w ∈ s.writing t,
      (∀ x ∈ begins w.2, x.1 ≠ .pattern →
        s.subs.lookup x.2 = none ∧ (err ≠ none → sent = false)) ∧
      (∀ x ∈ leaves w.2, x.1 ≠ .pattern → (err = none ∨ sent = true) ∧
        ∀ k ∈ [Family.channel, .shard], k ≠ x.1 → ¬ (s.conns w.1).Touches (k, x.2))))
  | .timeout t _ => inferInstanceAs (Decidable
      (∀ q ∈ s.pending t, ∀ x ∈ begins q.2.argv, x.1 = .pattern))
  | .subsDel t => inferInstanceAs (Decidable (∀ ch ∈ s.deleting t, ∀ addr ∈ s.subs.lookup ch,
      ∀ c ∈ s.backends.lookup addr, (s.conns c).wire = []))
  | .check c => inferInstanceAs (Decidable
      (∀ r ∈ (s.conns c).reader.checked, s.tracked r.value = none))
  | .command _ | .ret _ | .load _ _ | .get _ _ | .ack _ | .keys _ _ | .subsAddr _ | .backend _
  | .addBackend _ | .subsAdd _ | .read _ | .send _ | .push _ | .stop _ | .serve _ | .force _ _
  | .publish _ _ => inferInstanceAs (Decidable True)

/-! ## What backends keep -/

theorem mem_acknowledge {k : Family} {enter : Bool} {verb : String} {chs : List Slice} :
    x ∈ (acknowledge k enter verb S chs).1 ↔
      if enter then x ∈ S ∨ x ∈ chs.map (fun ch => (k, ch.bytes))
      else x ∈ S ∧ x ∉ chs.map (fun ch => (k, ch.bytes)) := by
  induction chs generalizing S with
  | nil => cases enter <;> simp [acknowledge]
  | cons ch chs ih =>
    rw [acknowledge]
    dsimp only
    rw [ih]
    cases enter
    · simp only [Bool.false_eq_true, if_false, List.mem_filter, List.map_cons, List.mem_cons]
      grind
    · simp only [if_true, List.mem_insert_iff, List.map_cons, List.mem_cons]
      tauto

/-- A backend enters what a command asks for, and nothing else. -/
theorem mem_of_mem_serve (h : x ∈ (serve S argv).1) : x ∈ S ∨ x ∈ begins argv := by
  unfold serve at h
  unfold begins
  dsimp only at h
  split at h
  · rename_i k hk
    split at h
    · exact .inl h
    · rw [mem_acknowledge, if_pos rfl] at h
      rw [hk]
      exact h
  · generalize (if argv.drop 1 = [] then _ else argv.drop 1) = chs at h
    split at h
    · exact .inl h
    · rw [mem_acknowledge, if_neg (by simp)] at h
      exact .inl h.1
  · exact .inl h

theorem opens_of_closes {op : PubSubOp} {k : Family} (h : closes op = some k) : opens op = none := by
  cases op <;> first | rfl | cases h

/-- A backend ends what a command names. -/
theorem not_mem_serve (h : leaves argv = [x]) : x ∉ (serve S argv).1 := by
  have hmem : x ∈ leaves argv := h ▸ List.mem_singleton_self x
  have hfam := named_family hmem
  rw [leaves, hfam] at h
  have hchs : argv.drop 1 ≠ [] := by
    intro hnil
    rw [named, hnil] at h
    cases h
  unfold serve
  dsimp only
  rw [opens_of_closes hfam, hfam]
  dsimp only
  rw [if_neg hchs, if_neg hchs, mem_acknowledge, if_neg (by simp)]
  rintro ⟨-, hx⟩
  refine hx ?_
  rw [show List.map _ _ = [x] from h]
  exact List.mem_singleton.2 rfl

/-! ## The invariant -/

/-- `subs` and `backends` lead from the channel to the connection. -/
def Recorded (s : State) (c : ConnId) (ch : Bytes) : Prop :=
  ∃ addr, s.subs.lookup ch = some addr ∧ s.backends.lookup addr = some c

/-- The last command on the connection ends `x`, or `x` has ended; and the name is not used
for another kind of channel. -/
structure Conn.Ends (c : Conn) (x : Subscription) : Prop where
  last : (∃ pre q, c.wire = pre ++ [q] ∧ leaves q.argv = [x]) ∨ c.wire = [] ∧ x ∉ c.subscribed
  other : ∀ k, k ≠ .pattern → k ≠ x.1 → ¬ c.Touches (k, x.2)

/-- The goroutine has asked for the channel and is going to record it. -/
def Phase.Asks : Phase → ConnId → Bytes → Prop
  | .wrote _ c x, d, ch | .acked _ c x, d, ch => d = c ∧ ch = x.2
  | _, _, _ => False

/-- What the client's goroutine knows about the shared state. -/
def Phase.Holds (s : State) : Phase → Prop
  | .missing addr | .fresh addr _ => s.backends.lookup addr = none
  | .ready addr c => s.backends.lookup addr = some c
  | .wrote addr c x => s.backends.lookup addr = some c ∧ s.subs.lookup x.2 = none ∧
      x.1 ≠ .pattern ∧ ∃ q, s.pending 0 = some (c, q) ∧ begins q.argv = [x]
  | .acked addr c x => s.backends.lookup addr = some c ∧ s.subs.lookup x.2 = none
  | .found ch addr => ∀ a, s.subs.lookup ch.bytes = some a → a = addr
  | .aimed ch c => ∀ d, Recorded s d ch.bytes → d = c
  | .unwrote c x | .dropping x (some c) => (∀ d, Recorded s d x.2 → d = c) ∧ (s.conns c).Ends x
  | .dropping x none => ∀ d, ¬ Recorded s d x.2
  | .free | .patterned _ => True

/-- The client's goroutine is at `ph`. What connections touch is recorded, or about to be. -/
structure At (mode : Mode) (s : State) (ph : Phase) : Prop where
  idle : s.prog 0 = none → ph = .free
  follows : ∀ p, s.prog 0 = some p →
    Follows (· ∈ wanted mode s.command) (fun u => dropped mode s.command = some u) ph p
  holds : ph.Holds s
  touch : ∀ c x, (s.conns c).Touches x → x.1 ≠ .pattern → Recorded s c x.2 ∨ ph.Asks c x.2

/-- The client was told that it left `x`, and has not asked for it since. -/
def Told (log : List Note) (x : Subscription) : Prop :=
  ∃ pre post, log = pre ++ .left x :: post ∧ .asked x ∉ post

/-- The client's goroutine is the only one, and what the client has left or is about to be
told that it left is gone. -/
structure LeaveInv (mode : Mode) (s : State) : Prop where
  alone : ∀ t, t ≠ 0 → s.threads t = none
  quiet : s.prog 0 = none → s.leaving = []
  phase : ∃ ph, At mode s ph
  gone : ∀ x, x ∈ s.leaving ∨ Told s.log x →
    x.1 ≠ .pattern ∧ (∀ c, ¬ (s.conns c).Touches x) ∧ (s.prog 0 ≠ none → x ∉ wanted mode s.command)

theorem LeaveInv.init (mode : Mode) : LeaveInv mode {} where
  alone _ _ := rfl
  quiet _ := rfl
  phase := ⟨.free, fun _ => rfl, fun _ h => (by cases h), trivial, fun c x h => by
    rcases h with h | ⟨q, hq, -⟩
    · cases h
    · cases hq⟩
  gone x h := by
    rcases h with h | ⟨pre, post, h, -⟩
    · cases h
    · simp at h

/-! ## The log -/

section

variable {log : List Note} {x : Subscription}

theorem Told.of_append (h : Told (log ++ notes) x) :
    .left x ∈ notes ∨ Told log x ∧ .asked x ∉ notes := by
  obtain ⟨pre, post, heq, hpost⟩ := h
  rcases List.append_eq_append_iff.1 heq with ⟨mid, rfl, hmid⟩ | ⟨mid, rfl, hmid⟩
  · exact .inl (by simp [hmid])
  · rcases List.cons_eq_append_iff.1 hmid with ⟨rfl, hnil⟩ | ⟨mid', rfl, rfl⟩
    · exact .inl (by simp [hnil])
    · simp only [List.mem_append, not_or] at hpost
      exact .inr ⟨⟨pre, mid', rfl, hpost.1⟩, hpost.2⟩

theorem Told.append (h : Told (log ++ notes) x)
    (hnotes : ∀ y, Note.left y ∉ notes) : Told log x ∧ .asked x ∉ notes :=
  h.of_append.resolve_left (hnotes x)

end

/-! ## Steps of connections -/

/-- A connection changes: it touches no more than before, and what has ended has ended. -/
theorem LeaveInv.setConn (h : LeaveInv mode s)
    (htouch : ∀ x, conn.Touches x → (s.conns c).Touches x)
    (hends : ∀ x, (s.conns c).Ends x → conn.Ends x) : LeaveInv mode (s.setConn c conn) := by
  have htouches : ∀ d x, ((s.setConn c conn).conns d).Touches x → (s.conns d).Touches x := by
    intro d x hx
    rw [State.conns_setConn] at hx
    split at hx
    · rw [‹d = c›]
      exact htouch x hx
    · exact hx
  have hend : ∀ d x, (s.conns d).Ends x → ((s.setConn c conn).conns d).Ends x := by
    intro d x hx
    rw [State.conns_setConn]
    split
    · rw [‹d = c›] at hx
      exact hends x hx
    · exact hx
  obtain ⟨ph, hat⟩ := h.phase
  refine ⟨h.alone, h.quiet, ⟨ph, hat.idle, hat.follows, ?_, fun d x hx => hat.touch d x (htouches d x hx)⟩,
    fun x hx => ?_⟩
  · have hholds := hat.holds
    cases ph with
    | unwrote d x => exact ⟨hholds.1, hend d x hholds.2⟩
    | dropping x d =>
      cases d with
      | none => exact hholds
      | some d => exact ⟨hholds.1, hend d x hholds.2⟩
    | _ => exact hholds
  · obtain ⟨hk, hgone, hw⟩ := h.gone x hx
    exact ⟨hk, fun d hd => hgone d (htouches d x hd), hw⟩

/-- The reader and the channel do not matter. -/
theorem LeaveInv.setConn_same (h : LeaveInv mode s)
    (hw : conn.wire = (s.conns c).wire) (hs : conn.subscribed = (s.conns c).subscribed) :
    LeaveInv mode (s.setConn c conn) := by
  have hsame : ∀ x, conn.Touches x ↔ (s.conns c).Touches x := by
    intro x
    rw [Conn.Touches, Conn.Touches, hw, hs]
  refine h.setConn (fun x hx => (hsame x).1 hx) fun x hx => ⟨?_, fun k hk hne ht => ?_⟩
  · rw [hw, hs]
    exact hx.last
  · exact hx.other k hk hne ((hsame _).1 ht)

theorem LeaveInv.serve (h : LeaveInv mode s) {wire : List Request}
    (hw : (s.conns c).wire = q :: wire) (hwire : conn.wire = wire)
    (hsub : conn.subscribed = (serve (s.conns c).subscribed q.argv).1) :
    LeaveInv mode (s.setConn c conn) := by
  have htouch : ∀ x, conn.Touches x → (s.conns c).Touches x := by
    intro x hx
    rw [Conn.Touches, hw]
    rcases hx with hx | ⟨q', hq', hx⟩
    · rw [hsub] at hx
      rcases mem_of_mem_serve hx with hx | hx
      · exact .inl hx
      · exact .inr ⟨q, List.mem_cons_self, hx⟩
    · exact .inr ⟨q', List.mem_cons_of_mem q (hwire ▸ hq'), hx⟩
  refine h.setConn htouch fun x hx => ⟨?_, fun k hk hne ht => hx.other k hk hne (htouch _ ht)⟩
  rw [hwire, hsub]
  rcases hx.last with ⟨pre, q', hpre, hleaves⟩ | ⟨hnil, -⟩
  · rw [hw] at hpre
    cases pre with
    | nil =>
      cases hpre
      exact .inr ⟨rfl, not_mem_serve hleaves⟩
    | cons q₀ pre =>
      cases hpre
      exact .inl ⟨pre, q', rfl, hleaves⟩
  · rw [hw] at hnil
    cases hnil

theorem LeaveInv.force (h : LeaveInv mode s) {y : Subscription}
    (hwire : conn.wire = (s.conns c).wire)
    (hsub : conn.subscribed = (s.conns c).subscribed.filter (· ≠ y)) :
    LeaveInv mode (s.setConn c conn) := by
  have htouch : ∀ x, conn.Touches x → (s.conns c).Touches x := by
    intro x hx
    rw [Conn.Touches, hwire, hsub] at hx
    exact hx.imp_left fun hx => List.mem_of_mem_filter hx
  refine h.setConn htouch fun x hx => ⟨?_, fun k hk hne ht => hx.other k hk hne (htouch _ ht)⟩
  rw [hwire, hsub]
  exact hx.last.imp_right fun hl => ⟨hl.1, fun hm => hl.2 (List.mem_of_mem_filter hm)⟩

/-! ## Steps of the client's goroutine -/

/-- What the client's command lets its goroutine do. -/
abbrev State.Follows (mode : Mode) (s : State) : Phase → Prog (List Value) → Prop :=
  PubSub.Follows (· ∈ wanted mode s.command) fun u => dropped mode s.command = some u

theorem LeaveInv.client (h : LeaveInv mode s) (hp : s.prog t = some p) : t = 0 := by
  by_contra ht
  rw [State.prog_eq_none (h.alone t ht)] at hp
  cases hp

/-- The goroutine goes on. -/
theorem LeaveInv.resumed (h : LeaveInv mode s)
    {w : Option (ConnId × Request)} (hthreads : s'.threads = (s.resume 0 p w).threads)
    (hcommand : s'.command = s.command) (hf : s.Follows mode ph p) (hholds : ph.Holds s')
    (htouch : ∀ c x, (s'.conns c).Touches x → x.1 ≠ .pattern → Recorded s' c x.2 ∨ ph.Asks c x.2)
    (hgone : ∀ x, x ∈ s'.leaving ∨ Told s'.log x →
      x.1 ≠ .pattern ∧ (∀ c, ¬ (s'.conns c).Touches x) ∧ x ∉ wanted mode s.command) :
    LeaveInv mode s' := by
  have hprog : s'.prog 0 = some p := by
    rw [State.prog, hthreads]
    exact State.prog_resume.trans (if_pos rfl)
  refine ⟨fun t ht => ?_, fun hnone => ?_, ⟨ph, fun hnone => ?_, fun p' hp' => ?_, hholds, htouch⟩,
    fun x hx => ?_⟩
  · rw [hthreads]
    exact (if_neg ht).trans (h.alone t ht)
  · rw [hprog] at hnone
    cases hnone
  · rw [hprog] at hnone
    cases hnone
  · rw [hprog] at hp'
    cases hp'
    rw [hcommand]
    exact hf
  · obtain ⟨hk, hc, hw⟩ := hgone x hx
    exact ⟨hk, hc, fun _ => hcommand ▸ hw⟩

/-- The goroutine reads the shared state, or waits. -/
theorem LeaveInv.look (h : LeaveInv mode s) {p' : Prog (List Value)}
    (hp : s.prog t = some p) (opened : List ConnId)
    (hgo : ∀ ph, s.Follows mode ph p → ph.Holds s → ∃ ph', s.Follows mode ph' p' ∧
      ph'.Holds { s.resume t p' none with opened } ∧ ph.Asks ≤ ph'.Asks) :
    LeaveInv mode { s.resume t p' none with opened } := by
  cases h.client hp
  obtain ⟨ph, hat⟩ := h.phase
  obtain ⟨ph', hf, hholds, hasks⟩ := hgo ph (hat.follows p hp) hat.holds
  refine h.resumed rfl rfl hf hholds (fun c x hx hk => ?_) fun x hx => ?_
  · exact (hat.touch c x hx hk).imp_right (hasks c x.2)
  · obtain ⟨hk, hc, hw⟩ := h.gone x hx
    exact ⟨hk, hc, hw (by simp [hp])⟩

theorem LeaveInv.written (h : LeaveInv mode s) {f : Frame} {err : Option Err}
    {sent : Bool} {k : Option Err → Prog (List Value)} (hC : Orderly s (.write 0 err sent))
    (hp : s.prog 0 = some (.call (.write c [f]) k)) (hsent : err = none ∨ sent = true)
    (hq : q.argv = f.argv)
    (hthreads : s'.threads = (s.resume 0 (k err) (some (c, q))).threads)
    (hconns : s'.conns = (s.setConn c { s.conns c with wire := (s.conns c).wire ++ [q] }).conns)
    (hsubs : s'.subs = s.subs) (hbackends : s'.backends = s.backends)
    (hcommand : s'.command = s.command) (hleaving : s'.leaving = s.leaving)
    (hlog : s'.log = s.log) : LeaveInv mode s' := by
  obtain ⟨hsub, hunsub⟩ := hC _ (State.writing_eq hp)
  obtain ⟨ph, hat⟩ := h.phase
  have hf := hat.follows _ hp
  have hrecorded : ∀ d ch, Recorded s' d ch ↔ Recorded s d ch := by
    intro d ch
    rw [Recorded, Recorded, hsubs, hbackends]
  -- the connections touch what they touched, and what the command asks for
  have htouch : ∀ d x, (s'.conns d).Touches x →
      (s.conns d).Touches x ∨ d = c ∧ x ∈ begins f.argv := by
    intro d x hx
    rw [hconns, State.conns_setConn] at hx
    split at hx
    · rcases hx with hx | ⟨q', hq', hx⟩
      · exact .inl (.inl (‹d = c› ▸ hx))
      · rcases List.mem_append.1 hq' with hq' | hq'
        · exact .inl (.inr ⟨q', ‹d = c› ▸ hq', hx⟩)
        · rw [List.mem_singleton.1 hq', hq] at hx
          exact .inr ⟨‹d = c›, hx⟩
    · exact .inl hx
  have hgone : (∀ x ∈ begins f.argv, x.1 = .pattern ∨ x ∈ wanted mode s.command) →
      ∀ x, x ∈ s'.leaving ∨ Told s'.log x → x.1 ≠ .pattern ∧ (∀ d, ¬ (s'.conns d).Touches x) ∧ x ∉ wanted mode s.command := by
    intro hbegins x hx
    rw [hleaving, hlog] at hx
    obtain ⟨hk, hc, hw⟩ := h.gone x hx
    have hw' := hw (by simp [hp])
    refine ⟨hk, fun d hd => ?_, hw'⟩
    rcases htouch d x hd with hd | ⟨-, hd⟩
    · exact hc d hd
    · exact (hbegins x hd).elim hk hw'
  cases hf with
  | @subscribe addr _ _ x _ hbegins hleave hx hW herr hok =>
    obtain ⟨hlookup, hfail⟩ := hsub x (by rw [hbegins]; simp) hx
    have hnone : err = none := by
      by_contra hne
      rw [hfail hne] at hsent
      exact hsent.elim hne (by simp)
    subst hnone
    have hpending : s'.pending 0 = some (c, q) := by
      rw [State.pending, hthreads]
      rfl
    refine h.resumed hthreads hcommand hok ⟨hbackends ▸ hat.holds, hsubs ▸ hlookup, hx, q, hpending,
      hq ▸ hbegins⟩ (fun d y hy hk => ?_) (hgone fun y hy => ?_)
    · rcases htouch d y hy with hy' | ⟨hd, hy'⟩
      · exact ((hat.touch d y hy' hk).imp (hrecorded d y.2).2) fun hn => hn.elim
      · rw [hbegins] at hy'
        cases List.mem_singleton.1 hy'
        exact .inr ⟨hd, rfl⟩
    · rw [hbegins] at hy
      cases List.mem_singleton.1 hy
      exact .inr hW
  | pattern hpat herr hok =>
    have hbegins : ∀ y ∈ begins f.argv, y.1 = .pattern :=
      fun y hy => hpat y (List.mem_append_left _ hy)
    have htouch' : ∀ d y, (s'.conns d).Touches y → y.1 ≠ .pattern → Recorded s' d y.2 := by
      intro d y hy hk
      rcases htouch d y hy with hy' | ⟨-, hy'⟩
      · exact (hrecorded d y.2).2 ((hat.touch d y hy' hk).resolve_right fun hn => hn)
      · exact absurd (hbegins y hy') hk
    cases err with
    | none =>
      exact h.resumed hthreads hcommand hok trivial (fun d y hy hk => .inl (htouch' d y hy hk))
        (hgone fun y hy => .inl (hbegins y hy))
    | some e =>
      exact h.resumed hthreads hcommand (herr e) trivial
        (fun d y hy hk => .inl (htouch' d y hy hk)) (hgone fun y hy => .inl (hbegins y hy))
  | @unsubscribe ch _ _ u _ hleaves hbegins hu hU hk =>
    have hother := (hunsub (u, ch.bytes) (by rw [hleaves]; simp) hu).2
    have hwire : (s'.conns c).wire = (s.conns c).wire ++ [q] := by
      rw [hconns, State.conns_setConn, if_pos rfl]
    have hends : (s'.conns c).Ends (u, ch.bytes) := by
      refine ⟨.inl ⟨_, q, hwire, hq ▸ hleaves⟩, fun k' hk' hne hy => ?_⟩
      rcases htouch c _ hy with hy' | ⟨-, hy'⟩
      · refine hother k' ?_ hne hy'
        cases k' with
        | pattern => exact absurd rfl hk'
        | channel | shard => simp
      · rw [hbegins] at hy'
        cases hy'
    refine h.resumed hthreads hcommand (hk err)
      ⟨fun d hd => hat.holds d ((hrecorded d _).1 hd), hends⟩ (fun d y hy hk' => ?_)
      (hgone (by simp [hbegins]))
    rcases htouch d y hy with hy' | ⟨-, hy'⟩
    · exact (hat.touch d y hy' hk').imp (hrecorded d y.2).2 fun hn => hn.elim
    · rw [hbegins] at hy'
      cases hy'

/-- A connection is entered for an address that had none. -/
theorem LeaveInv.entered (h : LeaveInv mode s)
    {k : Unit → Prog (List Value)} (hp : s.prog 0 = some (.call (.addBackend addr c) k)) :
    LeaveInv mode { s.resume 0 (k ()) none with backends := s.backends.insert addr c } := by
  obtain ⟨ph, hat⟩ := h.phase
  have hf := hat.follows _ hp
  cases hf with
  | enter hk =>
    have hmissing : s.backends.lookup addr = none := hat.holds
    refine h.resumed rfl rfl hk (AList.lookup_insert _) (fun d x hx hkind => .inl ?_) fun x hx => ?_
    · obtain ⟨a, ha, hb⟩ := (hat.touch d x hx hkind).resolve_right fun hn => hn
      refine ⟨a, ha, ?_⟩
      have hne : a ≠ addr := by
        rintro rfl
        rw [hmissing] at hb
        cases hb
      exact (AList.lookup_insert_ne hne).trans hb
    · obtain ⟨hkind, hc, hw⟩ := h.gone x hx
      exact ⟨hkind, hc, hw (by simp [hp])⟩

/-- A channel is recorded. -/
theorem LeaveInv.added (h : LeaveInv mode s) {notes : List Subscription}
    (hp : s.prog 0 = some (.call (.subsAdd ch addr) k)) :
    LeaveInv mode { s.resume 0 (k n) none with
      subs := s.subs.insert ch.bytes addr, count := n, log := s.log ++ notes.map Note.began } := by
  obtain ⟨ph, hat⟩ := h.phase
  have hf := hat.follows _ hp
  cases hf with
  | @record _ c x _ _ hch hk =>
    obtain ⟨hbackend, hlookup⟩ := hat.holds
    refine h.resumed rfl rfl (hk n) trivial (fun d y hy hkind => .inl ?_) fun y hy => ?_
    · rcases hat.touch d y hy hkind with ⟨a, ha, hb⟩ | ⟨rfl, hyx⟩
      · have hne : y.2 ≠ ch.bytes := by
          intro heq
          rw [heq, hch, hlookup] at ha
          cases ha
        exact ⟨a, (AList.lookup_insert_ne hne).trans ha, hb⟩
      · refine ⟨addr, ?_, hbackend⟩
        rw [hyx, ← hch]
        exact AList.lookup_insert _
    · have hleft := hy.imp_right fun hy => (hy.append (by simp)).1
      obtain ⟨hkind, hc, hw⟩ := h.gone y hleft
      exact ⟨hkind, hc, hw (by simp [hp])⟩

theorem dropped_kind {u : Family} (h : dropped mode argv = some u) :
    u ≠ .pattern ∧ wanted mode argv = [] := by
  obtain ⟨k, hk, rfl⟩ := Option.map_eq_some_iff.1 h
  obtain ⟨hk, hne⟩ := Option.filter_eq_some_iff.1 hk
  refine ⟨?_, ?_⟩
  · unfold familyOf
    split
    · decide
    · simpa using hne
  · rw [wanted, begins, opens_of_closes hk]
    rfl

/-- A channel is forgotten. -/
theorem LeaveInv.forgotten (h : LeaveInv mode s) (hC : Orderly s (.subsDel 0))
    (hp : s.prog 0 = some (.call (.subsDel ch) k)) :
    LeaveInv mode { s.resume 0 (k n) none with
      subs := s.subs.erase ch.bytes
      count := n
      leaving := s.leaving ++ ((dropped mode s.command).map fun k => (k, ch.bytes)).toList } := by
  have hdeleting : s.deleting 0 = some ch.bytes := by rw [State.deleting, hp]
  obtain ⟨ph, hat⟩ := h.phase
  have hf := hat.follows _ hp
  cases hf with
  | @forget x co _ _ hch hU hk =>
    obtain ⟨hpattern, hwanted⟩ := dropped_kind hU
    -- nothing touches the name any more
    have hname : ∀ d y, (s.conns d).Touches y → y.1 ≠ .pattern → Recorded s d y.2 ∧ y.2 ≠ x.2 := by
      intro d y hy hkind
      have hrec := (hat.touch d y hy hkind).resolve_right fun hn => hn
      refine ⟨hrec, fun heq => ?_⟩
      rw [heq] at hrec
      cases co with
      | none => exact hat.holds d hrec
      | some c =>
        obtain ⟨hone, hends⟩ := hat.holds
        cases hone d hrec
        obtain ⟨a, ha, hb⟩ := hrec
        have hwire : (s.conns d).wire = [] := hC _ hdeleting a (hch ▸ ha) d hb
        by_cases hyx : y.1 = x.1
        · rcases hends.last with ⟨pre, q, hpre, -⟩ | ⟨-, hx⟩
          · rw [hwire] at hpre
            simp at hpre
          · rcases hy with hy | ⟨q, hq, -⟩
            · exact hx (Prod.ext hyx heq ▸ hy)
            · rw [hwire] at hq
              cases hq
        · exact hends.other y.1 hkind hyx (heq ▸ hy)
    refine h.resumed rfl rfl (hk n) trivial (fun d y hy hkind => .inl ?_) fun y hy => ?_
    · obtain ⟨⟨a, ha, hb⟩, hne⟩ := hname d y hy hkind
      exact ⟨a, (AList.lookup_erase_ne (hch ▸ hne)).trans ha, hb⟩
    · rw [hwanted]
      rcases hy with hy | hy
      · rcases List.mem_append.1 hy with hy | hy
        · obtain ⟨hkind, hc, -⟩ := h.gone y (.inl hy)
          exact ⟨hkind, hc, List.not_mem_nil⟩
        · have hyx : y = x := by
            rw [show dropped mode s.command = some x.1 from hU] at hy
            exact (List.mem_singleton.1 hy).trans (Prod.ext rfl hch)
          subst hyx
          exact ⟨hpattern, fun d hd => (hname d y hd hpattern).2 rfl, List.not_mem_nil⟩
      · obtain ⟨hkind, hc, -⟩ := h.gone y (.inr hy)
        exact ⟨hkind, hc, List.not_mem_nil⟩

theorem LeaveInv.command (h : LeaveInv mode s) (hidle : s.threads 0 = none) (argv : Argv) :
    LeaveInv mode { s.resume 0 (handleClientCmd cfg mode src argv) none with
      command := argv, log := s.log ++ (wanted mode argv).map Note.asked } := by
  have hprog := State.prog_eq_none hidle
  obtain ⟨ph, hat⟩ := h.phase
  cases hat.idle hprog
  have hgo : LeaveInv mode { s with
      command := argv, log := s.log ++ (wanted mode argv).map Note.asked } := by
    refine ⟨h.alone, h.quiet, ⟨.free, hat.idle, fun p hp => ?_, trivial, hat.touch⟩, fun x hx => ?_⟩
    · rw [show s.prog 0 = some p from hp] at hprog
      cases hprog
    · have hx' := hx.imp_right fun hx => (hx.append (by simp)).1
      obtain ⟨hk, hc, -⟩ := h.gone x hx'
      exact ⟨hk, hc, fun hne => absurd hprog hne⟩
  refine hgo.resumed rfl rfl (handleClientCmd_follows argv (fun _ hx => hx) fun _ hu => hu) trivial
    (fun d x hx hk => hat.touch d x hx hk) fun x hx => ?_
  obtain ⟨hk, hc, -⟩ := hgo.gone x hx
  refine ⟨hk, hc, fun hw => ?_⟩
  rcases hx with hx | hx
  · have hx : x ∈ s.leaving := hx
    rw [h.quiet hprog] at hx
    cases hx
  · exact (hx.append (by simp)).2 (List.mem_map.2 ⟨x, hw, rfl⟩)

theorem LeaveInv.returned (h : LeaveInv mode s) {vs : List Value} (hp : s.prog 0 = some (.ret vs)) :
    LeaveInv mode { s with
      threads := fun u => if u = 0 then none else s.threads u
      leaving := []
      log := s.log ++ s.leaving.map Note.left } := by
  obtain ⟨ph, hat⟩ := h.phase
  have hf := hat.follows _ hp
  cases hf
  refine ⟨fun t ht => (if_neg ht).trans (h.alone t ht), fun _ => rfl,
    ⟨.free, fun _ => rfl, fun p hp => (by cases hp), trivial, hat.touch⟩, fun x hx => ?_⟩
  have hx' : x ∈ s.leaving ∨ Told s.log x := (hx.resolve_left List.not_mem_nil).of_append.imp
    (by simp) And.left
  obtain ⟨hk, hc, -⟩ := h.gone x hx'
  exact ⟨hk, hc, fun hne => absurd rfl hne⟩

/-- **Every orderly step keeps the invariant.** -/
theorem LeaveInv.next (h : LeaveInv mode s) (hC : Orderly s l) (hstep : Step cfg mode src s l s') :
    LeaveInv mode s' := by
  cases hstep with
  | command hidle => exact h.command hidle _
  | ret hp =>
    cases h.client hp
    exact h.returned hp
  | load hp | keys hp =>
    refine h.look hp s.opened fun ph hf hholds => ?_
    cases hf
    rename_i hk
    exact ⟨_, hk _, trivial, le_rfl⟩
  | refused hp =>
    refine h.look hp s.opened fun ph hf hholds => ?_
    cases hf with
    | get herr _ => exact ⟨_, herr _, trivial, le_rfl⟩
  | got hp _ =>
    refine h.look hp _ fun ph hf hholds => ?_
    cases hf with
    | get _ hok => exact ⟨_, hok _, hholds, le_rfl⟩
  | written hp hsent =>
    cases h.client hp
    exact h.written hC hp hsent rfl rfl rfl rfl rfl rfl rfl rfl
  | @unsent t err sent c f k hp hsent =>
    -- an orderly write of `UNSUBSCRIBE` gets through
    obtain ⟨e, rfl⟩ : ∃ e, err = some e := Option.ne_none_iff_exists'.1 fun he => hsent (.inl he)
    refine h.look hp s.opened fun ph hf hholds => ?_
    cases hf with
    | subscribe _ _ _ _ herr _ => exact ⟨_, herr _, trivial, le_rfl⟩
    | pattern _ herr _ => exact ⟨_, herr _, trivial, le_rfl⟩
    | @unsubscribe ch _ _ u _ hleaves _ hu =>
      have hmem : (u, ch.bytes) ∈ leaves f.argv := hleaves ▸ List.mem_singleton_self _
      exact absurd ((hC _ (State.writing_eq hp)).2 _ hmem hu).1 hsent
  | ack hp hacks =>
    refine LeaveInv.setConn_same (h.look hp s.opened fun ph hf hholds => ?_) rfl rfl
    cases hf with
    | subscribed _ hok => exact ⟨_, hok _, ⟨hholds.1, hholds.2.1⟩, le_rfl⟩
    | patterned hk => exact ⟨_, hk _, trivial, le_rfl⟩
    | unsubscribed hk => exact ⟨_, hk _, hholds, le_rfl⟩
  | timeout hp =>
    cases h.client hp
    refine h.look hp s.opened fun ph hf hholds => ?_
    cases hf with
    | subscribed =>
      -- the acknowledgement of what is being subscribed is not given up
      obtain ⟨-, -, hx, q, hq, hbegins⟩ := hholds
      exact absurd (hC _ hq _ (by rw [hbegins]; simp)) hx
    | patterned hk => exact ⟨_, hk _, trivial, le_rfl⟩
    | unsubscribed hk => exact ⟨_, hk _, hholds, le_rfl⟩
  | @subsAddr t ch k hp =>
    refine h.look hp s.opened fun ph hf hholds => ?_
    cases hf with
    | find hk =>
      refine ⟨_, hk _, fun a ha => ?_, le_rfl⟩
      rw [show s.subs.lookup ch.bytes = some a from ha]
      rfl
  | @backend t addr k hp =>
    refine h.look hp s.opened fun ph hf hholds => ?_
    cases hf with
    | lookup hnone hsome =>
      cases hb : s.backends.lookup addr with
      | none => exact ⟨_, hnone, hb, le_rfl⟩
      | some c => exact ⟨_, hsome c, hb, le_rfl⟩
    | aim _ hnone hsome =>
      cases hb : s.backends.lookup addr with
      | none =>
        refine ⟨_, hnone, ?_, le_rfl⟩
        rintro d ⟨a, ha, hd⟩
        cases hholds a ha
        cases (show _ = some d from hd).symm.trans hb
      | some c =>
        refine ⟨_, hsome c, ?_, le_rfl⟩
        rintro d ⟨a, ha, hd⟩
        cases hholds a ha
        exact Option.some.inj ((show _ = some d from hd).symm.trans hb)
  | addBackend hp =>
    cases h.client hp
    exact LeaveInv.setConn_same (h.entered hp) rfl rfl
  | subsAdd hp =>
    cases h.client hp
    exact h.added hp
  | subsDel hp =>
    cases h.client hp
    exact h.forgotten hC hp
  | read | pass | send | push | stop | publish => exact h.setConn_same rfl rfl
  | resub hr hch =>
    -- nothing is subscribed anew in an orderly run
    have hnone := hC _ (by rw [hr]; rfl)
    rw [hch] at hnone
    cases hnone
  | serve hw => exact h.serve hw rfl rfl
  | force => exact h.force rfl rfl

theorem Follows.wants {W : Subscription → Prop} {U : Family → Prop}
    (h : Follows W U ph p) (hx : x.1 ≠ .pattern)
    (hwants : Wants x p) : W x := by
  obtain ⟨tr, vs, hrun, c, f, hf, hbegins⟩ := hwants
  obtain ⟨fs, r, he, hf⟩ := mem_written.1 hf
  have hasks : Asks W (fun _ => True) p := h.asks (fun _ _ => trivial) (by cases ph <;> trivial)
  exact (Interact.Prog.Ensures.runs hasks hrun fun _ _ => trivial).1 _ he f hf x hbegins hx

/-- **Unsubscribing.** In an orderly run, no connection is subscribed to a channel that the
client has left, and no goroutine is going to ask for it. -/
theorem gone_of_orderly {tr : List Label}
    (horderly : Machine.Meets (State.next cfg mode src) Orderly {} tr)
    (hrun : Machine.exec (State.next cfg mode src) {} tr = some s) {x : Subscription}
    (hleft : Left s.log x) : Gone s x := by
  have hinv : LeaveInv mode s := Machine.invariant_of_meets (I := fun _ s => LeaveInv mode s)
    (LeaveInv.init mode) (fun _ _ _ _ _ hI hC hnext => hI.next hC (step_of_next hnext)) horderly hrun
  obtain ⟨pre, post, hlog, -, hasked⟩ := hleft
  obtain ⟨hk, hc, hw⟩ := hinv.gone x (.inr ⟨pre, post, hlog, hasked⟩)
  refine ⟨fun c hmem => hc c (.inl hmem), fun c q hq hmem => hc c (.inr ⟨q, hq, hmem⟩), ?_⟩
  intro t p hp hwants
  cases hinv.client hp
  obtain ⟨ph, hat⟩ := hinv.phase
  exact hw (by simp [hp]) ((hat.follows p hp).wants hk hwants)

/-- The client leaves the channel `a`, and gives up waiting before the reader has the
acknowledgement. -/
def leaveA : List Label :=
  [.command [arg "UNSUBSCRIBE", arg "a"], .keys 0 [lit "a"], .subsAddr 0, .backend 0,
    .write 0 none true, .serve 7, .timeout 0 "timeout", .subsDel 0, .ret 0, .read 7, .check 7]

theorem gone_of_orderly_leave : ∃ s,
    Machine.exec (State.next seeded .passthrough .refresh) {} (subscribeA ++ leaveA) = some s ∧
      Left s.log (.channel, lit "a") ∧ Gone s (.channel, lit "a") := by
  have hlog : (Machine.exec (State.next seeded .passthrough .refresh) {}
      (subscribeA ++ leaveA)).map State.log = some [.asked (.channel, lit "a"),
        .began (.channel, lit "a"), .left (.channel, lit "a")] := by
    decide +kernel
  obtain ⟨s, hs, hlog⟩ := Option.map_eq_some_iff.1 hlog
  have hleft : Left s.log (.channel, lit "a") :=
    ⟨[.asked (.channel, lit "a"), .began (.channel, lit "a")], [], hlog, by simp, by simp⟩
  exact ⟨s, hs, hleft, gone_of_orderly (Machine.meets_of_checked (by decide +kernel)) hs hleft⟩

/-- The client leaves the channel `a`, and the reader takes the acknowledgement for a forced
one. The new subscription is acknowledged to the client as the end of the old one. -/
def resubscribeA : List Label :=
  [.command [arg "UNSUBSCRIBE", arg "a"], .keys 0 [lit "a"], .subsAddr 0, .backend 0,
    .write 0 none true, .serve 7, .read 7, .check 7, .load 1 none, .load 1 none, .backend 1,
    .write 1 none true, .serve 7, .read 7, .send 7, .ack 0, .subsDel 0, .ret 0]

theorem unsubscribe_subscribes_again : ¬ ∀ tr s,
    Machine.exec (State.next seeded .passthrough .refresh) {} tr = some s →
      ∀ x, Left s.log x → Gone s x := by
  intro h
  have hview : (Machine.exec (State.next seeded .passthrough .refresh) {}
      (subscribeA ++ resubscribeA)).map (fun s => (s.log, (s.conns 7).subscribed)) =
      some ([.asked (.channel, lit "a"), .began (.channel, lit "a"), .left (.channel, lit "a")],
        [(.channel, lit "a")]) := by
    decide +kernel
  obtain ⟨s, hs, hview⟩ := Option.map_eq_some_iff.1 hview
  obtain ⟨hlog, hsub⟩ := Prod.mk.inj hview
  have hgone := h _ s hs (.channel, lit "a")
    ⟨[.asked (.channel, lit "a"), .began (.channel, lit "a")], [], hlog, by simp, by simp⟩
  refine hgone.subscribed 7 ?_
  rw [hsub]
  exact List.mem_singleton.2 rfl

end RespProxy.PubSub
