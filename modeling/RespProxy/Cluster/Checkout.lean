import RespProxy.Lib.Lease
import RespProxy.Cluster.Router

/-! # Connections on loan

A program that checks a connection out of a pool accounts for the replies it asks for over
it: it takes them all and puts the connection back, or it closes the connection.

* `connUse`: the requests of the proxy as actions on leased connections, with the replies a
  backend owes for what is written (`repliesTo`);
* `smooth`: what must not happen. `refreshFrom` puts its connection back even after a
  failed round trip, and a command with several replies is read as if it had one;
* `Neutral`: programs that end with the connections they started with. Here are those of the
  router (`exec_neutral`, `refresh_neutral`).
-/

namespace RespProxy.Cluster

open Command Resp Lease

/-! ## What backends owe -/

/-- The commands that are answered once for each channel. -/
def unsubscribing : List String := ["UNSUBSCRIBE", "PUNSUBSCRIBE", "SUNSUBSCRIBE"]

/-- How many replies a backend sends to a command. -/
def repliesTo (argv : Argv) : Nat :=
  if nameOf argv ∈ unsubscribing then max 1 (argv.length - 1) else 1

/-- The replies to a frame. -/
def due (f : Frame) : List Frame := List.replicate (repliesTo f.argv) f

/-- The requests as actions on connections. A write that fails may have delivered
everything; a read that fails leaves its reply to come. A connection that `addBackend`
gives to a subscription does not come back. -/
def connUse : Event → Act ConnId Frame
  | ⟨.get _ _, .ok c⟩ => ⟨.take, [c]⟩
  | ⟨.put c, _⟩ => ⟨.give, [c]⟩
  | ⟨.drop c, _⟩ | ⟨.addBackend _ c, _⟩ => ⟨.retire, [c]⟩
  | ⟨.write c fs, _⟩ => ⟨.send (fs.flatMap due), [c]⟩
  | ⟨.read c f, .ok _⟩ => ⟨.recv f, [c]⟩
  | ⟨.backend _, some c⟩ => ⟨.see, [c]⟩
  | ⟨.closeSub, cs⟩ => ⟨.see, cs⟩
  | _ => ⟨.see, []⟩

/-- The request is no round trip of a refresh that fails, and no read of a reply to a
command that has more than one. -/
def smooth : Event → Bool
  | ⟨.write _ fs, some _⟩ => fs.all fun f => decide (f.src ≠ .refresh)
  | ⟨.read _ f, .error _⟩ => decide (f.src ≠ .refresh)
  | ⟨.read _ f, .ok _⟩ => decide (repliesTo f.argv = 1)
  | _ => true

/-! ## Programs that keep what they hold -/

variable {α β : Type} {m : ConnId → Option (List Frame)} {c : ConnId} {cfg : Config}
variable {Q : α → Book ConnId Frame → Prop} {b : Book ConnId Frame} {o : Op} {q : List Frame}
  {p : Prog α} {e : Event} {k : Res o → Prog α}

abbrev Balanced (P : Book ConnId Frame → Prop) (p : Prog α)
    (Q : α → Book ConnId Frame → Prop) : Prop :=
  Tidy connUse (fun e => smooth e = true) P p Q

/-- The program ends with the connections it started with, and the same replies to come. -/
def Neutral (p : Prog α) : Prop := ∀ m, Balanced (Has m) p fun _ => Has m

theorem neutral_ret (a : α) : Neutral (.ret a) := fun _ => tidy_ret fun _ hb => hb

theorem Neutral.bind {f : α → Prog β} (hp : Neutral p) (hf : ∀ a, Neutral (f a)) :
    Neutral (p.bind f) :=
  fun m => Tidy.bind (hp m) fun a => hf a m

theorem step_untouched (h : (connUse e).conns = []) (b : Book ConnId Frame) :
    (connUse e).Good b ∧ b.step (connUse e) = b := by
  refine ⟨fun c hc => ?_, ?_⟩
  · rw [h] at hc
    cases hc
  · funext c
    simp [Book.step, h]

/-- A request that is not about connections. -/
theorem neutral_call (ho : ∀ r, (connUse ⟨o, r⟩).conns = [])
    (hk : ∀ r, Neutral (k r)) : Neutral (.call o k) := by
  refine fun m => tidy_call (R := fun _ => Has m) ?_ fun r => hk r m
  intro r b hb _ _
  obtain ⟨hgood, hsame⟩ := step_untouched (ho r) b
  exact ⟨hgood, by rwa [hsame]⟩

theorem neutral_ask (ho : ∀ r, (connUse ⟨o, r⟩).conns = []) : Neutral (ask o) :=
  neutral_call ho fun r => neutral_ret r

/-- Such a request, and what comes after it. -/
theorem neutral_after (ho : ∀ r, (connUse ⟨o, r⟩).conns = [])
    (hk : ∀ r, Neutral (k r)) : Neutral ((ask o).bind k) :=
  Neutral.bind (neutral_ask ho) hk

theorem InnerEvent.conns (h : InnerEvent e) : (connUse e).conns = [] := by
  obtain ⟨o, r⟩ := e
  cases o <;> first | rfl | exact h.elim

theorem Inner.neutral (h : Inner (fun _ => True) p) : Neutral p := by
  intro m b tr a hb hrun
  have hinner := (h.runs hrun fun _ _ => trivial).1
  clear hrun
  induction tr with
  | nil => exact hb
  | cons e tr ih =>
    obtain ⟨hgood, hsame⟩ := step_untouched (hinner e List.mem_cons_self).conns b
    refine fun _ _ => ⟨hgood, ?_⟩
    rw [hsame]
    exact ih fun e he => hinner e (List.mem_cons_of_mem _ he)

/-! ## One connection -/

/-- Besides what is in `m`, the connection `c` is held, with replies `q` to come. -/
def Leased (m : ConnId → Option (List Frame)) (c : ConnId) (q : List Frame) :
    Book ConnId Frame → Prop :=
  Has (Function.update m c (some q))

/-- The connection is held, with whatever is still to come on it. -/
def Spent (m : ConnId → Option (List Frame)) (c : ConnId) (b : Book ConnId Frame) : Prop :=
  ∃ q, Leased m c q b

theorem Leased.eq_held (h : Leased m c q b) :
    b c = .held q :=
  Has.eq_held h (Function.update_self ..)

theorem Leased.step (h : Leased m c q b) (k : Kind Frame) :
    Has (Function.update m c (k.effect (.held q)).queue) (b.step ⟨k, [c]⟩) := by
  have hstep := Has.step h k c
  rwa [Function.update_idem, h.eq_held] at hstep

/-- How a request for a connection ends. -/
def Obtained (m : ConnId → Option (List Frame)) : Except Err ConnId → Book ConnId Frame → Prop
  | .ok c, b => m c = none ∧ Leased m c [] b
  | .error _, b => Has m b

theorem getConn_obtained (addr : Addr) (replica : Bool) :
    Balanced (Has m) (getConn cfg addr replica) (Obtained m) := by
  refine tidy_call (R := Obtained m) ?_ fun r => tidy_ret fun _ hb => hb
  intro r b hb _ hfair
  cases r with
  | error e =>
    refine ⟨?_, ?_⟩
    · intro c hc
      cases hc
    · exact hb
  | ok c =>
    have haway : b c = .away := hfair c (List.mem_singleton.2 rfl)
    refine ⟨fun _ _ => trivial, ?_, Has.step hb .take c⟩
    rw [← hb c, haway]
    rfl

theorem put_balanced (hc : m c = none) :
    Balanced (Leased m c []) (ask (.put c)) fun _ => Has m := by
  refine tidy_call (R := fun _ => Has m) ?_ fun _ => tidy_ret fun _ hb => hb
  intro r b hb _ _
  refine ⟨?_, ?_⟩
  · intro d hd
    cases List.mem_singleton.1 hd
    exact hb.eq_held
  · have hstep := hb.step .give
    rwa [show (Kind.effect .give (.held [])).queue = m c from hc.symm,
      Function.update_eq_self] at hstep

theorem retire_balanced (hc : m c = none) (ho : ∀ r, connUse ⟨o, r⟩ = ⟨.retire, [c]⟩)
    (hk : ∀ r, Balanced (fun b => Has m b ∧ b c = .off) (k r) Q) :
    Balanced (Spent m c) (.call o k) Q := by
  refine tidy_call (R := fun _ b => Has m b ∧ b c = .off) ?_ hk
  rintro r b ⟨q, hb⟩ _ _
  rw [ho r]
  refine ⟨?_, ?_, ?_⟩
  · intro d hd
    cases List.mem_singleton.1 hd
    rw [hb.eq_held]
    exact Status.held_ne_away q
  · have hstep := hb.step .retire
    rwa [show (Kind.effect .retire (.held q)).queue = m c from hc.symm,
      Function.update_eq_self] at hstep
  · simp [Book.step, Kind.effect]

theorem drop_balanced (hc : m c = none) :
    Balanced (Spent m c) (ask (.drop c)) fun _ => Has m :=
  retire_balanced hc (fun _ => rfl) fun _ => tidy_ret fun _ hb => hb.1

/-- How a write ends. -/
def Wrote (m : ConnId → Option (List Frame)) (c : ConnId) (q fs : List Frame) :
    Option Err → Book ConnId Frame → Prop
  | none, b => Leased m c (q ++ fs.flatMap due) b
  | some _, b => (∀ f ∈ fs, f.src ≠ .refresh) ∧ Spent m c b

theorem write_wrote (q fs : List Frame) :
    Balanced (Leased m c q) (ask (.write c fs)) (Wrote m c q fs) := by
  refine tidy_call (R := Wrote m c q fs) ?_ fun _ => tidy_ret fun _ hb => hb
  intro r b hb hA _
  have hstep := hb.step (.send (fs.flatMap due))
  refine ⟨?_, ?_⟩
  · intro d hd
    cases List.mem_singleton.1 hd
    rw [hb.eq_held]
    exact Status.held_ne_away q
  · cases r with
    | none => exact hstep
    | some e =>
      refine ⟨fun f hf => ?_, _, hstep⟩
      exact of_decide_eq_true (List.all_eq_true.1 hA f hf)

/-- How a read ends: the reply is there, or all replies are still to come. -/
def ReplyTaken (m : ConnId → Option (List Frame)) (c : ConnId) (f : Frame) (q : List Frame) :
    Except Err Value → Book ConnId Frame → Prop
  | .ok _, b => Leased m c q b
  | .error _, b => f.src ≠ .refresh ∧ Spent m c b

theorem read_taken (f : Frame) (q : List Frame) :
    Balanced (Leased m c (due f ++ q)) (ask (.read c f)) (ReplyTaken m c f q) := by
  refine tidy_call (R := ReplyTaken m c f q) ?_ fun _ => tidy_ret fun _ hb => hb
  intro r b hb hA _
  cases r with
  | error e =>
    refine ⟨?_, of_decide_eq_true hA, _, hb⟩
    intro d hd
    cases hd
  | ok v =>
    have hone : repliesTo f.argv = 1 := of_decide_eq_true hA
    rw [due, hone] at hb
    refine ⟨?_, hb.step (.recv f)⟩
    intro d hd
    cases List.mem_singleton.1 hd
    exact ⟨q, hb.eq_held⟩

/-- A round trip takes the reply it asked for, or leaves a connection that is spent. -/
theorem doFrame_taken (f : Frame) : Balanced (Leased m c []) (doFrame c f) (ReplyTaken m c f []) := by
  refine Tidy.bind (write_wrote [] [f]) ?_
  intro r
  cases r with
  | some e => exact tidy_ret fun _ hb => ⟨hb.1 f (List.mem_singleton.2 rfl), hb.2⟩
  | none =>
    refine (read_taken f []).mono ?_ fun _ _ hb => hb
    intro b hb
    simpa [Wrote] using hb

/-- The round trips of a refresh do not fail. -/
theorem doFrame_refresh {f : Frame} (hf : f.src = .refresh) :
    Balanced (Leased m c []) (doFrame c f) fun _ => Leased m c [] := by
  refine (doFrame_taken f).mono (fun _ hb => hb) ?_
  intro r b hb
  cases r with
  | ok v => exact hb
  | error e => exact absurd hf hb.1

/-- Check a connection out and go on with it. -/
theorem getConn_balanced {addr : Addr} {replica : Bool} {k : Except Err ConnId → Prog α}
    (herror : ∀ e, Balanced (Has m) (k (.error e)) Q)
    (hok : ∀ c, m c = none → Balanced (Leased m c []) (k (.ok c)) Q) :
    Balanced (Has m) ((getConn cfg addr replica).bind k) Q := by
  refine Tidy.bind (getConn_obtained addr replica) ?_
  intro r
  cases r with
  | error e => exact herror e
  | ok c => exact tidy_pure (fun _ hb => hb) (hok c)

theorem put_return (hc : m c = none) (a : α) :
    Balanced (Leased m c []) ((ask (.put c)).bind fun _ => .ret a) fun _ => Has m :=
  Tidy.bind (put_balanced hc) fun _ => tidy_ret fun _ hb => hb

theorem drop_return (hc : m c = none) (a : α) :
    Balanced (Spent m c) ((ask (.drop c)).bind fun _ => .ret a) fun _ => Has m :=
  Tidy.bind (drop_balanced hc) fun _ => tidy_ret fun _ hb => hb

/-! ## The router -/

theorem askAndDo_taken (asking : Bool) (f : Frame) :
    Balanced (Leased m c []) (askAndDo c asking f) (ReplyTaken m c f []) := by
  unfold askAndDo
  split
  · refine Tidy.bind (doFrame_taken (askingFrame f)) ?_
    intro r
    cases r with
    | error e => exact tidy_ret fun _ hb => hb
    | ok v => exact doFrame_taken f
  · exact doFrame_taken f

theorem hop_neutral (addr : Addr) (replica asking : Bool) (f : Frame) :
    Neutral (hop cfg addr replica asking f) := by
  refine fun m => getConn_balanced (fun e => tidy_ret fun _ hb => hb) fun c hc => ?_
  refine Tidy.bind (askAndDo_taken asking f) ?_
  intro r
  cases r with
  | error e => exact (drop_return hc _).mono (fun _ hb => hb.2) fun _ _ hb => hb
  | ok v => exact put_return hc _

theorem execHops_neutral (f : Frame) (hops slot : Nat) (hint : Addr) (read asking : Bool)
    (last : Value) : Neutral (execHops cfg f hops slot hint read asking last) := by
  induction hops generalizing slot hint read asking last with
  | zero => exact neutral_ret _
  | succ hops ih =>
    refine neutral_after (fun _ => rfl) ?_
    intro e
    cases e with
    | some e => exact neutral_ret _
    | none =>
      refine Neutral.bind (hopAddr_inner slot hint _).neutral ?_
      intro addr
      cases addr with
      | none => exact neutral_ret _
      | some addr =>
        refine Neutral.bind (hop_neutral addr _ asking f) ?_
        intro r
        cases r with
        | error e => exact neutral_ret _
        | ok v =>
          dsimp only
          split
          · exact neutral_ret _
          · split
            · exact Neutral.bind (updateSlotAt_inner _ _).neutral fun _ => ih _ _ _ _ _
            · exact ih _ _ _ _ _

theorem exec_neutral (slot : Nat) (f : Frame) (read : Bool) : Neutral (exec cfg slot f read) :=
  execHops_neutral f _ slot _ read _ _

theorem detect_leased :
    Balanced (Leased m c []) (detect cfg c) fun _ => Leased m c [] := by
  refine Tidy.bind (neutral_ask (fun _ => rfl) _) ?_
  intro known
  split
  · refine Tidy.bind (doFrame_refresh rfl) ?_
    intro r
    cases r with
    | error e => exact tidy_ret fun _ hb => hb
    | ok info =>
      dsimp only
      split
      · exact tidy_ret fun _ hb => hb
      · exact neutral_ask (fun _ => rfl) _
  · exact tidy_ret fun _ hb => hb

theorem install_neutral (parsed : Option (Except Err Topology)) : Neutral (install parsed) := by
  unfold install
  split
  · exact neutral_ret _
  · exact neutral_ret _
  · refine neutral_after (fun _ => rfl) fun _ => ?_
    exact Neutral.bind (storeTopology_inner _).neutral fun _ =>
      neutral_after (fun _ => rfl) fun _ => neutral_ret _

theorem refreshOn_leased :
    Balanced (Leased m c []) (refreshOn cfg c) fun _ => Leased m c [] := by
  refine Tidy.bind detect_leased fun _ => ?_
  extract_lets slots
  have hslots : Balanced (Leased m c []) slots fun _ => Leased m c [] := by
    refine Tidy.bind (doFrame_refresh rfl) ?_
    intro r
    cases r with
    | error e => exact tidy_ret fun _ hb => hb
    | ok v =>
      dsimp only
      split
      · exact tidy_ret fun _ hb => hb
      · exact install_neutral _ _
  refine Tidy.bind (doFrame_refresh rfl) ?_
  intro r
  cases r with
  | error e => exact hslots
  | ok v =>
    dsimp only
    split
    · exact hslots
    · exact install_neutral _ _

theorem refreshFrom_neutral (addr : Addr) : Neutral (refreshFrom cfg addr) := by
  refine fun m => getConn_balanced (fun e => tidy_ret fun _ hb => hb) fun c hc => ?_
  exact Tidy.bind refreshOn_leased fun r => put_return hc r

theorem refreshLoop_neutral (addrs : List Addr) (last : Err) :
    Neutral (refreshLoop cfg addrs last) := by
  induction addrs generalizing last with
  | nil => exact neutral_ret _
  | cons addr addrs ih =>
    refine Neutral.bind (refreshFrom_neutral addr) ?_
    intro r
    cases r with
    | ok | panic => exact neutral_ret _
    | failed e => exact ih e

/-- A refresh keeps its account while none of its round trips fails. -/
theorem refresh_neutral : Neutral (refresh cfg) :=
  Neutral.bind candidateAddrs_inner.neutral fun addrs => refreshLoop_neutral addrs _

end RespProxy.Cluster
