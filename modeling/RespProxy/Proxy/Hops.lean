import Mathlib.Data.List.Chain
import RespProxy.Lib.World
import RespProxy.Cluster.Map
import RespProxy.Proxy.Replies

/-! # The copies of a command along redirects

`execFrame` sends a command again and again while the replies are redirects. Where nothing
fails and nobody else changes the slot map, a run is a list of copies: the first goes to the
owner of the slot, and each later one to the address of the redirect before it, behind an
`ASKING` if that was an `ASK`. The map has moved by the `MOVED` redirects.

* `Copy`: one copy with its round trips, `Copy.events`;
* `CopyChain`: what the hop loop makes of the replies, by induction over the hops left;
* `exec_copies`: the copies of a whole run.
-/

namespace RespProxy.Proxy

open Cluster Command Resp Interact

variable {cfg : Config} {f : Frame} {tr : Trace}
variable {asking : Bool} {r : Except Err Value} {w w' : MapView}
variable {red : Redirect} {last : Value} {hint : Addr} {c : Copy} {hops slot : Nat} {conn : ConnId}
  {read : Bool}

/-! ## The slot map -/

/-- The slot map with its counter of generations. -/
structure MapView where
  ptr : Option Topology
  gen : Nat

/-- `UpdateSlot`, undisturbed. -/
def MapView.update (w : MapView) (red : Redirect) : MapView where
  ptr := some { updateSlot w.ptr red.slot red.addr with generation := w.gen + 1 }
  gen := w.gen + 1

/-- What a request does to the map. -/
def MapActs (w : MapView) (e : Event) (w' : MapView) : Prop :=
  match e with
  | ⟨.load, r⟩ => r = w.ptr ∧ w' = w
  | ⟨.genAdd, r⟩ => r = w.gen + 1 ∧ w' = { w with gen := w.gen + 1 }
  | ⟨.store t, _⟩ => w' = { w with ptr := some t }
  | _ => w' = w

/-- The requests that do not touch the map. -/
def offMap : Op → Bool
  | .genAdd | .store _ => false
  | _ => true

theorem path_offMap (h : Path Eq MapActs w tr w') (htr : ∀ e ∈ tr, offMap e.op = true) : w' = w := by
  refine h.keeps (P := fun x => x = w) (stable_eq _) ?_ rfl
  rintro ⟨o, r⟩ he x x' rfl hacts
  have hop := htr _ he
  cases o with
  | genAdd | store => cases hop
  | load => exact hacts.2
  | _ => exact hacts

theorem path_updateSlotAt
    (hrun : (updateSlotAt red.slot red.addr).Runs tr ()) (h : Path Eq MapActs w tr w') :
    w' = w.update red := by
  obtain ⟨cur, gen, rfl⟩ := updateSlotAt_runs.1 hrun
  obtain _ | ⟨rfl, ⟨rfl, rfl⟩, h⟩ := h
  obtain _ | ⟨rfl, ⟨rfl, rfl⟩, h⟩ := h
  obtain _ | ⟨rfl, rfl, h⟩ := h
  cases h
  rfl

/-! ## One copy -/

/-- A copy of the command: where it goes, the reply to the `ASKING` ahead of it if there is
one, and its own reply. -/
structure Copy where
  addr : Addr
  replica : Bool
  conn : ConnId
  asking : Option Value
  reply : Value

/-- The round trips of a copy, all on one connection. The address map of the configuration
says where the address is. -/
def Copy.events (cfg : Config) (f : Frame) (c : Copy) : Trace :=
  ⟨.get (rewriteAddr cfg c.addr) c.replica, .ok c.conn⟩ ::
    (c.asking.toList.flatMap fun v =>
      [⟨.write c.conn [askingFrame f], none⟩, ⟨.read c.conn (askingFrame f), .ok v⟩]) ++
    [⟨.write c.conn [f], none⟩, ⟨.read c.conn f, .ok c.reply⟩, ⟨.put c.conn, ()⟩]

/-- The requests to backends. -/
def toBackend : Op → Bool
  | .get _ _ | .put _ | .drop _ | .write _ _ | .read _ _ => true
  | _ => false

def onBackends (tr : Trace) : Trace := tr.filter fun e => toBackend e.op

theorem onBackends_append (tr tr' : Trace) :
    onBackends (tr ++ tr') = onBackends tr ++ onBackends tr' := List.filter_append tr tr'

theorem Copy.mem_events {e : Event} (h : e ∈ c.events cfg f) :
    toBackend e.op = true ∧ offMap e.op = true := by
  rw [Copy.events, List.cons_append, List.mem_cons, List.mem_append, List.mem_flatMap] at h
  rcases h with rfl | ⟨v, -, h⟩ | h
  · exact ⟨rfl, rfl⟩
  · simp only [List.mem_cons, List.not_mem_nil, or_false] at h
    rcases h with rfl | rfl <;> exact ⟨rfl, rfl⟩
  · simp only [List.mem_cons, List.not_mem_nil, or_false] at h
    rcases h with rfl | rfl | rfl <;> exact ⟨rfl, rfl⟩

theorem onBackends_events (c : Copy) : onBackends (c.events cfg f) = c.events cfg f :=
  List.filter_eq_self.2 fun _ he => (Copy.mem_events he).1

theorem doFrame_copy (h : (doFrame conn f).Runs tr r) (hno : NoFault tr) :
    ∃ v, r = .ok v ∧ tr = [⟨.write conn [f], none⟩, ⟨.read conn f, .ok v⟩] := by
  obtain ⟨x, tr', rfl, h⟩ := h
  cases x with
  | some e => exact absurd trivial (noFault_cons.1 hno).1
  | none =>
    obtain ⟨y, tr'', rfl, rfl, rfl⟩ := h
    cases y with
    | error e => exact absurd trivial (noFault_cons.1 (noFault_cons.1 hno).2).1
    | ok v => exact ⟨v, rfl, rfl⟩

theorem askAndDo_copy (h : (askAndDo conn asking f).Runs tr r) (hno : NoFault tr) :
    ∃ (a : Option Value) (v : Value), a.isSome = asking ∧ r = .ok v ∧
      tr = (a.toList.flatMap fun u =>
        [⟨.write conn [askingFrame f], none⟩, ⟨.read conn (askingFrame f), .ok u⟩]) ++
        [⟨.write conn [f], none⟩, ⟨.read conn f, .ok v⟩] := by
  unfold askAndDo at h
  cases asking with
  | false =>
    obtain ⟨v, rfl, rfl⟩ := doFrame_copy h hno
    exact ⟨none, v, rfl, rfl, rfl⟩
  | true =>
    obtain ⟨t₁, x, t₂, h₁, h₂, rfl⟩ := Prog.runs_bind.1 h
    obtain ⟨hno₁, hno₂⟩ := noFault_append.1 hno
    obtain ⟨u, rfl, rfl⟩ := doFrame_copy h₁ hno₁
    obtain ⟨v, rfl, rfl⟩ := doFrame_copy h₂ hno₂
    exact ⟨some u, v, rfl, rfl, rfl⟩

/-- A hop that does not fail is one copy. -/
theorem hop_copy {addr : Addr} {replica : Bool}
    (h : (hop cfg addr replica asking f).Runs tr r) (hno : NoFault tr) :
    ∃ c : Copy, c.addr = addr ∧ c.asking.isSome = asking ∧ tr = c.events cfg f ∧
      r = .ok c.reply := by
  obtain ⟨x, tr', rfl, h⟩ := h
  cases x with
  | error e => exact absurd trivial (noFault_cons.1 hno).1
  | ok conn =>
    obtain ⟨t₁, y, t₂, h₁, h₂, rfl⟩ :=
      Prog.runs_bind.1 (show ((askAndDo conn asking f).bind _).Runs _ _ from h)
    obtain ⟨a, v, ha, rfl, rfl⟩ :=
      askAndDo_copy h₁ (noFault_append.1 (noFault_cons.1 hno).2).1
    obtain ⟨_, _, rfl, rfl, rfl⟩ := h₂
    refine ⟨⟨addr, replica, conn, a, v⟩, rfl, ha, ?_, rfl⟩
    rw [Copy.events, List.append_assoc]
    rfl

/-! ## The hop loop -/

theorem redirect_addr_ne {v : Value} (h : redirectOf v = some red) :
    red.addr ≠ "" := by
  unfold redirectOf parseRedirect at h
  split at h
  · dsimp only at h
    split at h
    · cases h
    split at h
    · cases h
    next haddr =>
    obtain ⟨n, -, rfl⟩ := Option.map_eq_some_iff.1 h
    intro hempty
    have hlist := congrArg String.toList hempty
    simp only [str, String.toList_ofList, String.toList_empty, List.map_eq_nil_iff] at hlist
    exact haddr hlist
  · cases h

/-- Each copy follows the redirect that answered the one before. -/
def CopyFollows (c c' : Copy) : Prop :=
  ∃ red, redirectOf c.reply = some red ∧ c'.addr = red.addr ∧ c'.asking.isSome = !red.moved

/-- The `MOVED` redirects among the replies, in order. -/
def movedRedirects (cs : List Copy) : List Redirect :=
  (cs.filterMap fun c => redirectOf c.reply).filter Redirect.moved

/-- The copies of the hop loop with `hops` hops left, the first one to `hint` if that is an
address; with no copy the answer is `last`. -/
structure CopyChain (cfg : Config) (f : Frame) (hops : Nat) (hint : Addr) (asking : Bool)
    (last : Value) (tr : Trace) (r : Except Err Value) (w w' : MapView) (cs : List Copy) :
    Prop where
  events : onBackends tr = cs.flatMap (Copy.events cfg f)
  bound : cs.length ≤ hops
  first : ∀ c ∈ cs.head?, (hint ≠ "" → c.addr = hint) ∧ c.asking.isSome = asking
  chain : cs.IsChain CopyFollows
  answer : r = .ok ((cs.getLast?.map Copy.reply).getD last)
  settled : cs.length < hops → ∃ c ∈ cs.getLast?, redirectOf c.reply = none
  map : w' = (movedRedirects cs).foldl MapView.update w

/-- Behind a redirect: the map is updated for `MOVED`, and the loop goes on. -/
def GoesOn (cfg : Config) (f : Frame) (hops : Nat) (c : Copy) (tr : Trace) (r : Except Err Value) :
    Prop :=
  ∃ red t₁ t₂ read, redirectOf c.reply = some red ∧ tr = t₁ ++ t₂ ∧
    (if red.moved then (updateSlotAt red.slot red.addr).Runs t₁ () else t₁ = []) ∧
    (execHops cfg f hops red.slot red.addr read (!red.moved) c.reply).Runs t₂ r

/-- One round of the loop: an address is found, a copy is sent, and its reply is the answer
or a redirect. -/
theorem execHops_runs (hseeds : cfg.clusterSeeds ≠ [])
    (hrun : (execHops cfg f (hops + 1) slot hint read asking last).Runs tr r) (hno : NoFault tr) :
    ∃ t₁ c t₂, tr = ⟨.ctxErr, none⟩ :: (t₁ ++ (c.events cfg f ++ t₂)) ∧
      (∀ e ∈ t₁, e.op = .load) ∧ (hint ≠ "" → c.addr = hint) ∧ c.asking.isSome = asking ∧
      (redirectOf c.reply = none ∧ t₂ = [] ∧ r = .ok c.reply ∨ GoesOn cfg f hops c t₂ r) := by
  obtain ⟨x, tr', rfl, hrun⟩ := hrun
  cases x with
  | some e => exact absurd trivial (noFault_cons.1 hno).1
  | none =>
    obtain ⟨t₁, a, t₂, hfind, hsend, rfl⟩ := Prog.runs_bind.1
      (show ((hopAddr cfg slot hint (read && !asking)).bind _).Runs _ _ from hrun)
    obtain ⟨hloads, addr, rfl, haddr⟩ :=
      (hopAddr_loads (A := fun _ => True) hseeds slot hint _).runs hfind fun _ _ => trivial
    obtain ⟨t₃, y, t₄, hhop, hrest, rfl⟩ := Prog.runs_bind.1 hsend
    have hno' := (noFault_append.1 (noFault_cons.1 hno).2).2
    obtain ⟨c, hcaddr, hcask, rfl, rfl⟩ := hop_copy hhop (noFault_append.1 hno').1
    refine ⟨t₁, c, t₄, rfl, hloads, fun hne => hcaddr.trans (haddr hne), hcask, ?_⟩
    dsimp only at hrest
    cases hred : redirectOf c.reply with
    | none =>
      rw [hred] at hrest
      obtain ⟨rfl, rfl⟩ := hrest
      exact .inl ⟨rfl, rfl, rfl⟩
    | some red =>
      rw [hred] at hrest
      dsimp only at hrest
      right
      cases hmoved : red.moved with
      | true =>
        rw [hmoved, if_pos rfl] at hrest
        obtain ⟨t₅, _, t₆, hupd, hloop, rfl⟩ := Prog.runs_bind.1 hrest
        exact ⟨red, t₅, t₆, read, hred, rfl, by rwa [hmoved, if_pos rfl], by rwa [hmoved]⟩
      | false =>
        rw [hmoved, if_neg Bool.false_ne_true] at hrest
        exact ⟨red, [], t₄, false, hred, rfl, by rw [hmoved, if_neg Bool.false_ne_true],
          by rwa [hmoved]⟩

/-- The update behind a redirect touches no backend and moves the map. -/
theorem update_behind
    (h : if red.moved then (updateSlotAt red.slot red.addr).Runs tr () else tr = [])
    (hmap : Path Eq MapActs w tr w') :
    onBackends tr = [] ∧ w' = ([red].filter Redirect.moved).foldl MapView.update w := by
  cases hmoved : red.moved with
  | true =>
    rw [hmoved, if_pos rfl] at h
    refine ⟨?_, by simpa [hmoved] using path_updateSlotAt h hmap⟩
    obtain ⟨cur, gen, rfl⟩ := updateSlotAt_runs.1 h
    rfl
  | false =>
    rw [hmoved, if_neg Bool.false_ne_true] at h
    subst h
    cases hmap
    exact ⟨rfl, by simp [hmoved]⟩

/-- Finding the address and sending the copy leaves the map alone. -/
theorem sending_still {t₁ t₂ : Trace} (hloads : ∀ e ∈ t₁, e.op = .load)
    (hmap : Path Eq MapActs w (⟨.ctxErr, none⟩ :: (t₁ ++ (c.events cfg f ++ t₂))) w') :
    Path Eq MapActs w t₂ w' := by
  have hsplit : (⟨.ctxErr, none⟩ :: (t₁ ++ (c.events cfg f ++ t₂)) : Trace) =
      (⟨.ctxErr, none⟩ :: (t₁ ++ c.events cfg f)) ++ t₂ := by
    rw [List.cons_append, List.append_assoc]
  rw [hsplit] at hmap
  obtain ⟨w₁, hfront, hback⟩ := path_append.1 hmap
  have hstill : w₁ = w := by
    refine path_offMap hfront fun e he => ?_
    rcases List.mem_cons.1 he with rfl | he
    · rfl
    rcases List.mem_append.1 he with he | he
    · rw [hloads e he]
      rfl
    · exact (Copy.mem_events he).2
  rwa [hstill] at hback

theorem onBackends_sending {t₁ : Trace} (hloads : ∀ e ∈ t₁, e.op = .load) (c : Copy) (t₂ : Trace) :
    onBackends (⟨.ctxErr, none⟩ :: (t₁ ++ (c.events cfg f ++ t₂))) =
      c.events cfg f ++ onBackends t₂ := by
  have hquiet : onBackends t₁ = [] := by
    refine List.filter_eq_nil_iff.2 fun e he => ?_
    rw [hloads e he]
    exact Bool.false_ne_true
  show onBackends (t₁ ++ (c.events cfg f ++ t₂)) = _
  rw [onBackends_append, onBackends_append, hquiet, onBackends_events, List.nil_append]

/-- A copy that is answered ends the chain. -/
theorem CopyChain.answered {hops : Nat} (hnone : redirectOf c.reply = none)
    (hfirst : (hint ≠ "" → c.addr = hint) ∧ c.asking.isSome = asking)
    (hevents : onBackends tr = c.events cfg f) :
    CopyChain cfg f (hops + 1) hint asking last tr (.ok c.reply) w w [c] where
  events := by rw [hevents, List.flatMap_singleton]
  bound := Nat.succ_le_succ (Nat.zero_le hops)
  first := by
    rintro _ ⟨⟩
    exact hfirst
  chain := .singleton c
  answer := rfl
  settled := fun _ => ⟨c, rfl, hnone⟩
  map := by simp [movedRedirects, hnone]

/-- A copy that is redirected stands ahead of a chain that starts at the redirect. -/
theorem CopyChain.redirected {hops : Nat} {t : Trace} {cs : List Copy}
    (hred : redirectOf c.reply = some red)
    (h : CopyChain cfg f hops red.addr (!red.moved) c.reply t r
      (([red].filter Redirect.moved).foldl MapView.update w) w' cs)
    (hfirst : (hint ≠ "" → c.addr = hint) ∧ c.asking.isSome = asking)
    (hevents : onBackends tr = c.events cfg f ++ onBackends t) :
    CopyChain cfg f (hops + 1) hint asking last tr r w w' (c :: cs) where
  events := by rw [hevents, h.events, List.flatMap_cons]
  bound := Nat.succ_le_succ h.bound
  first := by
    rintro _ ⟨⟩
    exact hfirst
  chain := h.chain.cons fun c' hc' =>
    ⟨red, hred, (h.first c' hc').1 (redirect_addr_ne hred), (h.first c' hc').2⟩
  answer := by
    rw [h.answer, List.getLast?_cons]
    cases cs.getLast? <;> rfl
  settled := fun hlt => by
    obtain ⟨c', hc', hnone⟩ := h.settled (Nat.lt_of_succ_lt_succ hlt)
    exact ⟨c', by rw [List.getLast?_cons, hc']; rfl, hnone⟩
  map := by
    rw [h.map, ← List.foldl_append, movedRedirects, movedRedirects, ← List.filter_append,
      List.filterMap_cons, hred]
    rfl

theorem execHops_copies (hseeds : cfg.clusterSeeds ≠ [])
    (hrun : (execHops cfg f hops slot hint read asking last).Runs tr r) (hno : NoFault tr)
    (hmap : Path Eq MapActs w tr w') :
    ∃ cs, CopyChain cfg f hops hint asking last tr r w w' cs := by
  -- over the hops left; the copies of the rest of the loop start at the redirect's address
  induction hops generalizing slot hint read asking last tr w with
  | zero =>
    obtain ⟨rfl, rfl⟩ := hrun
    cases hmap
    exact ⟨[], {
      events := rfl
      bound := Nat.le_refl 0
      first := fun _ hc => (Option.not_mem_none _ hc).elim
      chain := .nil
      answer := rfl
      settled := fun hlt => absurd hlt (Nat.lt_irrefl 0)
      map := rfl }⟩
  | succ hops ih =>
    obtain ⟨t₁, c, t₂, rfl, hloads, haddr, hask, hbehind⟩ := execHops_runs hseeds hrun hno
    have hback := sending_still hloads hmap
    have hno₂ := (noFault_append.1 (noFault_append.1 (noFault_cons.1 hno).2).2).2
    rcases hbehind with ⟨hnone, rfl, rfl⟩ | ⟨red, t₃, t₄, read', hred, rfl, hupd, hloop⟩
    · cases hback
      refine ⟨[c], .answered hnone ⟨haddr, hask⟩ ?_⟩
      rw [onBackends_sending hloads]
      exact List.append_nil _
    · obtain ⟨w₁, hupdate, hlater⟩ := path_append.1 hback
      -- the update for `MOVED` is on the map only, and the rest of the loop starts behind it
      obtain ⟨hquiet, rfl⟩ := update_behind hupd hupdate
      obtain ⟨cs, hcs⟩ := ih hloop (noFault_append.1 hno₂).2 hlater
      refine ⟨c :: cs, .redirected hred hcs ⟨haddr, hask⟩ ?_⟩
      rw [onBackends_sending hloads, onBackends_append, hquiet, List.nil_append]

/-- **A command along redirects.** Without faults and without other updates of the map: at
most as many copies as hops are allowed are sent, each but the first to the address of the
redirect before it, with `ASKING` ahead on its connection just if that was an `ASK`; the
answer is the first reply that is no redirect, or the last one allowed; and the map is the
one before with the `MOVED` redirects applied in order. -/
theorem exec_copies (hcfg : cfg.Valid) {slot : Nat} {read : Bool} {r : Except Err Value}
    {w w' : MapView} (hrun : (exec cfg slot f read).Runs tr r) (hno : NoFault tr)
    (hmap : Path Eq MapActs w tr w') :
    ∃ cs : List Copy, onBackends tr = cs.flatMap (Copy.events cfg f) ∧
      cs.length ≤ cfg.movedHopLimit ∧ (∀ c ∈ cs.head?, c.asking = none) ∧
      cs.IsChain CopyFollows ∧
      (∃ c ∈ cs.getLast?, r = .ok c.reply ∧
        (redirectOf c.reply = none ∨ cs.length = cfg.movedHopLimit)) ∧
      w' = (movedRedirects cs).foldl MapView.update w := by
  obtain ⟨cs, hcs⟩ := execHops_copies hcfg.seeds hrun hno hmap
  have hhops := hcfg.hops
  refine ⟨cs, hcs.events, hcs.bound, ?_, hcs.chain, ?_, hcs.map⟩
  · intro c hc
    exact Option.isSome_eq_false_iff.1 (hcs.first c hc).2 |> Option.isNone_iff_eq_none.1
  · have hanswer := hcs.answer
    rcases Nat.lt_or_ge cs.length cfg.movedHopLimit with hlt | hge
    · obtain ⟨c, hc, hnone⟩ := hcs.settled hlt
      rw [hc] at hanswer
      exact ⟨c, hc, hanswer, .inl hnone⟩
    · have hne : cs ≠ [] := by
        rintro rfl
        exact absurd (Nat.le_trans hhops hge) (by decide)
      rw [List.getLast?_eq_some_getLast hne] at hanswer
      exact ⟨_, List.getLast?_eq_some_getLast hne, hanswer, .inr (Nat.le_antisymm hcs.bound hge)⟩

/-- Backends that answer with the given replies in turn, and a map of their own. -/
def redirecting : MapView × List Value → (o : Op) → Res o × (MapView × List Value)
  | (w, vs), .load => (w.ptr, (w, vs))
  | (w, vs), .genAdd => (w.gen + 1, ({ w with gen := w.gen + 1 }, vs))
  | (w, vs), .store t => ((), ({ w with ptr := some t }, vs))
  | (w, vs), .read _ _ => (.ok (vs.headD nullBulk), (w, vs.tail))
  | st, o => (calm (fun _ => nullBulk) o, st)

theorem redirecting_acts (st : MapView × List Value) (o : Op) :
    ∃ w, st.1 = w ∧ MapActs w ⟨o, (redirecting st o).1⟩ (redirecting st o).2.1 := by
  refine ⟨st.1, rfl, ?_⟩
  cases o with
  | load | genAdd => exact ⟨rfl, rfl⟩
  | _ => rfl

theorem redirecting_noFault (st : MapView × List Value) (o : Op) :
    ¬ Fault ⟨o, (redirecting st o).1⟩ := by
  cases o <;> exact fun h => h

/-- `MOVED`, then `ASK`, whose `ASKING` is answered with `OK`, then the reply. -/
def movedThenAsk : List Value :=
  [error "MOVED 7 10.0.0.2:6379", error "ASK 7 10.0.0.3:6379", simpleString "OK", integer 1]

def incrFrame : Frame := { argv := [arg "INCR", arg "k"], src := .refresh }

/-- The command is sent three times, and the map has moved once. -/
theorem exec_copies_moved_then_ask :
    ∃ cs : List Copy, onBackends ((exec seeded 7 incrFrame false).exec redirecting
        (⟨none, 0⟩, movedThenAsk)).1.2 = cs.flatMap (Copy.events seeded incrFrame) ∧
      cs.length ≤ 5 ∧ cs.IsChain CopyFollows ∧
      (∃ c ∈ cs.getLast?, ((exec seeded 7 incrFrame false).exec redirecting
        (⟨none, 0⟩, movedThenAsk)).1.1 = .ok c.reply) ∧
      ((exec seeded 7 incrFrame false).exec redirecting (⟨none, 0⟩, movedThenAsk)).1.1 =
        .ok (integer 1) := by
  have hpath : Path Eq MapActs ⟨none, 0⟩ ((exec seeded 7 incrFrame false).exec redirecting
      (⟨none, 0⟩, movedThenAsk)).1.2 _ :=
    exec_path (fun st => st.1) (fun st o _ => redirecting_acts st o) _ (⟨none, 0⟩, movedThenAsk)
      fun _ _ => trivial
  obtain ⟨cs, hevents, hbound, -, hchain, ⟨c, hc, hr, -⟩, -⟩ := exec_copies seeded_valid
    (Prog.exec_runs redirecting (exec seeded 7 incrFrame false) (⟨none, 0⟩, movedThenAsk))
    (Prog.exec_events redirecting_noFault _ _) hpath
  exact ⟨cs, hevents, hbound, hchain, ⟨c, hc, hr⟩, by decide +kernel⟩

end RespProxy.Proxy
