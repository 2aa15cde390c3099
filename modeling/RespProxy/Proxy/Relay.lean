import RespProxy.Proxy.Run

/-! # Replies that are passed on

A cluster node answers `-MOVED` or `-ASK` to a command it cannot serve. `WATCH`,
`EXEC`, `PUBLISH`, `FLUSHDB` and `RANDOMKEY` pass on whatever their last round
trip returned, such an error included.

* `lastReply`: the reply the last round trip of a trace ended with;
* `Settles`: the programs after which it is a function of their result.
-/

namespace RespProxy.Proxy

open Cluster Command Resp Interact

variable {cfg : Config} {tr : Trace}
variable {v : Value}

/-! ## Replies to the client -/

theorem replies_append (tr tr' : Trace) : replies (tr ++ tr') = replies tr ++ replies tr' :=
  List.filterMap_append

/-- A program that writes nothing to the client. -/
abbrev Mute {α : Type} (Q : α → Prop) (p : Prog α) : Prop :=
  Sends anyAnswer (fun _ => True) (fun _ _ => False) Q p

theorem Mute.replies {α : Type} {Q : α → Prop} {p : Prog α} (hp : Mute Q p) {a : α}
    (h : p.Runs tr a) : replies tr = [] ∧ Q a := by
  obtain ⟨htr, ha⟩ := Prog.Ensures.runs hp h fun _ _ => trivial
  refine ⟨List.filterMap_eq_nil_iff.2 ?_, ha⟩
  rintro ⟨o, r⟩ he
  have hfoot := htr _ he
  cases o with
  | cwrite id v => exact hfoot.elim
  | _ => rfl

theorem Quiet.replies (h : Quiet tr) : replies tr = [] := by
  refine List.filterMap_eq_nil_iff.2 ?_
  rintro ⟨o, r⟩ he
  have hfoot := h _ he
  cases o with
  | cwrite id v => exact hfoot.elim
  | _ => rfl

/-! ## Redirect errors -/

/-- An error of the kind `MOVED` or `ASK`. -/
def redirects (v : Value) : Bool := v.equalKind "MOVED" || v.equalKind "ASK"

theorem redirects_of_not_error (h : v.isError = false) : redirects v = false := by
  have hkind : v.errorKind = [] := by simp [Value.errorKind, h]
  rw [redirects, Value.equalKind, Value.equalKind, hkind]
  decide

theorem lit_append (a b : String) : lit (a ++ b) = lit a ++ lit b := by
  simp [lit]

theorem redirects_errOf (e : Err) : redirects (errOf e) = false := by
  have hkind : (errOf e).errorKind = lit "ERR" := by
    show (lit ("ERR " ++ e)).takeWhile (· ≠ 32) = lit "ERR"
    rw [lit_append]
    rfl
  rw [redirects, Value.equalKind, Value.equalKind, hkind]
  decide

theorem not_error_bulkString (b : Slice) : (bulkString b).isError = false := by
  cases b <;> rfl

theorem stripReplyKeys_not_error (h : v.isError = false) (name : String) (db : Nat) :
    (stripReplyKeys name db v).isError = false := by
  have hbulk : (stripBulk db v).isError = false := by
    unfold stripBulk
    split
    · exact h
    · exact not_error_bulkString _
  have hkeys : (stripArrayOfKeys db v).isError = false := by
    unfold stripArrayOfKeys
    split
    · exact h
    · rfl
  have hfirst : (stripFirstArrayKey db v).isError = false := by
    unfold stripFirstArrayKey
    split
    · exact h
    · split
      · exact h
      · rfl
  have hxread : (stripXRead db v).isError = false := by
    unfold stripXRead
    split
    · exact h
    · rfl
  unfold stripReplyKeys
  split
  · exact h
  split
  · exact hkeys
  split
  · split
    · split
      · rfl
      · exact h
    · exact h
  split
  · exact hbulk
  split
  · exact hfirst
  split
  · exact hxread
  · exact h

theorem redirects_clientReply (name : String) (db : Nat) (v : Value) :
    redirects (clientReply name db v) = false := by
  unfold clientReply
  cases h : v.isError with
  | true =>
    rw [if_pos rfl]
    split
    · decide
    · rename_i hkind
      exact Bool.eq_false_iff.2 hkind
  | false =>
    rw [if_neg (by simp)]
    exact redirects_of_not_error (stripReplyKeys_not_error h name db)

theorem redirects_mergeGroups {grs : List (KeyGroup × Value)}
    (h : ∀ gr ∈ grs, gr.2.isError = false) (out : List Value) :
    redirects (mergeGroups grs out) = false := by
  induction grs generalizing out with
  | nil => rfl
  | cons gr grs ih =>
    rw [mergeGroups, h gr List.mem_cons_self, if_neg (by simp)]
    split
    · decide
    · exact ih (fun gr hgr => h gr (List.mem_cons_of_mem _ hgr)) _

/-- Replies without an error among them are merged to no redirect. -/
theorem redirects_mergeFanout {replies : List Value} (h : ∀ v ∈ replies, v.isError = false)
    (fanout : Fanout) (nKeys : Nat) (groups : List KeyGroup) :
    redirects (mergeFanout fanout nKeys groups replies) = false := by
  cases fanout with
  | none => exact (by decide : redirects errCross = false)
  | sum =>
    unfold mergeFanout mergeSum
    dsimp only
    split
    · rename_i r hr
      rw [if_neg (by simp [h r (List.mem_of_find?_eq_some hr)])]
      decide
    · rfl
  | mset =>
    have hnone : replies.find? Value.isError = none :=
      List.find?_eq_none.2 fun v hv => by simp [h v hv]
    unfold mergeFanout mergeMSet
    dsimp only
    rw [hnone]
    decide
  | mget =>
    unfold mergeFanout mergeMGet
    dsimp only
    split
    · decide
    · refine redirects_mergeGroups ?_ _
      intro gr hgr
      exact h gr.2 (List.of_mem_zip hgr).2

theorem redirects_fanoutReply (name : String) (db : Nat) (argv : Argv) (nKeys : Nat)
    (groups : List KeyGroup) (replies : List Value) :
    redirects (fanoutReply name db argv nKeys groups replies) = false := by
  unfold fanoutReply
  split
  · split
    · decide
    · rename_i hkind
      exact Bool.eq_false_iff.2 hkind
  · rename_i hnone
    have hmerge := redirects_mergeFanout
      (fun v hv => Bool.eq_false_iff.2 (List.find?_eq_none.1 hnone v hv)) (fanoutOf argv) nKeys groups
    dsimp only
    split
    · exact hmerge
    · rename_i herr
      exact redirects_of_not_error (stripReplyKeys_not_error (Bool.eq_false_iff.2 herr) name db)

/-- A redirect does not look like a key of a virtual database. -/
theorem not_prefixed_of_redirects (h : redirects v = true) :
    hasVirtualDBPrefix v.str.bytes = false := by
  have hkind : v.errorKind = lit "MOVED" ∨ v.errorKind = lit "ASK" := by
    simpa [redirects, Value.equalKind] using h
  have herr : v.isError = true := by
    by_contra hne
    rw [Value.errorKind, if_neg hne] at hkind
    exact absurd hkind (by decide)
  rw [Value.errorKind, if_pos herr] at hkind
  cases hb : v.str.bytes with
  | nil => rfl
  | cons b bs =>
    have hdb : b ≠ 100 := by
      rintro rfl
      rw [hb, List.takeWhile_cons_of_pos (by decide)] at hkind
      rcases hkind with hkind | hkind <;> cases hkind
    have htake : (b :: bs).take 2 ≠ lit "db" := by
      intro htake
      exact hdb (List.cons.inj htake).1
    rw [hasVirtualDBPrefix, decide_eq_false htake]
    rfl

/-! ## The last reply -/

/-- One event: a reply that is read takes the place of the one before; another request to
a backend, a cancelled context or a deadline that cannot be set leaves none. -/
def settle (last : Option Value) : Event → Option Value
  | ⟨.read _ _, .ok v⟩ => some v
  | ⟨.read _ _, .error _⟩ => none
  | ⟨.get _ _, _⟩ => none
  | ⟨.write _ _, _⟩ => none
  | ⟨.ctxErr, _⟩ => none
  | ⟨.deadline, some _⟩ => none
  | _ => last

/-- The reply the last round trip of a trace ended with, if nothing failed after it. -/
def lastReply (tr : Trace) : Option Value := tr.foldl settle none

/-- There is such a reply, and it is a redirect. -/
def Redirected (last : Option Value) : Prop := ∃ v, last = some v ∧ redirects v = true

theorem not_redirected_none : ¬ Redirected none := by
  rintro ⟨v, hv, -⟩
  cases hv

theorem redirected_some : Redirected (some v) ↔ redirects v = true := by
  simp [Redirected]

/-- The event tells the client nothing and leaves the last reply. -/
def StillEvent (e : Event) : Prop :=
  (∀ last, settle last e = last) ∧ Foot (fun _ => True) (fun _ _ => False) e

/-- A program of such events. -/
abbrev Still {α : Type} (Q : α → Prop) (p : Prog α) : Prop := p.Ensures anyAnswer StillEvent Q

theorem IdleEvent.still {e : Event} (h : IdleEvent e) : StillEvent e := by
  obtain ⟨o, r⟩ := e
  cases o <;> first | exact ⟨fun _ => rfl, trivial⟩ | exact h.elim

theorem Idle.still {α : Type} {Q : α → Prop} {p : Prog α} (h : Idle anyAnswer Q p) : Still Q p :=
  h.mono (fun _ _ he => IdleEvent.still he) fun _ ha => ha

theorem Inner.still {α : Type} {p : Prog α} (h : Inner anyAnswer p) : Still (fun _ => True) p := by
  refine h.mono (fun e _ he => ?_) fun _ ha => ha
  obtain ⟨o, r⟩ := e
  cases o <;> first | exact ⟨fun _ => rfl, trivial⟩ | exact he.elim

theorem settle_still (h : ∀ e ∈ tr, StillEvent e) (last : Option Value) :
    tr.foldl settle last = last := by
  induction tr with
  | nil => rfl
  | cons e tr ih =>
    rw [List.foldl_cons, (h e List.mem_cons_self).1, ih fun e he => h e (List.mem_cons_of_mem _ he)]

/-! ## Round trips -/

/-- However it began, the program ends with the last reply `F` of its result. -/
def Settles {α : Type} (F : α → Option Value) (p : Prog α) : Prop :=
  p.Sat fun tr a => ∀ last, tr.foldl settle last = F a

theorem Settles.bind_still {α β : Type} {F : α → Option Value} {G : β → Option Value}
    {p : Prog α} {f : α → Prog β} (hp : Settles F p)
    (hf : ∀ a, Still (fun b => G b = F a) (f a)) : Settles G (p.bind f) := by
  refine Prog.sat_bind.2 ?_
  intro tr a hr tr' b hr' last
  obtain ⟨hstill, hG⟩ := Prog.Ensures.runs (hf a) hr' fun _ _ => trivial
  rw [List.foldl_append, hp tr a hr last, settle_still hstill, hG]

theorem doFrame_settles (conn : ConnId) (f : Frame) :
    Settles Except.toOption (doFrame conn f) := by
  rintro tr r ⟨x, tr', rfl, h⟩ last
  cases x with
  | some e =>
    obtain ⟨rfl, rfl⟩ := h
    rfl
  | none =>
    obtain ⟨y, _, rfl, rfl, rfl⟩ := h
    cases y <;> rfl

theorem askAndDo_settles (conn : ConnId) (asking : Bool) (f : Frame) :
    Settles Except.toOption (askAndDo conn asking f) := by
  unfold askAndDo
  cases asking with
  | false => exact doFrame_settles conn f
  | true =>
    refine Prog.sat_bind.2 ?_
    intro tr r hr
    cases r with
    | error e =>
      rintro _ _ ⟨rfl, rfl⟩ last
      rw [List.append_nil, doFrame_settles conn _ tr _ hr]
    | ok v =>
      intro tr' r hr' last
      rw [List.foldl_append, doFrame_settles conn f tr' r hr']

theorem hop_settles (addr : Addr) (replica asking : Bool) (f : Frame) :
    Settles Except.toOption (hop cfg addr replica asking f) := by
  rintro tr r ⟨x, tr', rfl, h⟩ last
  cases x with
  | error e =>
    obtain ⟨rfl, rfl⟩ := h
    rfl
  | ok conn =>
    refine (askAndDo_settles conn asking f).bind_still (fun x => ?_) tr' r h _
    cases x <;> exact fun _ _ => ⟨⟨fun _ => rfl, trivial⟩, rfl⟩

/-- `Exec` ends with a redirect exactly if its last hop did. -/
theorem execHops_settles (f : Frame) (hops slot : Nat) (hint : Addr) (read asking : Bool)
    {prev : Value} {last : Option Value} (hlast : Redirected last ↔ redirects prev = true) :
    (execHops cfg f hops slot hint read asking prev).Sat fun tr r =>
      Redirected (tr.foldl settle last) ↔ ∃ v, r = .ok v ∧ redirects v = true := by
  induction hops generalizing slot hint read asking prev last with
  | zero =>
    rintro tr r ⟨rfl, rfl⟩
    simpa using hlast
  | succ hops ih =>
    rintro tr r ⟨x, tr', rfl, h⟩
    -- a fault ends the call with an error, and leaves no reply that counts
    have herr : ∀ e : Err, Redirected none ↔
        ∃ v, (Except.error e : Except Err Value) = .ok v ∧ redirects v = true := by
      intro e
      simp [not_redirected_none]
    rw [List.foldl_cons, show settle last ⟨.ctxErr, x⟩ = none from rfl]
    cases x with
    | some e =>
      obtain ⟨rfl, rfl⟩ := h
      exact herr e
    | none =>
      simp only [Prog.ret_bind] at h
      obtain ⟨t₁, addr, t₂, h₁, h₂, rfl⟩ := Prog.runs_bind.1 h
      have hstill := ((Inner.still (hopAddr_inner slot hint _)).runs h₁ fun _ _ => trivial).1
      rw [List.foldl_append, settle_still hstill]
      cases addr with
      | none =>
        obtain ⟨rfl, rfl⟩ := h₂
        exact herr _
      | some addr =>
        obtain ⟨t₃, x, t₄, hhop, h₃, rfl⟩ := Prog.runs_bind.1 h₂
        rw [List.foldl_append, hop_settles addr _ _ f t₃ x hhop]
        cases x with
        | error e =>
          obtain ⟨rfl, rfl⟩ := h₃
          exact herr e
        | ok v =>
          have hv : Redirected (some v) ↔ redirects v = true := redirected_some
          -- the next hop starts from this reply
          cases hred : redirectOf v with
          | none =>
            simp only [hred] at h₃
            obtain ⟨rfl, rfl⟩ := h₃
            show Redirected (some v) ↔ _
            simpa using hv
          | some red =>
            simp only [hred] at h₃
            split at h₃
            · obtain ⟨t₅, _, t₆, hupd, h₄, rfl⟩ := Prog.runs_bind.1 h₃
              have hstill := (Inner.still (updateSlotAt_inner _ _)).runs hupd fun _ _ => trivial
              rw [List.foldl_append, settle_still hstill.1]
              exact ih _ _ _ _ hv t₆ r h₄
            · exact ih _ _ _ _ hv t₄ r h₃

theorem exec_settles (slot : Nat) (f : Frame) (read : Bool) :
    (exec cfg slot f read).Sat fun tr r =>
      Redirected (lastReply tr) ↔ ∃ v, r = .ok v ∧ redirects v = true :=
  execHops_settles f _ slot "" read false
    ⟨fun h => absurd h not_redirected_none, fun h => absurd h (by decide)⟩

/-- The last of several round trips decides. -/
theorem doFrames_settles (conn : ConnId) (fs : List Frame) {prev : Value} :
    (doFrames conn fs prev).Sat fun tr r => tr.foldl settle (some prev) = r.toOption := by
  induction fs generalizing prev with
  | nil =>
    rintro tr r ⟨rfl, rfl⟩
    rfl
  | cons f fs ih =>
    refine Prog.sat_bind.2 ?_
    intro tr r hr
    cases r with
    | error e =>
      rintro _ _ ⟨rfl, rfl⟩
      rw [List.append_nil, doFrame_settles conn f tr _ hr]
    | ok v =>
      intro tr' r hr'
      rw [List.foldl_append, doFrame_settles conn f tr _ hr]
      exact ih tr' r hr'

/-- A connection to the owner of a slot: no round trip has taken place on it. -/
theorem checkout_settles (slot : Nat) :
    (checkout cfg slot).Sat fun tr _ => lastReply tr = none := by
  refine Prog.sat_bind.2 ?_
  intro tr addr haddr
  have hstill := (Inner.still (owner_inner slot false)).runs haddr fun _ _ => trivial
  cases addr with
  | none =>
    rintro _ _ ⟨rfl, rfl⟩
    rw [List.append_nil, lastReply, settle_still hstill.1]
  | some addr =>
    rintro _ _ ⟨x, _, rfl, rfl, rfl⟩
    rw [lastReply, List.foldl_append]
    rfl

theorem ensurePin_settles (s : Session) (slot : Nat) :
    (ensurePin cfg s slot).Sat fun tr _ => lastReply tr = none := by
  unfold ensurePin
  cases s.pin with
  | some conn =>
    rintro _ _ ⟨rfl, rfl⟩
    rfl
  | none =>
    refine Prog.sat_bind.2 ?_
    intro tr r hr
    have hnone := checkout_settles slot tr r hr
    cases r with
    | error e =>
      rintro _ _ ⟨rfl, rfl⟩
      rwa [List.append_nil]
    | ok conn =>
      rintro _ _ ⟨x, _, rfl, rfl, rfl⟩
      rw [lastReply, List.foldl_append]
      exact hnone

end RespProxy.Proxy
