import RespProxy.Proxy.Fleet

/-! # The plan of a group

What a group does to the commands of its own that write a key: they are written once,
in order, on one connection; those that come back with a redirect are written again,
one after the other, each when the one before is answered. `Plan` says so of the
program `flushGroup`, stage by stage.
-/

namespace RespProxy.Proxy

open Cluster Command Resp Interact

variable {cfg : Config} {B : Backends} {k : Bytes}
variable {g : Frame} {slot : Nat}

/-! ## Stages of a group -/

/-- The command writes the key. -/
def Touches (B : Backends) (k : Bytes) (f : Frame) : Bool := decide (k ∈ B.writes f.argv)

/-- The commands that write the key, in order. -/
def touching (B : Backends) (k : Bytes) (fs : List Frame) : List Origin :=
  (fs.filter (Touches B k)).map Frame.src

/-- A command that writes the key and is redirected. -/
def redirected (B : Backends) (k : Bytes) (f : Frame) (v : Value) : List Origin :=
  if (redirectOf v).isSome then touching B k [f] else []

/-- Where a group is, with the commands that write the key. -/
inductive Stage where
  /-- nothing is under way; `todo` may still be written, on the connection `conn` or another -/
  | calm (conn : Option ConnId) (todo : List Origin)
  /-- `fs` is written and not read; `back` came back, `todo` has its turn later -/
  | awaiting (c : ConnId) (fs : List Frame) (back todo : List Origin)
  /-- it has failed on the connection `spilt` -/
  | failed (conn : Option ConnId) (spilt : ConnId)

/-- The connection a group has checked out. -/
def Stage.conn : Stage → Option ConnId
  | .calm conn _ => conn
  | .awaiting c _ _ _ => some c
  | .failed conn _ => conn

/-- Requests that leave connections alone. -/
def Aside : Op → Prop
  | .get _ _ | .put _ | .drop _ | .write _ _ | .read _ _ => False
  | _ => True

/-- All keys the command writes have one slot. -/
def OneSlot (cfg : Config) (B : Backends) (k : Bytes) (f : Frame) : Prop :=
  k ∈ B.writes f.argv → ∀ k' ∈ B.writes f.argv, keyOf cfg k' = keyOf cfg k

/-- The program goes on from the stage. -/
inductive Plan (cfg : Config) (B : Backends) (k : Bytes) {α : Type} : Stage → Prog α → Prop where
  | ret {todo : List Origin} (a : α) : Plan cfg B k (.calm none todo) (.ret a)
  | failed {c : ConnId} (a : α) : Plan cfg B k (.failed none c) (.ret a)
  | aside {conn : Option ConnId} {todo : List Origin} {o : Op} {next : Res o → Prog α}
      (ho : Aside o) (h : ∀ r, Plan cfg B k (.calm conn todo) (next r)) :
      Plan cfg B k (.calm conn todo) (.call o next)
  | get {todo : List Origin} {addr : Addr} {replica : Bool}
      {next : Except Err ConnId → Prog α} (herr : ∀ e, Plan cfg B k (.calm none todo) (next (.error e)))
      (hok : ∀ c, Plan cfg B k (.calm (some c) todo) (next (.ok c))) :
      Plan cfg B k (.calm none todo) (.call (.get addr replica) next)
  | put {c : ConnId} {todo : List Origin} {next : Unit → Prog α}
      (h : Plan cfg B k (.calm none todo) (next ())) :
      Plan cfg B k (.calm (some c) todo) (.call (.put c) next)
  | drop {c : ConnId} {next : Unit → Prog α} (h : Plan cfg B k (.failed none c) (next ())) :
      Plan cfg B k (.failed (some c) c) (.call (.drop c) next)
  | write {c : ConnId} {fs : List Frame} {todo : List Origin} {next : Option Err → Prog α}
      (hslot : ∀ f ∈ fs, OneSlot cfg B k f)
      (herr : ∀ e, Plan cfg B k (.failed (some c) c) (next (some e)))
      (hok : Plan cfg B k (.awaiting c fs [] todo) (next none)) :
      Plan cfg B k (.calm (some c) (touching B k fs ++ todo)) (.call (.write c fs) next)
  | read {c : ConnId} {f : Frame} {fs : List Frame} {back todo : List Origin}
      {next : Except Err Value → Prog α}
      (herr : ∀ e, Plan cfg B k (.failed (some c) c) (next (.error e)))
      (hok : ∀ v, Plan cfg B k (.awaiting c fs (back ++ redirected B k f v) todo) (next (.ok v))) :
      Plan cfg B k (.awaiting c (f :: fs) back todo) (.call (.read c f) next)
  /-- all replies are read -/
  | answered {c : ConnId} {back todo : List Origin} {p : Prog α}
      (h : Plan cfg B k (.calm (some c) (back ++ todo)) p) :
      Plan cfg B k (.awaiting c [] back todo) p
  /-- some commands are not written again -/
  | skip {conn : Option ConnId} {todo todo' : List Origin} {p : Prog α}
      (hsub : todo'.Sublist todo) (h : Plan cfg B k (.calm conn todo') p) :
      Plan cfg B k (.calm conn todo) p

/-! ## `flushGroup` -/

section

variable {α : Type} {todo back : List Origin} {c : ConnId} {f : Except Err Value → Prog α}

theorem touching_append (fs fs' : List Frame) :
    touching B k (fs ++ fs') = touching B k fs ++ touching B k fs' := by
  simp [touching]

theorem touching_cons (f : Frame) (fs : List Frame) :
    touching B k (f :: fs) = touching B k [f] ++ touching B k fs :=
  touching_append [f] fs

theorem owner_plan {read : Bool} {conn : Option ConnId} {f : Option Addr → Prog α}
    (h : ∀ a, Plan cfg B k (.calm conn todo) (f a)) :
    Plan cfg B k (.calm conn todo) ((owner cfg slot read).bind f) := by
  refine .aside trivial fun t => ?_
  simp only [Prog.pure_eq, Prog.ret_bind]
  split
  · exact h _
  · exact .aside trivial fun _ => h _

theorem updateSlotAt_plan {addr : Addr} {conn : Option ConnId} {f : Unit → Prog α}
    (h : Plan cfg B k (.calm conn todo) (f ())) :
    Plan cfg B k (.calm conn todo) ((updateSlotAt slot addr).bind f) :=
  .aside trivial fun _ => .aside trivial fun _ => .aside trivial fun _ => h

theorem hopAddr_plan {hint : Addr} {read : Bool} {conn : Option ConnId}
    {f : Option Addr → Prog α} (h : ∀ a, Plan cfg B k (.calm conn todo) (f a)) :
    Plan cfg B k (.calm conn todo) ((hopAddr cfg slot hint read).bind f) := by
  unfold hopAddr
  split
  · exact h _
  · exact owner_plan h

/-- One round trip. -/
theorem doFrame_plan (hg : OneSlot cfg B k g)
    (herr : ∀ e, Plan cfg B k (.failed (some c) c) (f (.error e)))
    (hok : ∀ v, Plan cfg B k (.calm (some c) (redirected B k g v ++ todo)) (f (.ok v))) :
    Plan cfg B k (.calm (some c) (touching B k [g] ++ todo)) ((doFrame c g).bind f) := by
  refine .write (fun g' hg' => List.mem_singleton.1 hg' ▸ hg) herr ?_
  exact .read herr fun v => .answered (hok v)

theorem touching_asking (g : Frame) : touching B k [askingFrame g] = [] := by
  simp [touching, Touches, askingFrame, B.asking]

theorem askAndDo_plan (hg : OneSlot cfg B k g) (asking : Bool)
    (herr : ∀ e, Plan cfg B k (.failed (some c) c) (f (.error e)))
    (hok : ∀ v, Plan cfg B k (.calm (some c) (redirected B k g v ++ todo)) (f (.ok v))) :
    Plan cfg B k (.calm (some c) (touching B k [g] ++ todo)) ((askAndDo c asking g).bind f) := by
  unfold askAndDo
  split
  · rw [Prog.bind_eq, Prog.bind_assoc, ← List.nil_append (touching B k [g] ++ todo),
      ← touching_asking g]
    refine doFrame_plan (fun h => by simp [askingFrame, B.asking] at h) herr fun v => ?_
    have hnone : redirected B k (askingFrame g) v = [] := by
      unfold redirected
      rw [touching_asking, ite_self]
    rw [hnone]
    exact doFrame_plan hg herr hok
  · exact doFrame_plan hg herr hok

theorem hop_plan (hg : OneSlot cfg B k g) (addr : Addr) (replica asking : Bool)
    (herr : ∀ e, ∃ a, f (.error e) = .ret a)
    (hok : ∀ v, Plan cfg B k (.calm none (redirected B k g v ++ todo)) (f (.ok v))) :
    Plan cfg B k (.calm none (touching B k [g] ++ todo))
      ((hop cfg addr replica asking g).bind f) := by
  refine .get (fun e => ?_) fun c => ?_
  · obtain ⟨a, ha⟩ := herr e
    show Plan cfg B k _ (f (.error e))
    rw [ha]
    exact .ret a
  · show Plan cfg B k _ (((askAndDo c asking g).bind _).bind f)
    rw [Prog.bind_assoc]
    refine askAndDo_plan hg asking (fun e => ?_) fun v => .put (hok v)
    obtain ⟨a, ha⟩ := herr e
    refine .drop ?_
    show Plan cfg B k _ (f (.error e))
    rw [ha]
    exact .failed a

/-- A command is written hop by hop, as long as it is redirected. -/
theorem execHops_plan (hg : OneSlot cfg B k g)
    (herr : ∀ e, ∃ a, f (.error e) = .ret a) (hok : ∀ v, Plan cfg B k (.calm none todo) (f (.ok v)))
    (hops slot : Nat) (hint : Addr) (read asking : Bool) (last : Value) :
    Plan cfg B k (.calm none (touching B k [g] ++ todo))
      ((execHops cfg g hops slot hint read asking last).bind f) := by
  have hfail : ∀ e todo, Plan cfg B k (.calm none todo) (f (.error e)) := by
    intro e todo
    obtain ⟨a, ha⟩ := herr e
    rw [ha]
    exact .ret a
  induction hops generalizing slot hint read asking last with
  | zero => exact .skip (List.sublist_append_right _ _) (hok last)
  | succ hops ih =>
    refine .aside trivial fun r => ?_
    cases r with
    | some e => exact hfail e _
    | none =>
      show Plan cfg B k _ (((hopAddr cfg slot hint (read && !asking)).bind _).bind f)
      rw [Prog.bind_assoc]
      refine hopAddr_plan fun a => ?_
      cases a with
      | none => exact hfail _ _
      | some addr =>
        show Plan cfg B k _ (((hop cfg addr _ asking g).bind _).bind f)
        rw [Prog.bind_assoc]
        refine hop_plan hg addr _ asking herr fun v => ?_
        dsimp only
        unfold redirected
        cases hred : redirectOf v with
        | none => exact hok v
        | some red =>
          rw [if_pos (show (some red).isSome = true from rfl)]
          dsimp only
          split
          · rw [Prog.bind_eq, Prog.bind_assoc]
            exact updateSlotAt_plan (ih _ _ _ _ _)
          · exact ih _ _ _ _ _

/-- The redirected commands of a group, in order. -/
def comeBack (B : Backends) (k : Bytes) (xs : List (SendItem × Value)) : List Origin :=
  xs.flatMap fun x => redirected B k x.1.frame x.2

theorem followRedirects_plan {xs : List (SendItem × Value)}
    (hslot : ∀ x ∈ xs, OneSlot cfg B k x.1.frame) {f : Except Err (List Value) → Prog α}
    (hf : ∀ r todo, Plan cfg B k (.calm none todo) (f r))
    (herr : ∀ e, ∃ a, f (.error e) = .ret a) :
    Plan cfg B k (.calm none (comeBack B k xs)) ((followRedirects cfg xs).bind f) := by
  induction xs generalizing f with
  | nil => exact hf _ _
  | cons x xs ih =>
    obtain ⟨it, v⟩ := x
    show Plan cfg B k _ (((followOne cfg it v).bind _).bind f)
    rw [Prog.bind_assoc]
    -- the commands behind it, with what is made of their replies
    have hrest : ∀ h : Except Err (List Value) → Prog (Except Err (List Value)),
        (∀ r, ∃ r', h r = .ret r') → (∀ e, h (.error e) = .ret (.error e)) →
        Plan cfg B k (.calm none (comeBack B k xs)) (((followRedirects cfg xs).bind h).bind f) := by
      intro h hret hh
      rw [Prog.bind_assoc]
      refine ih (fun y hy => hslot y (List.mem_cons_of_mem _ hy)) (fun r todo => ?_) fun e => ?_
      · obtain ⟨r', hr'⟩ := hret r
        rw [hr']
        exact hf r' todo
      · rw [hh e]
        exact herr e
    show Plan cfg B k (.calm none (redirected B k it.frame v ++ comeBack B k xs)) _
    unfold followOne redirected
    cases hred : redirectOf v with
    | none => exact hrest _ (fun r => by cases r <;> exact ⟨_, rfl⟩) fun _ => rfl
    | some red =>
      have hg : OneSlot cfg B k { it.frame with raw := [] } := hslot (it, v) List.mem_cons_self
      have htouch : touching B k [it.frame] = touching B k [{ it.frame with raw := [] }] := by
        simp [touching, Touches, List.filter_cons, apply_ite]
      rw [if_pos (show (some red).isSome = true from rfl), htouch]
      refine execHops_plan hg (fun e => ?_) (fun v' => ?_) _ _ _ _ _ _
      · exact herr e
      · exact hrest _ (fun r => by cases r <;> exact ⟨_, rfl⟩) fun _ => rfl

/-- The read loop. -/
theorem readReplies_plan (its : List SendItem) {f : Except Err (List Value) → Prog α}
    (herr : ∀ e, Plan cfg B k (.failed (some c) c) (f (.error e)))
    (hok : ∀ vs, vs.length = its.length →
      Plan cfg B k (.calm (some c) (back ++ comeBack B k (its.zip vs) ++ todo)) (f (.ok vs))) :
    Plan cfg B k (.awaiting c (its.map SendItem.frame) back todo)
      ((readReplies c its).bind f) := by
  induction its generalizing f back with
  | nil =>
    refine .answered ?_
    have hnil := hok [] rfl
    simp only [comeBack, List.zip_nil_left, List.flatMap_nil, List.append_nil] at hnil
    exact hnil
  | cons it its ih =>
    refine .read herr fun v => ?_
    show Plan cfg B k _ (((readReplies c its).bind _).bind f)
    rw [Prog.bind_assoc]
    refine ih herr fun vs hvs => ?_
    simpa [comeBack] using hok (v :: vs) (by simp [hvs])

/-- **A group.** -/
theorem flushGroup_plan (addr : Addr) {its : List SendItem}
    (hslot : ∀ it ∈ its, OneSlot cfg B k it.frame) :
    Plan cfg B k (.calm none (touching B k (its.map SendItem.frame)))
      (flushGroup cfg addr its) := by
  refine .get (fun e => .ret _) fun c => ?_
  show Plan cfg B k (.calm (some c) _) (Prog.call (.write c (its.map SendItem.frame)) _)
  rw [← List.append_nil (touching B k _)]
  refine .write ?_ (fun e => .drop (.failed _)) ?_
  · intro f hf
    obtain ⟨it, hit, rfl⟩ := List.mem_map.1 hf
    exact hslot it hit
  · refine readReplies_plan its (fun e => .drop (.failed _)) fun vs hvs => .put ?_
    rw [List.nil_append, List.append_nil, ← Prog.bind_ret (followRedirects cfg _)]
    refine followRedirects_plan ?_ (fun r _ => .ret r) fun e => ⟨_, rfl⟩
    intro x hx
    exact hslot x.1 (List.of_mem_zip hx).1

end

end RespProxy.Proxy
