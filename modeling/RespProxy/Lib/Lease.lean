import Mathlib.Logic.Function.Basic
import RespProxy.Lib.Interact

/-! # Leases

Threads check connections out of a pool, ask for replies over them, take the replies in
order, and give the connections back or retire them for good. A connection comes to a
thread without anything outstanding, as far as the thread can tell, and it should go back
that way.

* `Book`: who has which connection, with the replies still to come. An action is `fair` if
  the pool hands out what is nobody's, and `good` if the thread keeps to the rules;
* `Safe`: along a trace every action is good, as long as all of them so far were fair. The
  rules for programs (`Tidy`) are about this;
* `Safe.shuffle`: threads that are safe on books of their own are safe together, because
  what they hold never overlaps (`Split`);
* `Safe.settled`: on the wire of a connection, whoever has had it, nothing is outstanding
  when it is given back, and the reply a thread takes is the one it waits for.
-/

namespace Lease

open Interact

/-- Where a connection is: in the pool, with a thread that has replies `q` to come, or out
of use. -/
inductive Status (T : Type) where
  | away
  | held (q : List T)
  | off

/-- What is done to a connection. -/
inductive Kind (T : Type) where
  | take
  | give
  /-- close it, or put it to another use -/
  | retire
  /-- ask for replies -/
  | send (ts : List T)
  /-- take a reply for the one to `t` -/
  | recv (t : T)
  /-- learn of connections in another use -/
  | see

structure Act (C T : Type) where
  kind : Kind T
  conns : List C

variable {C T E : Type}

/-- The replies to come on a connection that is held. -/
def Status.queue : Status T → Option (List T)
  | .held q => some q
  | _ => none

theorem Status.held_ne_away (q : List T) : Status.held q ≠ .away := by
  intro h
  cases h

theorem Status.off_ne_away : (Status.off : Status T) ≠ .away := by
  intro h
  cases h

instance decidableAway : (s : Status T) → Decidable (s = .away)
  | .away => .isTrue rfl
  | .held q => .isFalse (Status.held_ne_away q)
  | .off => .isFalse Status.off_ne_away

namespace Kind

def effect : Kind T → Status T → Status T
  | .take, _ => .held []
  | .give, _ => .away
  | .retire, _ | .see, _ => .off
  | .send ts, .held q => .held (q ++ ts)
  | .recv _, .held q => .held q.tail
  | _, s => s

/-- What the pool owes a thread. -/
def Admits : Kind T → Status T → Prop
  | .take, s => s = .away
  | .see, s => s.queue = none
  | _, _ => True

instance decidableAdmits : (k : Kind T) → (s : Status T) → Decidable (k.Admits s)
  | .take, s => inferInstanceAs (Decidable (s = .away))
  | .see, s => inferInstanceAs (Decidable (s.queue = none))
  | .give, _ | .retire, _ | .send _, _ | .recv _, _ => .isTrue trivial

/-- What a thread owes the others. -/
def Suits : Kind T → Status T → Prop
  | .give, s => s = .held []
  | .retire, s | .send _, s => s ≠ .away
  | .recv t, s => ∃ q, s = .held (t :: q)
  | _, _ => True

/-- The replies outstanding on the wire. -/
def wire : Kind T → List T → List T
  | .send ts, q => q ++ ts
  | .recv _, q => q.tail
  | _, q => q

end Kind

abbrev Book (C T : Type) := C → Status T

section

variable [DecidableEq C]

def Book.step (b : Book C T) (a : Act C T) : Book C T :=
  fun c => if c ∈ a.conns then a.kind.effect (b c) else b c

def Act.Fair (a : Act C T) (b : Book C T) : Prop := ∀ c ∈ a.conns, a.kind.Admits (b c)

def Act.Good (a : Act C T) (b : Book C T) : Prop := ∀ c ∈ a.conns, a.kind.Suits (b c)

/-- Along the trace the pool keeps to its part. -/
def Fairly (act : E → Act C T) : Book C T → List E → Prop
  | _, [] => True
  | b, e :: tr => (act e).Fair b ∧ Fairly act (b.step (act e)) tr

instance decidableFairly (act : E → Act C T) :
    (b : Book C T) → (tr : List E) → Decidable (Fairly act b tr)
  | _, [] => .isTrue trivial
  | b, e :: tr =>
    have : Decidable (Fairly act (b.step (act e)) tr) := decidableFairly act _ tr
    have : Decidable ((act e).Fair b) :=
      inferInstanceAs (Decidable (∀ c ∈ (act e).conns, (act e).kind.Admits (b c)))
    inferInstanceAs (Decidable (_ ∧ _))

/-- Every action of the trace is good, as long as the pool keeps to its part and the
events meet `A`; at the end the book satisfies `Q`. -/
def Safe (act : E → Act C T) (A : E → Prop) (Q : Book C T → Prop) : Book C T → List E → Prop
  | b, [] => Q b
  | b, e :: tr => A e → (act e).Fair b → (act e).Good b ∧ Safe act A Q (b.step (act e)) tr

variable {act : E → Act C T} {A : E → Prop} {Q Q' : Book C T → Prop} {b : Book C T}
variable {ss : Nat → Status T} {s : Status T} {bs : Nat → Book C T} {k : Kind T} {i : Nat}

theorem Safe.mono {tr : List E} (h : Safe act A Q b tr) (hQ : ∀ b, Q b → Q' b) :
    Safe act A Q' b tr := by
  induction tr generalizing b with
  | nil => exact hQ b h
  | cons e tr ih => exact fun hA hfair => ⟨(h hA hfair).1, ih (h hA hfair).2⟩

theorem safe_append {tr tr' : List E} :
    Safe act A Q b (tr ++ tr') ↔ Safe act A (fun b' => Safe act A Q b' tr') b tr := by
  induction tr generalizing b with
  | nil => rfl
  | cons e tr ih =>
    refine forall₂_congr fun _ _ => and_congr_right fun _ => ?_
    exact ih

/-- A trace cut short. -/
theorem Safe.left {tr tr' : List E} (h : Safe act A Q b (tr ++ tr')) :
    Safe act A (fun _ => True) b tr :=
  (safe_append.1 h).mono fun _ _ => trivial

/-! ## Threads -/

/-- The status of a connection, and what each thread has of it: one of them may hold it,
and of a connection out of use some may know. -/
inductive Share : Status T → (Nat → Status T) → Prop where
  | away {ss : Nat → Status T} (h : ∀ i, ss i = .away) : Share .away ss
  | held {ss : Nat → Status T} {q : List T} (i : Nat) (hi : ss i = .held q)
      (h : ∀ j, j ≠ i → ss j = .away) : Share (.held q) ss
  | off {ss : Nat → Status T} (h : ∀ i, ss i = .away ∨ ss i = .off) : Share .off ss

/-- The book is shared between the threads. -/
def Split (b : Book C T) (bs : Nat → Book C T) : Prop := ∀ c, Share (b c) fun i => bs i c

/-- Only the thread that has a connection can say something of it that is not `away`. -/
theorem Share.eq_held (h : Share s ss)
    {q : List T} (hi : ss i = .held q) : s = .held q ∧ ∀ j, j ≠ i → ss j = .away := by
  cases h with
  | away h => cases (h i).symm.trans hi
  | @held _ q' j hj h =>
    rcases eq_or_ne i j with rfl | hij
    · cases hj.symm.trans hi
      exact ⟨rfl, h⟩
    · cases (h i hij).symm.trans hi
  | off h => rcases h i with h | h <;> cases h.symm.trans hi

theorem Share.eq_off (h : Share s ss)
    (hi : ss i = .off) : s = .off ∧ ∀ j, ss j = .away ∨ ss j = .off := by
  cases h with
  | away h => cases (h i).symm.trans hi
  | @held _ q' j hj h =>
    rcases eq_or_ne i j with rfl | hij
    · cases hj.symm.trans hi
    · cases (h i hij).symm.trans hi
  | off h => exact ⟨rfl, h⟩

/-- What the pool owes all threads together it owes each one. -/
theorem Share.admits (h : Share s ss) (i : Nat) (hk : k.Admits s) : k.Admits (ss i) := by
  cases k with
  | take =>
    cases hk
    cases h with
    | away h => exact h i
  | see =>
    cases h with
    | away h => exact congrArg Status.queue (h i)
    | held => cases hk
    | off h =>
      rcases h i with h | h
      · exact congrArg Status.queue h
      · exact congrArg Status.queue h
  | give | retire | send | recv => trivial

/-- What a thread owes the others, on what all of them have. -/
theorem Share.suits (h : Share s ss) (hk : k.Suits (ss i)) : k.Suits s := by
  have hne : ss i ≠ .away → s ≠ .away := by
    intro hi hs
    subst hs
    cases h with
    | away h => exact hi (h i)
  cases k with
  | give => exact (h.eq_held hk).1
  | recv t =>
    obtain ⟨q, hq⟩ := hk
    exact ⟨q, (h.eq_held hq).1⟩
  | retire | send => exact hne hk
  | take | see => trivial

/-- One thread acts, and the connection stays shared. -/
theorem Share.step (h : Share s ss) (hadmits : k.Admits s) (hsuits : k.Suits (ss i)) :
    Share (k.effect s) (Function.update ss i (k.effect (ss i))) := by
  -- the others have nothing, or know that it is out of use
  have hheld : ∀ q, (∀ j, j ≠ i → ss j = .away) →
      Share (.held q) (Function.update ss i (.held q)) := by
    intro q hothers
    refine .held i (Function.update_self ..) fun j hj => ?_
    rw [Function.update_of_ne hj]
    exact hothers j hj
  have hoff : (∀ j, j ≠ i → ss j = .away ∨ ss j = .off) →
      Share .off (Function.update ss i .off) := by
    intro hothers
    refine .off fun j => ?_
    rcases eq_or_ne j i with rfl | hj
    · exact .inr (Function.update_self ..)
    · rw [Function.update_of_ne hj]
      exact hothers j hj
  cases k with
  | take =>
    cases hadmits
    cases h with
    | away h => exact hheld [] fun j _ => h j
  | give =>
    obtain ⟨rfl, hothers⟩ := h.eq_held hsuits
    refine .away fun j => ?_
    rcases eq_or_ne j i with rfl | hj
    · exact Function.update_self ..
    · rw [Function.update_of_ne hj]
      exact hothers j hj
  | retire =>
    refine hoff fun j hj => ?_
    cases hi : ss i with
    | away => exact absurd hi hsuits
    | held q => exact .inl ((h.eq_held hi).2 j hj)
    | off => exact (h.eq_off hi).2 j
  | send ts =>
    cases hi : ss i with
    | away => exact absurd hi hsuits
    | held q =>
      obtain ⟨rfl, hothers⟩ := h.eq_held hi
      exact hheld (q ++ ts) hothers
    | off =>
      obtain ⟨rfl, hothers⟩ := h.eq_off hi
      exact hoff fun j _ => hothers j
  | recv t =>
    obtain ⟨q, hq⟩ := hsuits
    obtain ⟨rfl, hothers⟩ := h.eq_held hq
    rw [hq]
    exact hheld q hothers
  | see =>
    refine hoff fun j _ => ?_
    cases h with
    | away h => exact .inl (h j)
    | held => cases hadmits
    | off h => exact h j

theorem Split.step (h : Split b bs) {a : Act C T} (hfair : a.Fair b) (hgood : a.Good (bs i)) :
    Split (b.step a) (Function.update bs i ((bs i).step a)) := by
  intro c
  have hat : (fun j => Function.update bs i ((bs i).step a) j c) =
      Function.update (fun j => bs j c) i ((bs i).step a c) := by
    funext j
    rcases eq_or_ne j i with rfl | hj
    · rw [Function.update_self, Function.update_self]
    · rw [Function.update_of_ne hj, Function.update_of_ne hj]
  rw [hat]
  unfold Book.step
  split
  · next hc => exact (h c).step (hfair c hc) (hgood c hc)
  · rw [Function.update_eq_self]
    exact h c

omit [DecidableEq C] in
/-- One thread has all there is. -/
theorem split_alone (b : Book C T) (n : Nat) : Split b (Function.update (fun _ _ => .away) n b) := by
  intro c
  have hn : Function.update (fun _ _ => .away) n b n c = b c := by rw [Function.update_self]
  have hothers : ∀ i, i ≠ n → Function.update (fun _ _ => .away) n b i c = .away := by
    intro i hi
    rw [Function.update_of_ne hi]
  cases hb : b c with
  | held q => exact .held n (hn.trans hb) hothers
  | away =>
    refine .away fun i => ?_
    rcases eq_or_ne i n with rfl | hi
    · exact hn.trans hb
    · exact hothers i hi
  | off =>
    refine .off fun i => ?_
    rcases eq_or_ne i n with rfl | hi
    · exact .inr (hn.trans hb)
    · exact .inl (hothers i hi)

omit [DecidableEq C] in
/-- A thread holds all that is held, if the others hold nothing. -/
theorem Split.queue (h : Split b bs) {n : Nat} {c : C}
    (hothers : ∀ i, i ≠ n → (bs i c).queue = none) : (b c).queue = (bs n c).queue := by
  have hshare := h c
  generalize b c = s at hshare
  cases hshare with
  | away h => exact (congrArg Status.queue (h n)).symm
  | @held _ q i hi _ =>
    rcases eq_or_ne i n with rfl | hne
    · exact (congrArg Status.queue hi).symm
    · cases (hothers i hne).symm.trans (congrArg Status.queue hi)
  | off h =>
    rcases h n with h | h
    · exact (congrArg Status.queue h).symm
    · exact (congrArg Status.queue h).symm

/-- Threads that are safe on books of their own are safe together. A book that no thread
has (`ls.length ≤ i`) stays as it is. -/
theorem Safe.shuffle {ls : List (List E)} {tr : List E} (hs : Shuffle ls tr)
    {Q : Nat → Book C T → Prop} (hsplit : Split b bs)
    (h : ∀ i l, ls[i]? = some l → Safe act A (Q i) (bs i) l) :
    Safe act A (fun b' => ∃ bs', Split b' bs' ∧ (∀ i, i < ls.length → Q i (bs' i)) ∧
      ∀ i, ls.length ≤ i → bs' i = bs i) b tr := by
  induction hs generalizing b bs with
  | @nil ls hempty =>
    refine ⟨bs, hsplit, fun i hi => ?_, fun _ _ => rfl⟩
    have hl := List.getElem?_eq_getElem hi
    have hsafe := h i _ hl
    rw [hempty _ (List.mem_of_getElem? hl)] at hsafe
    exact hsafe
  | @cons ls tr e l i hi _ ih =>
    intro hA hfair
    have hlt : i < ls.length := (List.getElem?_eq_some_iff.1 hi).1
    have hlocal : (act e).Fair (bs i) := fun c hc => (hsplit c).admits i (hfair c hc)
    obtain ⟨hgood, hrest⟩ := h i _ hi hA hlocal
    refine ⟨fun c hc => (hsplit c).suits (hgood c hc), ?_⟩
    have hthreads : ∀ j l', (ls.set i l)[j]? = some l' →
        Safe act A (Q j) (Function.update bs i ((bs i).step (act e)) j) l' := by
      intro j l' hj
      rcases eq_or_ne j i with rfl | hji
      · rw [List.getElem?_set_self hlt] at hj
        cases hj
        rw [Function.update_self]
        exact hrest
      · rw [List.getElem?_set_ne hji.symm] at hj
        rw [Function.update_of_ne hji]
        exact h j l' hj
    refine (ih (hsplit.step hfair hgood) hthreads).mono ?_
    rintro b' ⟨bs', hsplit', hQ, hframe⟩
    rw [List.length_set] at hQ hframe
    refine ⟨bs', hsplit', hQ, fun j hj => ?_⟩
    rw [hframe j hj, Function.update_of_ne (by omega)]

/-! ## The wire -/

/-- The replies still to come on a connection after a trace, whoever asked for them. -/
def outstanding (act : E → Act C T) (tr : List E) (c : C) : List T :=
  tr.foldl (fun q e => if c ∈ (act e).conns then (act e).kind.wire q else q) []

@[simp] theorem outstanding_append_singleton (tr : List E) (e : E) (c : C) :
    outstanding act (tr ++ [e]) c =
      if c ∈ (act e).conns then (act e).kind.wire (outstanding act tr c)
      else outstanding act tr c := by
  simp [outstanding]

/-- What the wire of a connection looks like: nothing is outstanding in the pool, and
nothing but what its holder expects. -/
def Status.Agrees : Status T → List T → Prop
  | .away, w => w = []
  | .held q, w => w = q
  | .off, _ => True

theorem Status.Agrees.step {w : List T} (h : s.Agrees w)
    (hadmits : k.Admits s) (hsuits : k.Suits s) : (k.effect s).Agrees (k.wire w) := by
  cases k with
  | take =>
    cases hadmits
    exact h
  | give =>
    cases hsuits
    exact h
  | retire | see => trivial
  | send ts =>
    cases s with
    | away => exact absurd rfl hsuits
    | held q => exact congrArg (· ++ ts) h
    | off => trivial
  | recv t =>
    obtain ⟨q, rfl⟩ := hsuits
    exact congrArg List.tail h

/-- At every action of a safe trace, the wires of its connections agree with a status that
suits the action. -/
theorem Safe.settled {tr tr₁ tr₂ : List E} {e : E}
    (h : Safe act A Q (fun _ => .away) tr) (hA : ∀ e ∈ tr, A e)
    (hfair : Fairly act (fun _ => .away) tr) (htr : tr = tr₁ ++ e :: tr₂) :
    ∀ c ∈ (act e).conns, ∃ s : Status T, s.Agrees (outstanding act tr₁ c) ∧ (act e).kind.Suits s := by
  -- over the trace, from a book that agrees with the wires so far (`pre`)
  have aux : ∀ (tr pre tr₁ : List E) (b : Book C T), tr = tr₁ ++ e :: tr₂ →
      Safe act A Q b tr → (∀ e ∈ tr, A e) → Fairly act b tr →
      (∀ c, (b c).Agrees (outstanding act pre c)) →
      ∀ c ∈ (act e).conns, ∃ s : Status T,
        s.Agrees (outstanding act (pre ++ tr₁) c) ∧ (act e).kind.Suits s := by
    intro tr
    induction tr with
    | nil =>
      intro pre tr₁ b htr
      simp at htr
    | cons d tr ih =>
      intro pre tr₁ b htr h hA hfair hagrees
      obtain ⟨hgood, hrest⟩ := h (hA d List.mem_cons_self) hfair.1
      cases tr₁ with
      | nil =>
        cases htr
        intro c hc
        rw [List.append_nil]
        exact ⟨b c, hagrees c, hgood c hc⟩
      | cons d' tr₁ =>
        cases htr
        have hstep := ih (pre ++ [d]) tr₁ (b.step (act d)) rfl hrest
          (fun e he => hA e (List.mem_cons_of_mem _ he)) hfair.2 ?_
        · rwa [List.append_assoc] at hstep
        · intro c
          rw [outstanding_append_singleton]
          unfold Book.step
          split
          · next hc => exact (hagrees c).step (hfair.1 c hc) (hgood c hc)
          · exact hagrees c
  exact aux tr [] tr₁ _ htr h hA hfair fun _ => rfl

end

/-! ## Programs -/

section

variable [DecidableEq C] {Op : Type} {Res : Op → Type} {α β γ : Type}
variable {act : Event Res → Act C T} {A : Event Res → Prop}

/-- Every run of `p` from a book with `P` is safe and ends with `Q`. -/
def Tidy (act : Event Res → Act C T) (A : Event Res → Prop) (P : Book C T → Prop)
    (p : Prog Res α) (Q : α → Book C T → Prop) : Prop :=
  ∀ b tr a, P b → p.Runs tr a → Safe act A (Q a) b tr

variable {P P' : Book C T → Prop} {p : Prog Res α} {Q Q' : α → Book C T → Prop}

theorem tidy_ret {a : α} (h : ∀ b, P b → Q a b) : Tidy act A P (.ret a) Q := by
  rintro b tr a' hP ⟨rfl, rfl⟩
  exact h b hP

theorem tidy_call {o : Op} {k : Res o → Prog Res α} {R : Res o → Book C T → Prop}
    (hact : ∀ r b, P b → A ⟨o, r⟩ → (act ⟨o, r⟩).Fair b →
      (act ⟨o, r⟩).Good b ∧ R r (b.step (act ⟨o, r⟩)))
    (hk : ∀ r, Tidy act A (R r) (k r) Q) : Tidy act A P (.call o k) Q := by
  rintro b tr a hP ⟨r, tr, rfl, hrun⟩ hA hfair
  obtain ⟨hgood, hR⟩ := hact r b hP hA hfair
  exact ⟨hgood, hk r _ tr a hR hrun⟩

theorem Tidy.bind {R : α → Book C T → Prop} {f : α → Prog Res β} {Q : β → Book C T → Prop}
    (hp : Tidy act A P p R) (hf : ∀ a, Tidy act A (R a) (f a) Q) :
    Tidy act A P (p.bind f) Q := by
  intro b tr r hP hrun
  obtain ⟨t₁, a, t₂, h₁, h₂, rfl⟩ := Prog.runs_bind.1 hrun
  exact safe_append.2 ((hp b t₁ a hP h₁).mono fun b' hR => hf a b' t₂ r hR h₂)

theorem Tidy.mono (h : Tidy act A P p Q) (hP : ∀ b, P' b → P b) (hQ : ∀ a b, Q a b → Q' a b) :
    Tidy act A P' p Q' :=
  fun b tr a hb hrun => (h b tr a (hP b hb) hrun).mono (hQ a)

/-- A part of the precondition that does not speak of the book. -/
theorem tidy_pure {φ : Prop} (hφ : ∀ b, P' b → φ ∧ P b) (h : φ → Tidy act A P p Q) :
    Tidy act A P' p Q :=
  fun b tr a hb hrun => h (hφ b hb).1 b tr a (hφ b hb).2 hrun

/-! ## What a thread holds -/

/-- The thread holds the connections in `m`, with the replies still to come on each. -/
def Has (m : C → Option (List T)) (b : Book C T) : Prop := ∀ c, (b c).queue = m c

variable {m : C → Option (List T)} {b : Book C T} {c : C}

omit [DecidableEq C] in
theorem Has.eq_held (h : Has m b) {q : List T} (hc : m c = some q) : b c = .held q := by
  have hq := (h c).trans hc
  cases hb : b c with
  | held q' =>
    rw [hb] at hq
    exact congrArg Status.held (Option.some.inj hq)
  | away | off =>
    rw [hb] at hq
    cases hq

/-- Something is done to one connection. -/
theorem Has.step (h : Has m b) (k : Kind T) (c : C) :
    Has (Function.update m c (k.effect (b c)).queue) (b.step ⟨k, [c]⟩) := by
  intro d
  rcases eq_or_ne d c with rfl | hd
  · simp [Book.step]
  · simp [Book.step, hd, h d]

/-- Connections in another use are none of those the thread holds. -/
theorem Has.see (h : Has m b) {conns : List C} (hfair : (⟨.see, conns⟩ : Act C T).Fair b) :
    Has m (b.step ⟨.see, conns⟩) ∧ ∀ c ∈ conns, b.step ⟨.see, conns⟩ c = .off := by
  refine ⟨fun c => ?_, fun c hc => if_pos hc⟩
  unfold Book.step
  split
  · next hc => exact (hfair c hc).symm.trans (h c)
  · exact h c

/-- What is done to a connection that is out of use and stays so. -/
theorem Has.step_off (h : Has m b) (hc : b c = .off) (hk : k.effect .off = .off) :
    Has m (b.step ⟨k, [c]⟩) := by
  have hstep := h.step k c
  have hsame : (k.effect (b c)).queue = m c := by rw [← h c, hc, hk]
  rwa [hsame, Function.update_eq_self] at hstep

/-- Programs in parallel that hold nothing at the start and at the end. -/
theorem tidy_parList {F : γ → Prog Res β} {gs : List γ}
    (h : ∀ g ∈ gs, Tidy act A (Has fun _ => none) (F g) fun _ => Has fun _ => none) :
    Tidy act A (Has m) (Prog.parList (gs.map F)) fun _ => Has m := by
  intro b tr rs hm hrun
  have hthread : ∀ g ∈ gs, (F g).Sat fun l r => (F g).Runs l r := fun _ _ _ _ h => h
  obtain ⟨trs, hs, htrs, hrs, hthreads⟩ := Prog.sat_parList hthread tr rs hrun
  -- the caller keeps its book while the threads start from empty ones
  let bs : Nat → Book C T := Function.update (fun _ _ => .away) trs.length b
  have hempty : ∀ i, i ≠ trs.length → bs i = fun _ => .away :=
    fun i hi => Function.update_of_ne hi ..
  have hsafe : ∀ i l, trs[i]? = some l → Safe act A (Has fun _ => none) (bs i) l := by
    intro i l hl
    have hi : i < trs.length := (List.getElem?_eq_some_iff.1 hl).1
    have hg := List.getElem?_eq_getElem (l := gs) (htrs ▸ hi)
    have hr := List.getElem?_eq_getElem (l := rs) (i := i) (by omega)
    rw [hempty i hi.ne]
    exact h _ (List.mem_of_getElem? hg) _ l _ (fun _ => rfl) (hthreads i _ l _ hg hl hr)
  refine (Safe.shuffle (Q := fun _ => Has fun _ => none) hs (split_alone b _) hsafe).mono ?_
  rintro b' ⟨bs', hsplit, hnone, hframe⟩ c
  have hown : bs' trs.length = b := (hframe _ le_rfl).trans (Function.update_self ..)
  have hothers : ∀ i, i ≠ trs.length → (bs' i c).queue = none := by
    intro i hi
    rcases lt_or_ge i trs.length with hlt | hge
    · exact hnone i hlt c
    · rw [(hframe i hge).trans (hempty i hi)]
      rfl
  rw [hsplit.queue hothers, hown, hm c]

end

end Lease
