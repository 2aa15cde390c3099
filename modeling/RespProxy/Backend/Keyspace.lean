import Mathlib.Logic.Relation
import RespProxy.Lib.Shard
import RespProxy.Lib.World
import RespProxy.Proxy.Frames

/-! # The keys behind the proxy

The backends together hold one keyspace: each key lives in the slot of its hash and on the
node of that slot. `serve` is what a backend does for the commands that the proxy puts
together itself or splits. `State` remembers what was executed and what other clients wrote
in between.

A command is executed when its reply is read. `Faults` says what else may become of it:
it is refused with an error, or it breaks off before or after its execution. `exec_rule`
says what this means for a command that is sent with redirects followed: it is executed at
most once.
-/

namespace RespProxy.Backend

open Cluster Command Resp Proxy Interact

/-! ## Commands -/

/-- What a key holds, and when it expires. -/
structure Entry (Val : Type) where
  value : Val
  expiry : Option Nat := none
deriving DecidableEq

abbrev Keys (Val : Type) := Shard.Store Bytes (Entry Val)

/-- Values, their serialisation for `DUMP` and `RESTORE`, and the strings among them. -/
structure Codec (Val : Type) where
  dump : Val → Bytes
  restore : Bytes → Option Val
  ofBytes : Bytes → Val
  dump_ne_nil : ∀ v, dump v ≠ []
  restore_dump : ∀ v, restore (dump v) = some v

section

variable {Val : Type} (C : Codec Val)

def arityError : Value := error "ERR wrong number of arguments"

def existsOn (keys : Keys Val) : List Bytes → Value × Keys Val
  | [k] => (integer (if (keys k).isSome then 1 else 0), keys)
  | _ => (arityError, keys)

def delOn (keys : Keys Val) : List Bytes → Value × Keys Val
  | [k] => (integer (if (keys k).isSome then 1 else 0), Function.update keys k none)
  | _ => (arityError, keys)

/-- `DUMP` leaves the expiry out. -/
def dumpOn (keys : Keys Val) : List Bytes → Value × Keys Val
  | [k] =>
    match keys k with
    | some e => (bulkString (.mk (C.dump e.value)), keys)
    | none => (nullBulk, keys)
  | _ => (arityError, keys)

def renameOn (keys : Keys Val) : List Bytes → Value × Keys Val
  | [k, d] =>
    match keys k with
    | some e => (simpleString "OK", Function.update (Function.update keys k none) d (some e))
    | none => (error "ERR no such key", keys)
  | _ => (arityError, keys)

/-- `COPY source destination [REPLACE]`. -/
def copyOn (keys : Keys Val) : List Bytes → Value × Keys Val
  | k :: d :: opts =>
    match keys k with
    | some e =>
      if (keys d).isSome ∧ opts = [] then (integer 0, keys)
      else (integer 1, Function.update keys d (some e))
    | none => (integer 0, keys)
  | _ => (arityError, keys)

/-- The time to live that `RESTORE` sets; 0 is none. -/
def ttlOf (ttl : Bytes) : Option Nat := (Decimal.parseNat ttl).filter (· ≠ 0)

/-- `RESTORE key ttl value [REPLACE]`. -/
def restoreOn (keys : Keys Val) : List Bytes → Value × Keys Val
  | k :: ttl :: payload :: opts =>
    match C.restore payload with
    | some v =>
      if (keys k).isSome ∧ opts = [] then (error "BUSYKEY Target key name already exists.", keys)
      else (simpleString "OK", Function.update keys k
        (some { value := v, expiry := ttlOf ttl }))
    | none => (error "ERR DUMP payload version or checksum are wrong", keys)
  | _ => (arityError, keys)

/-- The assignments of `MSET`. -/
def assign (keys : Keys Val) : List Bytes → Keys Val
  | k :: v :: rest => assign (Function.update keys k (some { value := C.ofBytes v })) rest
  | _ => keys

/-- `MSET key value [key value …]`: without a value for each key there is no change. -/
def msetOn (keys : Keys Val) (args : List Bytes) : Value × Keys Val :=
  if args = [] ∨ args.length % 2 = 1 then (arityError, keys)
  else (simpleString "OK", assign C keys args)

/-- The commands by name. -/
def commandOn (name : String) (keys : Keys Val) (args : List Bytes) : Value × Keys Val :=
  if name = "EXISTS" then existsOn keys args
  else if name = "DEL" then delOn keys args
  else if name = "DUMP" then dumpOn C keys args
  else if name = "RENAME" then renameOn keys args
  else if name = "COPY" then copyOn keys args
  else if name = "RESTORE" then restoreOn C keys args
  else if name = "MSET" then msetOn C keys args
  else if name = "ASKING" then (simpleString "OK", keys)
  else (error "ERR unknown command", keys)

/-- What a backend does for a command. A null argument is a protocol error. -/
def serve (argv : Argv) (keys : Keys Val) : Value × Keys Val :=
  if Slice.nil ∈ argv then (error "ERR Protocol error: expected '$', got '-'", keys)
  else commandOn C (nameOf argv) keys ((argv.drop 1).map Slice.bytes)

/-- A command the proxy puts together. -/
theorem serve_command {w : String} (hw : upperName (lit w) = w) (args : List Bytes)
    (keys : Keys Val) : serve C (arg w :: args.map Slice.mk) keys = commandOn C w keys args := by
  have hnil : Slice.nil ∉ arg w :: args.map Slice.mk := by simp [arg]
  have hname : nameOf (arg w :: args.map Slice.mk) = w := hw
  have hbytes : (args.map Slice.mk).map Slice.bytes = args := by
    simp [Function.comp_def, Slice.bytes]
  rw [serve, if_neg hnil, hname, List.drop_one, List.tail_cons, hbytes]

theorem redirectOf_ok {v : Value} (h : v.isError = false) : redirectOf v = none := by
  rw [redirectOf, if_neg (by simp [h])]

theorem redirectOf_error {msg : String} (h : parseRedirect (lit msg) = none) :
    redirectOf (error msg) = none := by
  rw [redirectOf, if_pos (show (error msg).isError = true from rfl)]
  exact h

/-- A backend that has the key does not redirect. -/
theorem serve_redirect (argv : Argv) (keys : Keys Val) :
    redirectOf (serve C argv keys).1 = none := by
  have harity : redirectOf arityError = none := redirectOf_error (by decide)
  -- one command after the other, and each of its replies is a value or an error of its own
  unfold serve
  split
  · exact redirectOf_error (by decide)
  unfold commandOn
  split
  · unfold existsOn
    split
    · exact redirectOf_ok rfl
    · exact harity
  split
  · unfold delOn
    split
    · exact redirectOf_ok rfl
    · exact harity
  split
  · unfold dumpOn
    split
    · split
      · exact redirectOf_ok rfl
      · exact redirectOf_ok rfl
    · exact harity
  split
  · unfold renameOn
    split
    · split
      · exact redirectOf_ok rfl
      · exact redirectOf_error (by decide)
    · exact harity
  split
  · unfold copyOn
    split
    · split
      · split
        · exact redirectOf_ok rfl
        · exact redirectOf_ok rfl
      · exact redirectOf_ok rfl
    · exact harity
  split
  · unfold restoreOn
    split
    · split
      · split
        · exact redirectOf_error (by decide)
        · exact redirectOf_ok rfl
      · exact redirectOf_error (by decide)
    · exact harity
  split
  · unfold msetOn
    split
    · exact harity
    · exact redirectOf_ok rfl
  split
  · exact redirectOf_ok rfl
  · exact redirectOf_error (by decide)

end

/-! ## The keyspace over time -/

/-- What happened to the keys: a command of the program was executed, and its reply
arrived or not; it was refused; or another client wrote a key. -/
inductive Deed (Val : Type) where
  | own (argv : Argv) (arrived : Bool) (before : Keys Val)
  | refused (argv : Argv)
  | other (key : Bytes) (entry : Option (Entry Val))

/-- The keys, and what happened to them, the latest first. -/
structure State (Val : Type) where
  keys : Keys Val
  history : List (Deed Val) := []

/-- What may become of a command: it is answered; it fails on the way, where the
connection, the request or the reply breaks; it is executed but its answer is lost; or it
is refused with an error. -/
structure Faults (Val : Type) where
  answer : State Val → Prop
  fail : State Val → Prop
  lose : State Val → Prop
  refuse : State Val → Argv → Value → Prop

section

variable {Val : Type} (C : Codec Val)

/-- A command is executed. `ASKING` is not one on keys. -/
def State.run (st : State Val) (argv : Argv) (arrived : Bool) : State Val :=
  if argv = [arg "ASKING"] then st
  else { keys := (serve C argv st.keys).2, history := .own argv arrived st.keys :: st.history }

/-- A command is refused. -/
def State.refuse (st : State Val) (argv : Argv) : State Val :=
  if argv = [arg "ASKING"] then st else { st with history := .refused argv :: st.history }

/-- Another client writes a key. -/
def State.write (st : State Val) (k : Bytes) (x : Option (Entry Val)) : State Val :=
  { keys := Function.update st.keys k x, history := .other k x :: st.history }

/-- The effect of a request of the proxy. -/
def Acts (F : Faults Val) (st : State Val) (e : Event) (st' : State Val) : Prop :=
  match e with
  | ⟨.read _ f, .ok v⟩ =>
    (F.answer st ∧ v = (serve C f.argv st.keys).1 ∧ st' = st.run C f.argv true) ∨
      (F.refuse st f.argv v ∧ v.isError = true ∧ st' = st.refuse f.argv)
  | ⟨.read _ f, .error _⟩ | ⟨.write _ [f], some _⟩ =>
    (F.fail st ∧ st' = st) ∨
      (F.lose st ∧ f.argv ≠ [arg "ASKING"] ∧ st' = st.run C f.argv false)
  | ⟨.get _ _, .error _⟩ | ⟨.ctxErr, some _⟩ => F.fail st ∧ st' = st
  | _ => st' = st

/-- Other clients write keys, each where `allowed`. -/
def Others (allowed : State Val → Bytes → Prop) : State Val → State Val → Prop :=
  Relation.ReflTransGen fun st st' => ∃ k x, allowed st k ∧ st' = st.write k x

variable {C} {F : Faults Val} {rely : State Val → State Val → Prop}

theorem State.run_of_ne {argv : Argv} (h : argv ≠ [arg "ASKING"]) (st : State Val) (b : Bool) :
    st.run C argv b =
      { keys := (serve C argv st.keys).2, history := .own argv b st.keys :: st.history } :=
  if_neg h

theorem State.refuse_of_ne {argv : Argv} (h : argv ≠ [arg "ASKING"]) (st : State Val) :
    st.refuse argv = { st with history := .refused argv :: st.history } :=
  if_neg h

theorem stable_others {allowed : State Val → Bytes → Prop} {P : State Val → Prop}
    (h : ∀ st k x, allowed st k → P st → P (st.write k x)) : Stable (Others allowed) P := by
  intro st st' hrely hP
  induction hrely with
  | refl => exact hP
  | tail _ hstep ih =>
    obtain ⟨k, x, hk, rfl⟩ := hstep
    exact h _ k x hk ih

variable {cfg : Config} {P : State Val → Prop} {Q : Except Err Value → State Val → Prop} {f : Frame}

theorem hopAddr_rule (hseeds : cfg.clusterSeeds ≠ []) (hP : Stable rely P) (slot : Nat)
    (hint : Addr) (read : Bool) : Triple rely (Acts C F) P (hopAddr cfg slot hint read) fun a st =>
      P st ∧ ∃ addr, a = some addr := by
  refine triple_idle (hopAddr_found hseeds slot hint read) (fun _ _ _ _ => trivial) hP ?_
  rintro ⟨o, r⟩ st st' hidle hst h
  cases o with
  | load | drop =>
    cases h
    exact hst
  | _ => exact hidle.elim

theorem updateSlotAt_rule (hP : Stable rely P) (slot : Nat) (addr : Addr) :
    Triple rely (Acts C F) P (updateSlotAt slot addr) fun _ => P := by
  refine triple_skip hP (fun _ _ _ h => h) fun t => ?_
  refine triple_skip hP (fun _ _ _ h => h) fun gen => ?_
  exact triple_skip hP (fun _ _ _ h => h) fun _ => triple_ret fun _ h => h

/-- `Q` covers what becomes of `f` in the states of `P`: it is answered, refused, fails on
the way, or is executed without an answer. After a redirect it is sent again. -/
structure Covers (C : Codec Val) (F : Faults Val) (f : Frame) (P : State Val → Prop)
    (Q : Except Err Value → State Val → Prop) : Prop where
  done : ∀ st, P st → F.answer st → Q (.ok (serve C f.argv st.keys).1) (st.run C f.argv true)
  refused : ∀ st v, P st → F.refuse st f.argv v → v.isError = true → Q (.ok v) (st.refuse f.argv)
  resent : ∀ st v, P st → F.refuse st f.argv v → redirectOf v ≠ none → P (st.refuse f.argv)
  failed : ∀ st e, P st → F.fail st → Q (.error e) st
  lost : ∀ st e, P st → F.lose st → f.argv ≠ [arg "ASKING"] →
    Q (.error e) (st.run C f.argv false)

/-- One round trip. -/
theorem doFrame_rule (hP : Stable rely P) (h : Covers C F f P Q) (c : ConnId) :
    Triple rely (Acts C F) P (doFrame c f) Q := by
  have hlose : ∀ st st' e, P st → ((F.fail st ∧ st' = st) ∨
      (F.lose st ∧ f.argv ≠ [arg "ASKING"] ∧ st' = st.run C f.argv false)) → Q (.error e) st' := by
    rintro st st' e hst (⟨hfail, rfl⟩ | ⟨hlose, hne, rfl⟩)
    · exact h.failed _ e hst hfail
    · exact h.lost _ e hst hlose hne
  refine triple_call (R := fun r st => r.elim (P st) fun e => Q (.error e) st) hP ?_ fun r => ?_
  · intro r st st' hst hacts
    cases r with
    | none =>
      cases hacts
      exact hst
    | some e => exact hlose st st' e hst hacts
  cases r with
  | some e => exact triple_ret fun st h => h
  | none =>
    refine triple_call (R := Q) hP ?_ fun x => triple_ret fun st h => h
    intro x st st' hst hacts
    cases x with
    | error e => exact hlose st st' e hst hacts
    | ok v =>
      rcases hacts with ⟨hanswer, rfl, rfl⟩ | ⟨hrefuse, hv, rfl⟩
      · exact h.done st hst hanswer
      · exact h.refused st v hst hrefuse hv

/-- The program goes on from `P`, or it has failed with `Q`. -/
def GoesOn {α : Type} (P : State Val → Prop) (Q : Except Err Value → State Val → Prop) :
    Except Err α → State Val → Prop
  | .ok _, st => P st
  | .error e, st => Q (.error e) st

theorem askAndDo_rule (hP : Stable rely P) (h : Covers C F f P Q) (c : ConnId) (asking : Bool) :
    Triple rely (Acts C F) P (askAndDo c asking f) Q := by
  unfold askAndDo
  split
  · -- `ASKING` leaves the keys alone
    have hrun : ∀ (st : State Val) b, st.run C (askingFrame f).argv b = st := fun st b => if_pos rfl
    have hrefuse : ∀ st : State Val, st.refuse (askingFrame f).argv = st := fun st => if_pos rfl
    have hasking : Covers C F (askingFrame f) P (GoesOn P Q) := by
      refine ⟨fun st hst _ => ?_, fun st v hst _ _ => ?_, fun st v hst _ _ => ?_, h.failed,
        fun st e _ _ hne => absurd rfl hne⟩
      · rw [hrun]
        exact hst
      · rw [hrefuse]
        exact hst
      · rw [hrefuse]
        exact hst
    refine (doFrame_rule hP hasking c).bind fun x => ?_
    cases x with
    | error e => exact triple_ret fun st h => h
    | ok v => exact doFrame_rule hP h c
  · exact doFrame_rule hP h c

theorem hop_rule (hP : Stable rely P) (hQ : ∀ x, Stable rely (Q x)) (h : Covers C F f P Q)
    (addr : Addr) (replica asking : Bool) :
    Triple rely (Acts C F) P (hop cfg addr replica asking f) Q := by
  refine triple_call (R := GoesOn P Q) hP ?_ fun x => ?_
  · intro x st st' hst hacts
    cases x with
    | ok c =>
      cases hacts
      exact hst
    | error e =>
      obtain ⟨hfail, rfl⟩ := hacts
      exact h.failed _ e hst hfail
  cases x with
  | error e => exact triple_ret fun st h => h
  | ok c =>
    refine (askAndDo_rule hP h c asking).bind fun y => ?_
    cases y with
    | error e => exact triple_skip (hQ _) (fun _ _ _ h => h) fun _ => triple_ret fun st h => h
    | ok v => exact triple_skip (hQ _) (fun _ _ _ h => h) fun _ => triple_ret fun st h => h

/-- A redirect sends the command again, and is the answer if there are no hops left. -/
def Resent (P : State Val → Prop) (Q : Except Err Value → State Val → Prop) :
    Except Err Value → State Val → Prop
  | .ok v, st => Q (.ok v) st ∧ (redirectOf v ≠ none → P st)
  | .error e, st => Q (.error e) st

theorem Covers.resending (h : Covers C F f P Q) : Covers C F f P (Resent P Q) where
  done st hst hanswer :=
    ⟨h.done st hst hanswer, fun hred => absurd (serve_redirect C f.argv st.keys) hred⟩
  refused st v hst hrefuse hv := ⟨h.refused st v hst hrefuse hv, h.resent st v hst hrefuse⟩
  resent := h.resent
  failed := h.failed
  lost := h.lost

theorem resent_stable (hP : Stable rely P) (hQ : ∀ x, Stable rely (Q x)) (x : Except Err Value) :
    Stable rely (Resent P Q x) := by
  intro st st' hrely h
  cases x with
  | error e => exact hQ _ st st' hrely h
  | ok v => exact ⟨hQ _ st st' hrely h.1, fun hred => hP st st' hrely (h.2 hred)⟩

/-- **A command is executed at most once.** It is sent where it may be executed, refused or
lost, and sent again after a refusal that is a redirect. -/
theorem exec_rule (hcfg : cfg.Valid) (hP : Stable rely P) (hQ : ∀ x, Stable rely (Q x))
    (h : Covers C F f P Q) (slot : Nat) (read : Bool) :
    Triple rely (Acts C F) P (exec cfg slot f read) Q := by
  -- over the hops; with none left the last redirect is the answer
  have hloop : ∀ (hops slot : Nat) (hint : Addr) (read asking : Bool) (last : Value),
      Triple rely (Acts C F) (fun st => P st ∧ (hops = 0 → Q (.ok last) st))
        (execHops cfg f hops slot hint read asking last) Q := by
    intro hops
    induction hops with
    | zero =>
      intro slot hint read asking last
      exact triple_ret fun st hst => hst.2 rfl
    | succ hops ih =>
      intro slot hint read asking last
      refine Triple.mono (P := P) ?_ (fun _ hst => hst.1) fun _ _ hst => hst
      refine triple_call (R := fun r st => r.elim (P st) fun e => Q (.error e) st) hP ?_ fun r => ?_
      · intro r st st' hst hacts
        cases r with
        | none =>
          cases hacts
          exact hst
        | some e =>
          obtain ⟨hfail, rfl⟩ := hacts
          exact h.failed _ e hst hfail
      cases r with
      | some e => exact triple_ret fun st h => h
      | none =>
        refine (hopAddr_rule hcfg.seeds hP slot hint _).bind fun a => ?_
        cases a with
        | none => exact fun st tr x st' hst => absurd hst.2 (by simp)
        | some addr =>
          refine Triple.bind (P := fun st => P st ∧ _)
            ((hop_rule hP (resent_stable hP hQ) h.resending addr _ asking).mono (fun _ hst => hst.1)
              fun _ _ hst => hst) fun x => ?_
          cases x with
          | error e => exact triple_ret fun st h => h
          | ok v =>
            cases hred : redirectOf v with
            | none =>
              dsimp only
              rw [hred]
              exact triple_ret fun st hst => hst.1
            | some red =>
              dsimp only
              rw [hred]
              dsimp only
              have hboth : Stable rely fun st => P st ∧ (hops = 0 → Q (.ok v) st) :=
                fun st st' hrely hst =>
                  ⟨hP st st' hrely hst.1, fun h0 => hQ _ st st' hrely (hst.2 h0)⟩
              refine Triple.mono (P := fun st => P st ∧ (hops = 0 → Q (.ok v) st)) ?_
                (fun st hst => ⟨hst.2 (by simp [hred]), fun _ => hst.1⟩) fun _ _ hst => hst
              split
              · exact (updateSlotAt_rule hboth _ _).bind fun _ => ih _ _ _ _ v
              · exact ih _ _ _ _ v
  exact (hloop cfg.movedHopLimit slot "" read false Value.zero).mono
    (fun st hst => ⟨hst, fun h => absurd hcfg.hops (by omega)⟩) fun _ _ hst => hst

end

/-! ## Without faults -/

section

variable {Val : Type} {C : Codec Val}

/-- Nothing goes wrong. -/
def faultless : Faults Val where
  answer _ := True
  fail _ := False
  lose _ := False
  refuse _ _ _ := False

theorem serve_asking (keys : Keys Val) : (serve C [arg "ASKING"] keys).2 = keys := by
  rw [show ([arg "ASKING"] : Argv) = arg "ASKING" :: [].map Slice.mk from rfl,
    serve_command C (by decide)]
  simp [commandOn]

theorem run_keys (st : State Val) (argv : Argv) (b : Bool) :
    (st.run C argv b).keys = (serve C argv st.keys).2 := by
  unfold State.run
  split
  · rename_i hasking
    rw [hasking, serve_asking]
  · rfl

/-- Without faults only commands that are answered change anything. -/
theorem acts_faultless {st st' : State Val} {e : Event} (h : Acts C faultless st e st') :
    st' = st ∨ ∃ c f v, e = ⟨.read c f, .ok v⟩ ∧ st' = st.run C f.argv true := by
  obtain ⟨o, r⟩ := e
  cases o with
  | read c f =>
    cases r with
    | error e => exact (h.elim And.left And.left).elim
    | ok v =>
      obtain ⟨-, -, h⟩ | ⟨h, -⟩ := h
      · exact .inr ⟨c, f, v, rfl, h⟩
      · exact h.elim
  | write c fs =>
    cases fs with
    | nil => cases r <;> exact .inl h
    | cons f fs =>
      cases fs with
      | nil =>
        cases r with
        | none => exact .inl h
        | some e => exact (h.elim And.left And.left).elim
      | cons f' fs => cases r <;> exact .inl h
  | get a b =>
    cases r with
    | error e => exact h.1.elim
    | ok c => exact .inl h
  | ctxErr =>
    cases r with
    | none => exact .inl h
    | some e => exact h.1.elim
  | _ => exact .inl h

end

/-! ## What a command reads -/

/-- The event reads no reply but those to `f`, and tells the client nothing. -/
def ReadsFor (f : Frame) (e : Event) : Prop :=
  match e.op with
  | .read _ f' => f' = f ∨ f' = askingFrame f
  | .cwrite _ _ => False
  | _ => True

section

variable {A : Event → Prop} {f f' : Frame}

theorem doFrame_readsFor (h : f' = f ∨ f' = askingFrame f) (c : ConnId) :
    (doFrame c f').Ensures A (ReadsFor f) fun _ => True := by
  refine fun r _ => ⟨trivial, ?_⟩
  cases r with
  | some e => trivial
  | none => exact fun _ _ => ⟨h, trivial⟩

theorem hop_readsFor (cfg : Config) (addr : Addr) (replica asking : Bool) :
    (hop cfg addr replica asking f).Ensures A (ReadsFor f) fun _ => True := by
  refine fun x _ => ⟨trivial, ?_⟩
  cases x with
  | error e => trivial
  | ok c =>
    have hdo : (askAndDo c asking f).Ensures A (ReadsFor f) fun _ => True := by
      unfold askAndDo
      split
      · refine (doFrame_readsFor (.inr rfl) c).bind fun y _ => ?_
        cases y with
        | error e => trivial
        | ok v => exact doFrame_readsFor (.inl rfl) c
      · exact doFrame_readsFor (.inl rfl) c
    refine hdo.bind fun y _ => ?_
    cases y with
    | error e => exact fun _ _ => ⟨trivial, trivial⟩
    | ok v => exact fun _ _ => ⟨trivial, trivial⟩

theorem exec_readsFor (cfg : Config) (slot : Nat) (read : Bool) :
    (exec cfg slot f read).Ensures A (ReadsFor f) fun _ => True := by
  have hloop : ∀ (hops slot : Nat) (hint : Addr) (read asking : Bool) (last : Value),
      (execHops cfg f hops slot hint read asking last).Ensures A (ReadsFor f) fun _ => True := by
    intro hops
    induction hops with
    | zero => exact fun _ _ _ _ _ => trivial
    | succ hops ih =>
      intro slot hint read asking last
      refine fun r _ => ⟨trivial, ?_⟩
      cases r with
      | some e => trivial
      | none =>
        have haddr : (hopAddr cfg slot hint (read && !asking)).Ensures A (ReadsFor f)
            fun _ => True := by
          unfold hopAddr
          split
          · trivial
          · refine (owner_idle cfg slot _).mono (fun e _ he => ?_) fun _ h => h
            obtain ⟨o, r⟩ := e
            cases o <;> trivial
        refine haddr.bind fun a _ => ?_
        cases a with
        | none => trivial
        | some addr =>
          refine (hop_readsFor cfg addr _ asking).bind fun x _ => ?_
          cases x with
          | error e => trivial
          | ok v =>
            dsimp only
            split
            · trivial
            · split
              · exact fun _ _ => ⟨trivial, fun _ _ => ⟨trivial, fun _ _ => ⟨trivial, ih _ _ _ _ _⟩⟩⟩
              · exact ih _ _ _ _ _
  exact hloop _ _ _ _ _ _

end

/-! ## Backends that follow a plan -/

section

variable {Val : Type} (C : Codec Val) (before : State Val → State Val) (refuses : State Val → Bool)

/-- Others change the keys with `before` ahead of each command, which is then refused or
answered. -/
def backends (st : State Val) : (o : Op) → Res o × State Val
  | .read _ f =>
    if refuses (before st) then (.ok (error "LOADING"), (before st).refuse f.argv)
    else (.ok (serve C f.argv (before st).keys).1, (before st).run C f.argv true)
  | o => (calm (fun _ => Value.zero) o, st)

variable {C before refuses} {F : Faults Val} {rely : State Val → State Val → Prop}

theorem backends_path {α : Type} (hidle : ∀ st, rely st st) (hbefore : ∀ st, rely st (before st))
    (hanswer : ∀ st, refuses st = false → F.answer st)
    (hrefuse : ∀ st argv, refuses st = true → F.refuse st argv (error "LOADING")) (p : Prog α)
    (st : State Val) : Path rely (Acts C F) st (p.exec (backends C before refuses) st).1.2
      (p.exec (backends C before refuses) st).2 := by
  refine exec_path id (fun st o _ => ?_) p st fun _ _ => trivial
  cases o with
  | read c f =>
    refine ⟨before st, hbefore st, ?_⟩
    simp only [backends]
    split
    · exact .inr ⟨hrefuse _ _ ‹_›, rfl, rfl⟩
    · exact .inl ⟨hanswer _ (by simpa using ‹¬ refuses (before st) = true›), rfl, rfl⟩
  | write c fs =>
    refine ⟨st, hidle st, ?_⟩
    cases fs with
    | nil => rfl
    | cons f fs => cases fs <;> rfl
  | _ => exact ⟨st, hidle st, rfl⟩

/-- A run against backends that answer everything. -/
theorem served_run {α : Type} (p : Prog α) (st : State Val) :
    p.Runs (p.exec (backends C id fun _ => false) st).1.2
        (p.exec (backends C id fun _ => false) st).1.1 ∧
      Path Eq (Acts C faultless) st (p.exec (backends C id fun _ => false) st).1.2
        (p.exec (backends C id fun _ => false) st).2 :=
  ⟨Prog.exec_runs _ p st, backends_path (fun _ => rfl) (fun _ => rfl) (fun _ _ => trivial)
    (fun _ _ h => absurd h Bool.false_ne_true) p st⟩

end

/-- Strings, with a version byte in front of a dump. -/
def stringCodec : Codec Bytes where
  dump v := 0 :: v
  restore
    | [] => none
    | _ :: v => some v
  ofBytes v := v
  dump_ne_nil _ := by simp
  restore_dump _ := rfl

/-- These keys, and nothing else. -/
def holding (entries : List (Bytes × Entry Bytes)) : State Bytes :=
  { keys := fun k => entries.lookup k }

end RespProxy.Backend
