import Mathlib.Logic.Function.Basic
import RespProxy.Lib.World
import RespProxy.Proxy.Session

/-! # The nodes behind the proxy

Each node of the cluster holds keys of its own. A connection leads to the node it was
opened for. `SCAN` lists keys page by page: a scan that has gone through has listed every
key that is there. `DEL` of keys in several slots is an error and deletes nothing, and any
command may be refused.

The nodes remember each `DEL` that reached them, and what the client was told.
-/

namespace RespProxy.Backend

open Cluster Command Resp Proxy Interact

/-- A `DEL`, and whether the node refused it for a reason of its own. -/
structure Deletion where
  keys : List Bytes
  refused : Bool
deriving DecidableEq

/-- The keys are in one slot. -/
def SameSlot (slot : Bytes → Nat) (keys : List Bytes) : Prop :=
  ∀ k ∈ keys, ∀ k' ∈ keys, slot k = slot k'

instance (slot : Bytes → Nat) (keys : List Bytes) : Decidable (SameSlot slot keys) :=
  inferInstanceAs (Decidable (∀ k ∈ keys, ∀ k' ∈ keys, slot k = slot k'))

/-- The keys are deleted. -/
def Deletion.CarriedOut (slot : Bytes → Nat) (d : Deletion) : Prop :=
  SameSlot slot d.keys ∧ d.refused = false

instance (slot : Bytes → Nat) (d : Deletion) : Decidable (d.CarriedOut slot) :=
  inferInstanceAs (Decidable (_ ∧ _))

/-- The nodes, the topology the proxy has of them, and the connections. `listed` are the
keys that the current scan of a node has listed. -/
structure Nodes where
  topology : Option Topology
  holds : Addr → Bytes → Bool
  addrOf : ConnId → Addr := fun _ => ""
  listed : Addr → List Bytes := fun _ => []
  dels : Addr → List Deletion := fun _ => []
  told : List Value := []

section

variable (slot : Bytes → Nat)

/-- A `DEL` reaches the node `a`. -/
def Nodes.del (w : Nodes) (a : Addr) (d : Deletion) : Nodes :=
  { w with
    holds := Function.update w.holds a fun k =>
      w.holds a k && !(decide (d.CarriedOut slot) && d.keys.contains k)
    dels := Function.update w.dels a (d :: w.dels a) }

/-- The key matches a pattern that has no special bytes but the `*` at its end. -/
def Matches (pattern k : Bytes) : Prop := ∃ start, pattern = start ++ lit "*" ∧ start <+: k

/-- The keys listed once `keys` are listed too. The cursor 0 begins a scan. -/
def Nodes.list (w : Nodes) (a : Addr) (cursor : Bytes) (keys : List Bytes) : Nodes :=
  { w with
    listed := Function.update w.listed a ((if cursor = lit "0" then [] else w.listed a) ++ keys) }

/-- A page of a `SCAN`. With the cursor 0 the scan has gone through. -/
def Nodes.Pages (w : Nodes) (a : Addr) (cursor pattern : Bytes) (v : Value) (w' : Nodes) : Prop :=
  ∃ next keys, v = array [bulkString (.mk next), commandArray (keys.map Slice.mk)] ∧
    (∀ k ∈ keys, Matches pattern k) ∧ w' = w.list a cursor keys ∧
    (next = lit "0" → ∀ k, Matches pattern k → w.holds a k = true → k ∈ w'.listed a)

/-- An argument of a command. -/
def argAt (argv : Argv) (i : Nat) : Bytes := ((argv[i]?).map Slice.bytes).getD []

/-- The node `a` answers a command with `v`. -/
def Nodes.Answers (w : Nodes) (a : Addr) (argv : Argv) (v : Value) (w' : Nodes) : Prop :=
  if nameOf argv = "SCAN" then
    (v.isError = true ∧ w' = w) ∨ w.Pages a (argAt argv 1) (argAt argv 3) v w'
  else if nameOf argv = "DEL" then
    ∃ d : Deletion, d.keys = (argv.drop 1).map Slice.bytes ∧
      v.isError = !decide (d.CarriedOut slot) ∧ w' = w.del slot a d
  else w' = w

/-- A command gets lost, or only its answer. -/
def Nodes.Loses (w : Nodes) (a : Addr) (argv : Argv) (w' : Nodes) : Prop :=
  w' = w ∨ nameOf argv = "DEL" ∧
    w' = w.del slot a { keys := (argv.drop 1).map Slice.bytes, refused := false }

/-- The effect of a request of the proxy. -/
def Nodes.Acts (w : Nodes) (e : Event) (w' : Nodes) : Prop :=
  match e with
  | ⟨.load, t⟩ => t = w.topology ∧ w' = w
  | ⟨.get a _, .ok c⟩ => w' = { w with addrOf := Function.update w.addrOf c a }
  | ⟨.read c f, .ok v⟩ => w.Answers slot (w.addrOf c) f.argv v w'
  | ⟨.read c f, .error _⟩ | ⟨.write c [f], some _⟩ => w.Loses slot (w.addrOf c) f.argv w'
  | ⟨.cwrite _ v, _⟩ => w' = { w with told := v :: w.told }
  | _ => w' = w

variable {slot}

/-- One round trip. -/
theorem doFrame_nodes {P : Nodes → Prop} {Q : Except Err Value → Nodes → Prop} {c : ConnId}
    {f : Frame} (hanswer : ∀ w v w', P w → w.Answers slot (w.addrOf c) f.argv v w' → Q (.ok v) w')
    (hlose : ∀ w e w', P w → w.Loses slot (w.addrOf c) f.argv w' → Q (.error e) w') :
    Triple Eq (Nodes.Acts slot) P (doFrame c f) Q := by
  refine triple_call (R := fun r w => r.elim (P w) fun e => Q (.error e) w) (stable_eq P) ?_
    fun r => ?_
  · intro r w w' hw hacts
    cases r with
    | none =>
      cases hacts
      exact hw
    | some e => exact hlose w e w' hw hacts
  cases r with
  | some e => exact triple_ret fun _ h => h
  | none =>
    refine triple_call (R := Q) (stable_eq P) ?_ fun x => triple_ret fun _ h => h
    intro x w w' hw hacts
    cases x with
    | error e => exact hlose w e w' hw hacts
    | ok v => exact hanswer w v w' hw hacts

/-- The client is told at most `v`. -/
theorem reply_nodes {P : Nodes → Prop} {told : List Value}
    (hP : ∀ w v, P w → P { w with told := v }) (id : Option CmdId) (v : Value) :
    Triple Eq (Nodes.Acts slot) (fun w => P w ∧ w.told = told) (reply id v) fun _ w =>
      P w ∧ (w.told = told ∨ w.told = v :: told) := by
  refine triple_skip (stable_eq _) (fun _ _ _ h => h) fun r => ?_
  cases r with
  | some e => exact triple_ret fun w hw => ⟨hw.1, .inl hw.2⟩
  | none =>
    refine triple_call (R := fun _ w => P w ∧ w.told = v :: told) (stable_eq _) ?_ fun r => ?_
    · rintro r w _ ⟨hw, rfl⟩ rfl
      exact ⟨hP w _ hw, rfl⟩
    cases r with
    | some e => exact triple_ret fun w hw => ⟨hw.1, .inr hw.2⟩
    | none =>
      refine triple_skip (stable_eq _) (fun _ _ _ h => h) fun r => ?_
      cases r with
      | some e => exact triple_ret fun w hw => ⟨hw.1, .inr hw.2⟩
      | none => exact triple_ret fun w hw => ⟨hw.1, .inr hw.2⟩

end

end RespProxy.Backend
