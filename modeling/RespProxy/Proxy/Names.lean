import RespProxy.Proxy.Run

/-! # The names of frames

The commands that `handle` has code of its own for are sent to a backend under the names
that this code writes, and all others under the name the client gave. So a name with code
of its own that no code writes (`Unsent`) reaches a backend only from the queue of a
transaction, or for `EXEC` and `UNWATCH`.
-/

namespace RespProxy.Proxy

open Cluster Command Resp

variable {cfg : Config} {A : Event → Prop} {names : List String} {s s' : Session} {c : ClientCmd}

/-- The names that the code of commands writes. -/
def sentWords : List String :=
  ["SUBSCRIBE", "SSUBSCRIBE", "PSUBSCRIBE", "UNSUBSCRIBE", "SUNSUBSCRIBE", "PUNSUBSCRIBE",
    "PUBLISH", "SPUBLISH", "FLUSHDB", "SCAN", "DEL", "RANDOMKEY", "EXISTS", "RENAME", "COPY",
    "DUMP", "RESTORE", "ASKING"]

/-- Names of commands with code of their own that does not write them. -/
structure Unsent (names : List String) : Prop where
  empty : "" ∉ names
  own : ∀ w ∈ names, w ∈ ownCommands
  words : ∀ w ∈ sentWords, w ∉ names

theorem nameOf_arg (w : String) (rest : Argv) : nameOf (arg w :: rest) = upperName (lit w) := rfl

theorem upperName_sentWords : ∀ w ∈ sentWords, upperName (lit w) = w := by decide +kernel

/-- A command name and the name on the wire. -/
theorem ClientCmd.nameOf_not_mem (h : c.name ∉ names) (hnil : "" ∉ names) :
    nameOf c.argv ∉ names := by
  by_cases hargv : c.argv = []
  · rwa [hargv]
  · rwa [← ClientCmd.name_of_ne hargv]

theorem Unsent.word (hn : Unsent names) {w : String} (hw : w ∈ sentWords) (rest : Argv) :
    nameOf (arg w :: rest) ∉ names := by
  rw [nameOf_arg, upperName_sentWords w hw]
  exact hn.words w hw

/-- A command under a name that is written goes under it. -/
theorem Unsent.named (hn : Unsent names) (hc : c.name ∈ sentWords) : nameOf c.argv ∉ names :=
  ClientCmd.nameOf_not_mem (hn.words _ hc) hn.empty

theorem Unsent.forwarded (hn : Unsent names) (hc : c.name ∉ ownCommands) :
    nameOf c.argv ∉ names :=
  ClientCmd.nameOf_not_mem (fun hmem => hc (hn.own _ hmem)) hn.empty

theorem nameOf_rewritePublish (fl : Flavor) (argv : Argv) :
    nameOf (rewritePublish fl argv) = nameOf argv ∨
      nameOf (rewritePublish fl argv) = "SPUBLISH" := by
  unfold rewritePublish
  split
  · split
    · refine .inr ?_
      rw [nameOf_arg]
      decide +kernel
    · exact .inl rfl
  · exact .inl rfl

theorem SubArgv.unsent (hn : Unsent names) {argv : Argv} (h : SubArgv c argv) :
    nameOf argv ∉ names := by
  cases h with
  | @channel w ch hw =>
    have hall : ∀ w ∈ ["SUBSCRIBE", "SSUBSCRIBE", "UNSUBSCRIBE", "SUNSUBSCRIBE"],
      w ∈ sentWords := by decide
    exact hn.word (hall w hw) _
  | pattern hc =>
    have hall : ∀ w ∈ ["PSUBSCRIBE", "PUNSUBSCRIBE"], w ∈ sentWords := by decide
    exact hn.named (hall _ hc)

theorem TransferArgv.unsent (hn : Unsent names) {key dst : Slice} {argv : Argv}
    (h : TransferArgv key dst argv) : nameOf argv ∉ names := by
  cases h with
  | copy | restore =>
    rw [List.cons_append]
    exact hn.word (by decide) _
  | present | rename | dump | del => exact hn.word (by decide) _

/-- The names of what is sent at once for a command. -/
theorem Direct.unsent (hn : Unsent names) {argv : Argv} (h : Direct A cfg s c argv) :
    nameOf argv ∉ names := by
  cases h with
  | forward hc h =>
    rw [nameOf_rewriteArgv h]
    exact hn.forwarded hc
  | fanout hc h _ _ _ hr =>
    rw [nameOf_rebuildFanoutArgv hr, nameOf_rewriteArgv h]
    exact hn.forwarded hc
  | @publish fl hc =>
    have hall : ∀ w ∈ ["PUBLISH", "SPUBLISH"], w ∈ sentWords := by decide
    rcases nameOf_rewritePublish fl c.argv with h | h
    · rw [h]
      exact hn.named (hall _ hc)
    · rw [h]
      exact hn.words _ (by decide)
  | sub h => exact h.unsent hn
  | transfer _ h => exact h.unsent hn
  | flushDB | scan | del | randomKey | asking => exact hn.word (by decide) _

/-- Nothing in the queue has one of the names. -/
def QueueSpares (names : List String) (s : Session) : Prop :=
  ∀ q ∈ s.queued, nameOf q.argv ∉ names

/-- The names of what `handle` sends. -/
theorem Sent.unsent (hn : Unsent names) {f : Frame} (h : Sent A cfg s c f)
    (hs : QueueSpares names s)
    (hc : c.name ∈ ["EXEC", "UNWATCH"] → ∀ w ∈ ["MULTI", "EXEC", "UNWATCH"], w ∉ names) :
    nameOf f.argv ∉ names := by
  cases h with
  | direct _ _ h => exact h.unsent hn
  | raw _ _ hown => exact hn.forwarded hown
  | subscribed _ h => exact h.unsent hn
  | @control w hw hctl =>
    have hall : ∀ w ∈ ["MULTI", "EXEC", "UNWATCH"], upperName (lit w) = w := by decide +kernel
    rw [nameOf_arg, hall w hw]
    exact hc hctl w hw
  | queued _ _ _ hp hf =>
    obtain ⟨q, hq, argv, db, hargv, rfl⟩ := mem_execPlan_backend cfg hp hf
    rw [nameOf_rewriteArgv hargv]
    exact hs q hq

/-- The names of what a fast batch sends. -/
theorem FastFrame.unsent (hn : Unsent names) {f : Frame} (h : FastFrame cfg s c f) :
    nameOf f.argv ∉ names := by
  have hname : pipelineSlow c = false → nameOf c.argv ∉ names := by
    intro hslow
    have hall : ∀ w ∈ ownCommands, w ∈ slowNames := by decide
    exact hn.forwarded fun hown => name_ne_of_not_slow hslow (hall _ hown) rfl
  cases h with
  | plain hf ha =>
    rw [nameOf_rewriteArgv ha]
    exact hname hf.notSlow
  | raw hf => exact hname hf.notSlow
  | asking => exact hn.word (by decide) _

theorem After.queueSpares (h : After cfg s c s') (hs : QueueSpares names s) (hnil : "" ∉ names)
    (hc : s.multi = true → c.name ∉ ["MULTI", "DISCARD", "EXEC", "WATCH", "UNWATCH"] →
      c.name ∉ names) : QueueSpares names s' := by
  intro q hq
  rw [h.queued] at hq
  rcases nextState_queued hq with hq | ⟨hm, hown, rfl⟩
  · exact hs q hq
  · rw [nameOf_cloneArgv]
    exact ClientCmd.nameOf_not_mem (hc hm hown) hnil

theorem classifyState_queueSpares (hs : QueueSpares names s) (c : ClientCmd) :
    QueueSpares names (classifyState cfg s c) := by
  unfold classifyState
  split
  · exact hs
  split
  · unfold classifySelect
    split
    · exact hs
    · split <;> exact hs
  · have hl := localStep_local cfg s c.argv
    generalize localStep cfg s c.argv = r at hl
    cases hl with
    | reset => exact fun q hq => (List.not_mem_nil hq).elim
    | _ => exact hs

end RespProxy.Proxy
