import RespProxy.Proxy.Handle

/-! # Batches (`internal/proxy/pipeline.go`)

A batch of one command goes to `handle`. A longer one is classified as a whole
first; if some command is slow, all of them are then handled one by one, and
otherwise the batch goes to the backends as one write for each node.
-/

namespace RespProxy.Proxy

open Cluster Command Resp

variable (cfg : Config)

/-- The names `pipelineSlow` lists. -/
def slowNames : List String :=
  ["MULTI", "EXEC", "DISCARD", "WATCH", "UNWATCH",
    "SUBSCRIBE", "SSUBSCRIBE", "PSUBSCRIBE",
    "UNSUBSCRIBE", "SUNSUBSCRIBE", "PUNSUBSCRIBE",
    "PUBLISH", "SPUBLISH", "PUBSUB",
    "MOVE", "COPY", "FLUSHDB", "FLUSHALL", "SWAPDB", "RANDOMKEY",
    "QUIT"]

/-- `pipelineSlow`. -/
def pipelineSlow (c : ClientCmd) : Bool := isBlocking c.argv || decide (c.name ∈ slowNames)

/-- What `classifyPipe` finds for a command: slow, answered here, to be sent to a
node, or the panic on an empty command. -/
inductive Classified where
  | slow
  | here (v : Value)
  | send (slot : Nat) (addr : Addr) (f : Frame) (read : Bool)
  | panic

/-- `SELECT` in `classifyPipe`: state and reply. -/
def classifySelect (s : Session) (c : ClientCmd) : Session × Value :=
  if !s.authed then (s, errNoAuth)
  else match selectDB cfg c.argv with
    | .error v => (s, v)
    | .ok db => ({ s with db }, plusOK)

/-- `classifyPipe` from the rewriting on. -/
def classifyForward (s : Session) (c : ClientCmd) : Prog Classified := do
  match rewriteArgv c.argv s.db with
  | none => return .panic
  | some argv =>
    let raw := if s.db > 0 then [] else c.raw
    match extractKeys argv with
    | none => return .panic
    | some keys =>
      if crossSlot cfg keys then
        if fanoutOf argv ≠ .none then return .slow else return .here errCross
      else
        let slot := (keys.head?.map (slotOf cfg)).getD 0
        match ← owner cfg slot false with
        | none => return .here (error "ERR no backend nodes")
        | some addr =>
          -- `argv[0]` of an empty command
          if c.argv = [] then return .panic
          else
            return .send slot addr (frameFor argv raw (c.src s))
              (decide (kindOf (nameOf c.argv) = .read))

/-- `classifyPipe`. -/
def classifyPipe (s : Session) (c : ClientCmd) : Prog (Session × Classified) := do
  if s.sub.isSome || pipelineSlow c then return (s, .slow)
  else if c.name = "SELECT" then
    let (s, v) := classifySelect cfg s c
    return (s, .here v)
  else
    let (s, answer) ← handleLocal cfg s c.argv
    match answer with
    | some v => return (s, .here v)
    | none => return (s, ← classifyForward cfg s c)

/-- The classification pass; `none` is a panic. -/
def classifyAll : Session → List ClientCmd → Prog (Session × Option (List Classified))
  | s, [] => return (s, some [])
  | s, c :: cs => do
    match ← classifyPipe cfg s c with
    | (s, .panic) => return (s, none)
    | (s, k) => do
      let (s, ks) ← classifyAll s cs
      return (s, ks.map (k :: ·))

/-! ## Fast batches -/

/-- A command to be sent, at its place in the batch. -/
structure SendItem where
  idx : Nat
  slot : Nat
  addr : Addr
  frame : Frame
  read : Bool
deriving DecidableEq, Repr

/-- The commands of a batch that are sent. -/
def sendItems (ks : List Classified) : List SendItem :=
  ks.zipIdx.filterMap fun
    | (.send slot addr frame read, idx) => some { idx, slot, addr, frame, read }
    | _ => none

/-- The node groups, in first-seen order. -/
def nodeGroups (items : List SendItem) : List (Addr × List SendItem) :=
  Group.groupBy SendItem.addr items

/-- The read loop of `flushGroup`. -/
def readReplies (conn : ConnId) : List SendItem → Prog (Except Err (List Value))
  | [] => return .ok []
  | it :: its => do
    match ← ask (.read conn it.frame) with
    | .error e => return .error e
    | .ok v =>
      match ← readReplies conn its with
      | .error e => return .error e
      | .ok vs => return .ok (v :: vs)

/-- A redirected command is sent once more, through `Exec`. -/
def followOne (it : SendItem) (v : Value) : Prog (Except Err Value) :=
  match redirectOf v with
  | none => return .ok v
  | some _ => exec cfg it.slot { it.frame with raw := [] } it.read

/-- The redirect loop of `flushGroup`. -/
def followRedirects : List (SendItem × Value) → Prog (Except Err (List Value))
  | [] => return .ok []
  | (it, v) :: rest => do
    match ← followOne cfg it v with
    | .error e => return .error e
    | .ok v =>
      match ← followRedirects rest with
      | .error e => return .error e
      | .ok vs => return .ok (v :: vs)

/-- `flushGroup`: one write, one read for each command, then the redirects. -/
def flushGroup (addr : Addr) (items : List SendItem) : Prog (Except Err (List Value)) := do
  match ← getConn cfg addr false with
  | .error e => return .error e
  | .ok conn =>
    match ← ask (.write conn (items.map SendItem.frame)) with
    | some e => do
      ask (.drop conn)
      return .error e
    | none =>
      match ← readReplies conn items with
      | .error e => do
        ask (.drop conn)
        return .error e
      | .ok vs => do
        ask (.put conn)
        followRedirects cfg (items.zip vs)

/-- The write loop of `execFastPipeline`. -/
def writeReplies : List (CmdId × Value) → Prog Outcome
  | [] => do
    match ← ask .cflush with
    | some e => return .err e
    | none => return .ok
  | (id, v) :: rest => do
    match ← ask (.cwrite (some id) v) with
    | some e => return .err e
    | none => writeReplies rest

/-- The replies of the groups, by the places of their commands. -/
def gatherReplies (groups : List (Addr × List SendItem)) (vss : List (List Value)) :
    List (Nat × Value) :=
  (groups.zip vss).flatMap fun x => (x.1.2.map SendItem.idx).zip x.2

/-- The reply to each command: answered here, or found at its place. -/
def replyAt (replies : List (Nat × Value)) (k : Classified) (i : Nat) : Value :=
  match k with
  | .here v => v
  | _ => (replies.lookup i).getD Value.zero

/-- The reply phase of `execFastPipeline`; keys are stripped for the database
that is selected now. -/
def replyPhase (s : Session) (b : List ClientCmd) (ks : List Classified)
    (replies : List (Nat × Value)) : Prog (Session × Outcome) := do
  match ← ask .deadline with
  | some e => return (s, .err e)
  | none =>
    let out := (b.zip ks.zipIdx).map fun x =>
      (x.1.id, clientReply x.1.name s.db (replyAt replies x.2.1 x.2.2))
    return (s, ← writeReplies out)

/-- `execFastPipeline`. -/
def execFastPipeline (s : Session) (b : List ClientCmd) (ks : List Classified) :
    Prog (Session × Outcome) := do
  let groups := nodeGroups (sendItems ks)
  let rs ← Interact.Prog.parList (groups.map fun g => flushGroup cfg g.1 g.2)
  if errorsOf rs ≠ [] then return (s, ← reply none (errOf (← pickErr (errorsOf rs))))
  else replyPhase s b ks (gatherReplies groups (valuesOf rs))

/-! ## `handleBatch` and the run loop -/

/-- The commands of a batch one after the other, until one fails. -/
def handleSeq : Session → List ClientCmd → Prog (Session × Outcome)
  | s, [] => return (s, .ok)
  | s, c :: cs => do
    match ← handle cfg s c with
    | (s, .ok) => handleSeq s cs
    | r => return r

def Classified.isSlow : Classified → Bool
  | .slow => true
  | _ => false

/-- `handleBatch`. -/
def handleBatch (s : Session) (b : List ClientCmd) : Prog (Session × Outcome) := do
  match b with
  | [c] => handle cfg s c
  | b =>
    match ← classifyAll cfg s b with
    | (s, none) => return (s, .panic)
    | (s, some ks) =>
      if ks.any Classified.isSlow then handleSeq cfg s b
      else execFastPipeline cfg s b ks

/-- The loop of `run` over the batches the client's input makes. -/
def runLoop : Session → List (List ClientCmd) → Prog (Session × Outcome)
  | s, [] => return (s, .ok)
  | s, b :: bs => do
    if s.quit then return (s, .ok)
    else
      match ← ask .ctxErr with
      | some e => return (s, .err e)
      | none =>
        match ← handleBatch cfg s b with
        | (s, .ok) => runLoop s bs
        | r => return r

/-- The connections `cleanup` drops besides the pin. -/
def dropAll : List ConnId → Prog Unit
  | [] => return ()
  | c :: cs => do
    ask (.drop c)
    dropAll cs

/-- `cleanup`. -/
def cleanup (s : Session) : Prog Unit := do
  let _ ← dropPin s
  match s.sub with
  | some _ => dropAll (← ask .closeSub)
  | none => return ()

/-- The deferred `cleanup`, once the loop has ended. -/
def closeDown (r : Session × Outcome) : Prog (Session × Outcome) := do
  if r.2 = .running then return r
  else
    cleanup r.1
    return r

/-- `run`. -/
def run (s : Session) (bs : List (List ClientCmd)) : Prog (Session × Outcome) := do
  closeDown (← runLoop cfg s bs)

end RespProxy.Proxy
