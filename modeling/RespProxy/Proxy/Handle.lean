import RespProxy.Proxy.PubSub

/-! # One command at a time (`internal/proxy/session.go`)

`handle` and the commands it dispatches to. Every path ends in the reply (or
replies) to the command, or in an error that closes the session.
-/

namespace RespProxy.Proxy

open Cluster Command Resp

variable (cfg : Config)

/-- The origin of what is sent at once for a command. -/
def ClientCmd.src (c : ClientCmd) (s : Session) : Origin := .client c.id c.argv s.db false

/-! ## `SELECT`, `MULTI`, `DISCARD` -/

/-- The database a `SELECT` names, or the error it is answered with. -/
def selectDB (argv : Argv) : Except Value Nat :=
  match argv with
  | [_, db] =>
    match parseDBIndex db cfg.maxDatabases with
    | .ok n => .ok n
    | .error e => .error (dbIndexError e)
  | _ => .error errSelectArgs

/-- Append a command to the queue. -/
def Session.enqueue (s : Session) (c : ClientCmd) : Session :=
  { s with queued := s.queued ++ [{ id := c.id, argv := cloneArgv c.argv }] }

/-- `cmdSelect`: state and reply. -/
def selectStep (s : Session) (c : ClientCmd) : Session × Value :=
  if !s.authed then (s, errNoAuth)
  else match selectDB cfg c.argv with
    | .error v => (s, v)
    | .ok db => if s.multi then (s.enqueue c, queuedReply) else ({ s with db }, plusOK)

/-- `cmdMulti`: state and reply. -/
def multiStep (s : Session) : Session × Value :=
  if s.multi then (s, errNested) else ({ s with multi := true, queued := [] }, plusOK)

/-- `cmdDiscard`: state and reply. -/
def discardStep (s : Session) : Session × Value :=
  if s.multi then ({ s with multi := false, queued := [] }, plusOK)
  else (s, error "ERR DISCARD without MULTI")

/-! ## `WATCH`, `UNWATCH` -/

/-- The pinned connection, checked out if there is none. -/
def ensurePin (s : Session) (slot : Nat) : Prog (Except Err (Session × ConnId)) := do
  match s.pin with
  | some c => return .ok (s, c)
  | none =>
    match ← checkout cfg slot with
    | .error e => return .error e
    | .ok c => do
      let gen ← generation
      return .ok ({ s with pin := some c, pinGen := gen }, c)

/-- `cmdWatch` behind its checks. -/
def watchKeys (s : Session) (c : ClientCmd) (argv : Argv) (keys : List Slice) (slot : Nat) :
    Prog (Session × Outcome) := do
  match ← ensurePin cfg s slot with
  | .error e => finish s c.id (errOf e)
  | .ok (s, pin) =>
    match ← doFrame pin { argv, src := c.src s } with
    | .error e => do
      let s ← dropPin s
      finish s c.id (errOf e)
    | .ok v => finish { s with watched := s.watched ++ cloneArgv keys } c.id v

/-- `cmdWatch`. -/
def cmdWatch (s : Session) (c : ClientCmd) : Prog (Session × Outcome) :=
  if s.multi then finish s c.id errWatchTxn
  else match rewriteArgv c.argv s.db with
    | none => return (s, .panic)
    | some argv =>
      match extractKeys argv with
      | none => return (s, .panic)
      | some [] => finish s c.id (error "ERR wrong number of arguments for 'watch' command")
      | some (k :: ks) =>
        if crossSlot cfg (k :: ks) then finish s c.id errCross
        else watchKeys cfg s c argv (k :: ks) (slotOf cfg k)

/-- `cmdUnwatch`. -/
def cmdUnwatch (s : Session) (c : ClientCmd) : Prog (Session × Outcome) := do
  match s.pin with
  | some pin => do
    let _ ← doFrame pin { argv := [arg "UNWATCH"], src := c.src s }
    let s ← dropPin s
    finish { s with watched := [] } c.id plusOK
  | none => finish { s with watched := [] } c.id plusOK

/-! ## `EXEC` -/

/-- A queued command at `EXEC`: answered here, or sent. -/
inductive ExecItem where
  | here (v : Value)
  | send (f : Frame)

/-- What `EXEC` makes of the queue: the items, their keys and the database
selected at the end. -/
structure ExecPlan where
  items : List ExecItem
  keys : List Slice
  db : Nat

/-- The queue loop of `cmdExec`; `none` is a panic. -/
def execPlan : (db : Nat) → List QueuedCmd → Option ExecPlan
  | db, [] => some { items := [], keys := [], db }
  | db, q :: qs =>
    if q.argv ≠ [] ∧ nameOf q.argv = "SELECT" then
      match selectDB cfg q.argv with
      | .error v => (execPlan db qs).map fun p => { p with items := .here v :: p.items }
      | .ok n => (execPlan n qs).map fun p => { p with items := .here plusOK :: p.items }
    else do
      let argv ← rewriteArgv q.argv db
      let keys ← extractKeys argv
      let p ← execPlan db qs
      return { p with
        items := .send { argv, src := .client q.id q.argv db true } :: p.items
        keys := keys ++ p.keys }

/-- The frames among the items. -/
def ExecPlan.backend (p : ExecPlan) : List Frame :=
  p.items.filterMap fun
    | .send f => some f
    | .here _ => none

/-- `mergeExecReply`: the backend's replies in the places of the commands sent. -/
def mergeItems : List ExecItem → List Value → List Value
  | [], _ => []
  | .here v :: items, vs => v :: mergeItems items vs
  | .send _ :: items, v :: vs => v :: mergeItems items vs
  | .send _ :: items, [] => error "ERR EXEC reply missing" :: mergeItems items []

def mergeExecReply (items : List ExecItem) (v : Value) : Value :=
  if v.type ≠ .array ∨ v.null then v else array (mergeItems items v.values)

/-- Send frames one by one, each after the reply to the one before; the reply to
the last one. -/
def doFrames (c : ConnId) : List Frame → Value → Prog (Except Err Value)
  | [], last => return .ok last
  | f :: fs, _ => do
    match ← doFrame c f with
    | .error e => return .error e
    | .ok v => doFrames c fs v

/-- The connection of a transaction: the pin, else one for the slot. -/
def execConn (s : Session) (slot : Nat) : Prog (Except Err ConnId) :=
  match s.pin with
  | some c => return .ok c
  | none => checkout cfg slot

/-- The state and the reply after the backend's `EXEC`. -/
def execDone (s : Session) (p : ExecPlan) (v : Value) : Session × Value :=
  if v.null then ({ s with watched := [] }, v)
  else ({ s with watched := [], db := p.db }, mergeExecReply p.items v)

/-- The backend transaction of `cmdExec`. -/
def execBackend (s : Session) (c : ClientCmd) (p : ExecPlan) (slot : Nat) :
    Prog (Session × Outcome) := do
  let conn ← execConn cfg s slot
  let s := s.unpin
  match conn with
  | .error e => finish s c.id (errOf e)
  | .ok conn =>
    let src := c.src s
    let frames := { argv := [arg "MULTI"], src } :: p.backend ++ [{ argv := [arg "EXEC"], src }]
    match ← doFrames conn frames Value.zero with
    | .error e => do
      ask (.drop conn)
      finish s c.id (errOf e)
    | .ok v => do
      let (s, v) := execDone s p v
      let o ← reply (some c.id) v
      ask (.put conn)
      return (s, o)

/-- `cmdExec` behind the check of the topology generation; `s` is out of `MULTI`. -/
def execQueued (s : Session) (c : ClientCmd) (queue : List QueuedCmd) :
    Prog (Session × Outcome) :=
  match execPlan cfg s.db queue with
  | none => return (s, .panic)
  | some p =>
    let keys := s.watched ++ p.keys
    if crossSlot cfg keys then do
      let s ← dropPin s
      finish s c.id errCross
    else if p.backend = [] then
      finish { s with db := p.db, watched := [] } c.id
        (array (p.items.map fun
          | .here v => v
          | .send _ => Value.zero))
    else execBackend cfg s c p ((keys.head?.map (slotOf cfg)).getD 0)

/-- The pinned connection belongs to an older topology. -/
def pinStale (s : Session) : Prog Bool := do
  match s.pin with
  | none => return false
  | some _ => return decide (s.pinGen ≠ (← generation))

/-- `cmdExec`. -/
def cmdExec (s : Session) (c : ClientCmd) : Prog (Session × Outcome) := do
  if !s.multi then finish s c.id errNoMulti
  else
    let queue := s.queued
    let s := { s with multi := false, queued := [] }
    if ← pinStale s then do
      let s ← dropPin s
      finish s c.id (error "EXECABORT Transaction discarded because of topology change")
    else execQueued cfg s c queue

/-! ## `MOVE`, `COPY` -/

/-- `errFromValue`. -/
def errFromValue (v : Value) : Err :=
  if v.str.bytes = [] then "backend error" else str v.str.bytes

/-- The transfer inside one slot: `RENAME` or `COPY`. -/
def transferLocal (src : Origin) (key dst : Slice) (delSrc replace : Bool) :
    Prog (Except Err Int) := do
  let argv := if delSrc then [arg "RENAME", key, dst]
    else [arg "COPY", key, dst] ++ (if replace then [arg "REPLACE"] else [])
  match ← exec cfg (slotOf cfg key) { argv, src } false with
  | .error e => return .error e
  | .ok v =>
    if v.isError then return .error (errFromValue v)
    else if delSrc then return .ok 1
    else if v.type = .integer then return .ok v.int
    else return .ok 1

/-- The transfer between slots: `DUMP`, `RESTORE`, and `DEL` for a move. -/
def transferDump (src : Origin) (key dst : Slice) (delSrc replace : Bool) :
    Prog (Except Err Int) := do
  match ← exec cfg (slotOf cfg key) { argv := [arg "DUMP", key], src } true with
  | .error e => return .error e
  | .ok dump =>
    if dump.isError then return .error (errFromValue dump)
    else if dump.null = true ∨ dump.str.bytes = [] then return .ok 0
    else
      let restore := [arg "RESTORE", dst, arg "0", dump.str] ++
        (if replace then [arg "REPLACE"] else [])
      match ← exec cfg (slotOf cfg dst) { argv := restore, src } false with
      | .error e => return .error e
      | .ok v =>
        if v.isError then return .error (errFromValue v)
        else if delSrc then do
          let _ ← exec cfg (slotOf cfg key) { argv := [arg "DEL", key], src } false
          return .ok 1
        else return .ok 1

/-- `transferKey`. -/
def transferKey (src : Origin) (key dst : Slice) (delSrc replace : Bool) :
    Prog (Except Err Int) := do
  let transfer : Prog (Except Err Int) :=
    if slotOf cfg key = slotOf cfg dst then transferLocal cfg src key dst delSrc replace
    else transferDump cfg src key dst delSrc replace
  if replace then transfer
  else
    match ← exec cfg (slotOf cfg dst) { argv := [arg "EXISTS", dst], src } true with
    | .error e => return .error e
    | .ok ex =>
      if !ex.isError ∧ ex.type = .integer ∧ ex.int > 0 then return .ok 0
      else transfer

/-- The reply of `MOVE` and `COPY`. -/
def finishTransfer (s : Session) (c : ClientCmd) (key dst : Slice) (delSrc replace : Bool) :
    Prog (Session × Outcome) := do
  match ← transferKey cfg (c.src s) key dst delSrc replace with
  | .error e => finish s c.id (errOf e)
  | .ok n => finish s c.id (integer n)

/-- `cmdMove`. -/
def cmdMove (s : Session) (c : ClientCmd) : Prog (Session × Outcome) :=
  match c.argv with
  | [_, key, db] =>
    match parseDBIndex db cfg.maxDatabases with
    | .error e => finish s c.id (dbIndexError e)
    | .ok destDB =>
      if destDB = s.db then
        finish s c.id (error "ERR source and destination objects are the same")
      else finishTransfer cfg s c (prefixKey s.db key) (prefixKey destDB key) true false
  | _ => finish s c.id (error "ERR wrong number of arguments for 'move' command")

/-- The option loop of `cmdCopy`. -/
def copyArgs (cfg : Config) : Argv → (db : Nat) → (replace : Bool) → Except Value (Nat × Bool)
  | [], db, replace => .ok (db, replace)
  | a :: rest, db, replace =>
    if a.fold "REPLACE" then copyArgs cfg rest db true
    else if a.fold "DB" then
      match rest with
      | [] => .error (error "ERR syntax error")
      | v :: rest' =>
        match parseDBIndex v cfg.maxDatabases with
        | .error e => .error (dbIndexError e)
        | .ok n => copyArgs cfg rest' n replace
    else copyArgs cfg rest db replace

/-- `cmdCopy`. -/
def cmdCopy (s : Session) (c : ClientCmd) : Prog (Session × Outcome) :=
  match c.argv with
  | _ :: key :: dst :: opts =>
    match copyArgs cfg opts s.db false with
    | .error v => finish s c.id v
    | .ok (destDB, replace) =>
      finishTransfer cfg s c (prefixKey s.db key) (prefixKey destDB dst) false replace
  | _ => finish s c.id (error "ERR wrong number of arguments for 'copy' command")

/-! ## `FLUSHDB`, `RANDOMKEY` -/

/-- The pattern of all keys of a database. -/
def dbPattern (db : Nat) : Slice := .mk (dbPrefix db ++ lit "*")

/-- `DEL` of the keys a `SCAN` reply lists; the keys that are not empty. -/
def delArgv (keys : Value) : Argv :=
  (if keys.type = .array then keys.values else []).filterMap fun k =>
    if k.str.bytes = [] then none else some k.str

/-- One `DEL`, if there is something to delete. -/
def scanDelete (conn : ConnId) (src : Origin) (keys : Value) : Prog (Option Err) := do
  if delArgv keys = [] then return none
  else
    match ← doFrame conn { argv := arg "DEL" :: delArgv keys, src } with
    | .error e => return some e
    | .ok _ => return none

/-- How a scan ended; `io` means the connection failed. -/
inductive ScanEnd where
  | done | failed (e : Err) | io (e : Err) | running
deriving DecidableEq, Repr

/-- The loop of `scanDeleteOn`, for the given number of rounds. -/
def scanLoop (conn : ConnId) (src : Origin) (pattern : Slice) : Nat → Slice → Prog ScanEnd
  | 0, _ => return .running
  | rounds + 1, cursor => do
    let scan : Frame := { argv := [arg "SCAN", cursor, arg "MATCH", pattern, arg "COUNT", arg "256"], src }
    match ← doFrame conn scan with
    | .error e => return .io e
    | .ok v =>
      if v.isError then return .failed (errFromValue v)
      else match v.type, v.values with
        | .array, next :: keys :: _ =>
          match ← scanDelete conn src keys with
          | some e => return .io e
          | none =>
            if next.str.bytes = lit "0" then return .done
            else scanLoop conn src pattern rounds (Slice.ofAppend next.str.bytes)
        | _, _ => return .done

/-- `scanDeleteOn`. -/
def scanDeleteOn (addr : Addr) (src : Origin) (pattern : Slice) : Prog ScanEnd := do
  match ← getConn cfg addr false with
  | .error e => return .failed e
  | .ok conn => do
    let rounds ← ask .turns
    match ← scanLoop conn src pattern rounds (arg "0") with
    | .io e => do
      ask (.drop conn)
      return .failed e
    | .running => return .running
    | r => do
      ask (.put conn)
      return r

/-- The node loop of `cmdFlushDB`. -/
def flushNodes (src : Origin) (pattern : Slice) : List Addr → Prog ScanEnd
  | [] => return .done
  | addr :: addrs => do
    match ← scanDeleteOn cfg addr src pattern with
    | .done => flushNodes src pattern addrs
    | r => return r

/-- `cmdFlushDB`. -/
def cmdFlushDB (s : Session) (c : ClientCmd) : Prog (Session × Outcome) := do
  if s.db = 0 then
    match ← exec cfg 0 { argv := [arg "FLUSHDB"], src := c.src s } false with
    | .error e => finish s c.id (errOf e)
    | .ok v => finish s c.id v
  else
    match ← flushNodes cfg (c.src s) (dbPattern s.db) (← candidateAddrs cfg) with
    | .done => finish s c.id plusOK
    | .running => return (s, .running)
    | .failed e | .io e => finish s c.id (errOf e)

/-- The key `RANDOMKEY` takes from a `SCAN` reply. -/
def firstKey (db : Nat) (v : Value) : Value :=
  match v.type, v.values with
  | .array, _ :: keys :: _ =>
    match keys.type, keys.values with
    | .array, k :: _ => bulkString (stripKey db k.str)
    | _, _ => nullBulk
  | _, _ => nullBulk

/-- `cmdRandomKey`. -/
def cmdRandomKey (s : Session) (c : ClientCmd) : Prog (Session × Outcome) := do
  if s.db = 0 then
    match ← exec cfg 0 { argv := [arg "RANDOMKEY"], src := c.src s } true with
    | .error e => finish s c.id (errOf e)
    | .ok v =>
      if v.null = false ∧ hasVirtualDBPrefix v.str.bytes then finish s c.id nullBulk
      else finish s c.id v
  else
    let scan := [arg "SCAN", arg "0", arg "MATCH", dbPattern s.db, arg "COUNT", arg "16"]
    match ← exec cfg 0 { argv := scan, src := c.src s } true with
    | .error e => finish s c.id (errOf e)
    | .ok v => if v.isError then finish s c.id v else finish s c.id (firstKey s.db v)

/-! ## Pub/sub -/

/-- `cmdPublish`. -/
def cmdPublish (s : Session) (c : ClientCmd) : Prog (Session × Outcome) := do
  let argv := rewritePublish (← currentFlavor) c.argv
  let slot := (argv[1]?.map (slotOf cfg)).getD 0
  match ← exec cfg slot { argv, src := c.src s } false with
  | .error e => finish s c.id (errOf e)
  | .ok v => finish s c.id v

/-- The replies of a subscription command, one after the other. -/
def replyAll (s : Session) (id : CmdId) : List Value → Prog (Session × Outcome)
  | [] => return (s, .ok)
  | v :: vs => do
    match ← reply (some id) v with
    | .ok => replyAll s id vs
    | o => return (s, o)

/-- `enterSub`. -/
def enterSub (s : Session) (c : ClientCmd) : Prog (Session × Outcome) := do
  let mode ← newMode
  let replies ← handleClientCmd cfg mode (c.src s) c.argv
  replyAll { s with sub := some mode } c.id replies

/-- `handleSub` of a command that is not empty. -/
def handleSub (s : Session) (mode : Mode) (c : ClientCmd) : Prog (Session × Outcome) := do
  if nameOf c.argv = "PING" then
    let payload := match c.argv with
      | [_] => Slice.mk []
      | argv => argv.getD 1 .nil
    finish s c.id (array [bulkString (arg "pong"), bulkString payload])
  else if nameOf c.argv = "QUIT" then finish { s with quit := true } c.id plusOK
  else
    replyAll s c.id (← handleClientCmd cfg mode (c.src s) c.argv)

/-! ## Forwarding -/

/-- `needsRewrite`. -/
def needsRewrite (argv : Argv) : Bool := decide (classifyPubSub (nameOf argv) = .publish)

/-- The frame for a command: the client's bytes where they can be used. -/
def frameFor (argv : Argv) (raw : Bytes) (src : Origin) : Frame :=
  { argv, raw := if needsRewrite argv then [] else raw, src }

/-- `doBlocking`. -/
def doBlocking (slot : Nat) (f : Frame) : Prog (Except Err Value) := do
  match ← checkout cfg slot with
  | .error e => return .error e
  | .ok conn =>
    match ← doFrame conn f with
    | .error e => do
      ask (.drop conn)
      return .error e
    | .ok v =>
      match redirectOf v with
      | some red =>
        if red.moved then do
          ask (.drop conn)
          updateSlotAt red.slot red.addr
          exec cfg red.slot f false
        else do
          ask (.put conn)
          return .ok v
      | none => do
        ask (.put conn)
        return .ok v

/-- What the client gets for a backend reply: redirects are hidden, echoed keys
lose the prefix of the database. -/
def clientReply (name : String) (db : Nat) (v : Value) : Value :=
  if v.isError then
    if v.equalKind "MOVED" || v.equalKind "ASK" then errExhausted else v
  else stripReplyKeys name db v

/-- One of the errors the goroutines of a parallel section reported. -/
def pickErr (errs : List Err) : Prog Err := do
  let i ← ask .race
  return errs.getD (i % errs.length) ""

/-- The errors among results. -/
def errorsOf {α : Type} (rs : List (Except Err α)) : List Err :=
  rs.filterMap fun
    | .error e => some e
    | .ok _ => none

/-- The values among results. -/
def valuesOf {α : Type} (rs : List (Except Err α)) : List α :=
  rs.filterMap fun
    | .ok v => some v
    | .error _ => none

/-- The merged reply of a fan-out without errors. -/
def mergeFanout (fanout : Fanout) (nKeys : Nat) (groups : List KeyGroup) (replies : List Value) :
    Value :=
  match fanout with
  | .sum => mergeSum replies
  | .mget => mergeMGet nKeys groups replies
  | .mset => mergeMSet replies
  | .none => errCross

/-- The reply of a fan-out: the first error, else the merged replies. -/
def fanoutReply (name : String) (db : Nat) (argv : Argv) (nKeys : Nat) (groups : List KeyGroup)
    (replies : List Value) : Value :=
  match replies.find? Value.isError with
  | some r => if r.equalKind "MOVED" || r.equalKind "ASK" then errExhausted else r
  | none =>
    let v := mergeFanout (fanoutOf argv) nKeys groups replies
    if v.isError then v else stripReplyKeys name db v

/-- `cmdFanout`. -/
def cmdFanout (s : Session) (c : ClientCmd) (argv : Argv) (keys : List Slice) :
    Prog (Session × Outcome) := do
  let groups := groupBySlot keys (slotOf cfg)
  if groups = [] then finish s c.id errCross
  else match groups.mapM (rebuildFanoutArgv argv) with
    | none => return (s, .panic)
    | some argvs => do
      let read := decide (kindOf (nameOf argv) = .read)
      let rs ← Interact.Prog.parList ((groups.zip argvs).map fun ga =>
        exec cfg ga.1.slot { argv := ga.2, src := c.src s } read)
      if errorsOf rs ≠ [] then finish s c.id (errOf (← pickErr (errorsOf rs)))
      else
        finish s c.id (fanoutReply c.name s.db argv keys.length groups (valuesOf rs))

/-- A keyless command looks for a master, and then goes to slot 0 all the same. -/
def keylessMaster (keys : List Slice) : Prog Unit :=
  if keys = [] then do
    let _ ← anyMaster cfg
    return ()
  else return ()

/-- The round trip of a forwarded command. -/
def sendOne (slot : Nat) (f : Frame) : Prog (Except Err Value) :=
  if isBlocking f.argv then doBlocking cfg slot { f with raw := [] }
  else exec cfg slot f (decide (kindOf (nameOf f.argv) = .read))

/-- `handle` from the rewriting on, for commands sent to the owner of their slot. -/
def forward (s : Session) (c : ClientCmd) : Prog (Session × Outcome) := do
  match rewriteArgv c.argv s.db with
  | none => return (s, .panic)
  | some argv =>
    let raw := if s.db > 0 then [] else c.raw
    match extractKeys argv with
    | none => return (s, .panic)
    | some keys =>
      if crossSlot cfg keys then
        if fanoutOf argv ≠ .none then cmdFanout cfg s c argv keys
        else finish s c.id errCross
      else
        keylessMaster cfg keys
        let slot := (keys.head?.map (slotOf cfg)).getD 0
        match ← sendOne cfg slot (frameFor argv raw (c.src s)) with
        | .error e => finish s c.id (errOf e)
        | .ok v => finish s c.id (clientReply c.name s.db v)

/-- `handle` outside transactions, for a command that is not empty. -/
def dispatch (s : Session) (c : ClientCmd) : Prog (Session × Outcome) :=
  let op := classifyPubSub (nameOf c.argv)
  if op = .subscribe ∨ op = .psubscribe ∨ op = .ssubscribe then enterSub cfg s c
  else if op = .publish ∨ op = .spublish then cmdPublish cfg s c
  else if c.name = "SWAPDB" then finish s c.id errSwapDB
  else if c.name = "FLUSHALL" then finish s c.id errFlushAll
  else if c.name = "FLUSHDB" then cmdFlushDB cfg s c
  else if c.name = "MOVE" then cmdMove cfg s c
  else if c.name = "COPY" then cmdCopy cfg s c
  else if c.name = "RANDOMKEY" then cmdRandomKey cfg s c
  else forward cfg s c

/-- `handle` behind the local commands. -/
def handleRemote (s : Session) (c : ClientCmd) : Prog (Session × Outcome) :=
  if c.name = "MULTI" then let (s, v) := multiStep s; finish s c.id v
  else if c.name = "DISCARD" then let (s, v) := discardStep s; finish s c.id v
  else if c.name = "EXEC" then cmdExec cfg s c
  else if c.name = "WATCH" then cmdWatch cfg s c
  else if c.name = "UNWATCH" then cmdUnwatch s c
  else if s.multi then finish (s.enqueue c) c.id queuedReply
  -- `argv[0]` of an empty command
  else if c.argv = [] then return (s, .panic)
  else dispatch cfg s c

/-- `handle`. -/
def handle (s : Session) (c : ClientCmd) : Prog (Session × Outcome) := do
  match s.sub with
  | some mode => if c.argv = [] then return (s, .panic) else handleSub cfg s mode c
  | none =>
    if c.name = "SELECT" then let (s, v) := selectStep cfg s c; finish s c.id v
    else
      let (s, answer) ← handleLocal cfg s c.argv
      match answer with
      | some v => finish s c.id v
      | none => handleRemote cfg s c

/-! ## Requests inside the proxy -/

variable {A : Event → Prop} {cfg}

theorem pickErr_inner (errs : List Err) : Inner A (pickErr errs) := fun _ _ => ⟨trivial, trivial⟩

theorem keylessMaster_inner (keys : List Slice) : Inner A (keylessMaster cfg keys) := by
  unfold keylessMaster
  split
  · exact anyMaster_inner.bind fun _ _ => trivial
  · trivial

theorem pinStale_inner (s : Session) : Inner A (pinStale s) := by
  unfold pinStale
  split
  · trivial
  · exact generation_inner.bind fun _ _ => trivial

theorem newMode_inner : Inner A newMode := by
  refine currentFlavor_inner.bind fun f _ => ?_
  split <;> trivial

end RespProxy.Proxy
