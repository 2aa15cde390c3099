import RespProxy.Cluster.Router
import RespProxy.Command.Db

/-! # Client sessions: state, replies, local commands
(`internal/proxy/session.go`, `local.go`)

The state of one client connection and the commands the proxy answers without
a backend. `handleLocal` is a pure step on the state (`localStep`) and, for
`RESET`, the dropping of the pinned connection.
-/

namespace RespProxy.Proxy

open Cluster Command Resp

/-- How a subscribed session talks pub/sub to the backend. -/
inductive Mode where
  | passthrough | shardedRewrite
deriving DecidableEq, Repr

/-- A command queued by `MULTI`. -/
structure QueuedCmd where
  id : CmdId
  argv : Argv
deriving DecidableEq, Repr

/-- The mutable fields of a session. -/
structure Session where
  authed : Bool
  quit : Bool := false
  db : Nat := 0
  multi : Bool := false
  queued : List QueuedCmd := []
  watched : List Slice := []
  pin : Option ConnId := none
  pinGen : Nat := 0
  sub : Option Mode := none
deriving DecidableEq, Repr

/-- A client command as `run` and `drainBatch` hand it on. -/
structure ClientCmd where
  id : CmdId
  argv : Argv
  raw : Bytes := []
deriving DecidableEq, Repr

/-- The `name` of a client command. -/
def ClientCmd.name (c : ClientCmd) : String := if c.argv = [] then "unknown" else nameOf c.argv

theorem ClientCmd.argv_ne_nil {c : ClientCmd} (h : c.name ≠ "unknown") : c.argv ≠ [] :=
  fun hc => h (if_pos hc)

theorem ClientCmd.name_of_ne {c : ClientCmd} (h : c.argv ≠ []) : c.name = nameOf c.argv := if_neg h

theorem ClientCmd.argv_ne_of_mem {c : ClientCmd} {names : List String} (h : c.name ∈ names)
    (hn : "unknown" ∉ names) : c.argv ≠ [] := argv_ne_nil fun hc => hn (hc ▸ h)

/-- The command a client sends as these words. -/
def command (seq : Nat) (words : List String) : ClientCmd :=
  { id := { session := 0, seq }, argv := words.map arg, raw := encodeCommand (words.map arg) }

/-- How a session method ended: it returned nil, it returned an error (the
session closes), it panicked (the process ends), or it is still in a loop. -/
inductive Outcome where
  | ok | err (e : Err) | panic | running
deriving DecidableEq, Repr

def requireAuth (cfg : Config) : Bool := decide (cfg.clientAuthPassword ≠ [])

/-- `newSession`. -/
def newSession (cfg : Config) : Session := { authed := !requireAuth cfg }

/-! ## Replies -/

def errCluster : Value := error "ERR This instance has cluster support disabled"
def errSwapDB : Value := error "ERR SWAPDB is not supported"
def errFlushAll : Value :=
  error "ERR FLUSHALL is not supported; use FLUSHDB on a virtual database"
def errAuth : Value := error "WRONGPASS invalid username-password pair or user is disabled."
def errNoAuth : Value := error "NOAUTH Authentication required."
def errCross : Value := error "CROSSSLOT Keys in request don't hash to the same slot"
def errNoMulti : Value := error "ERR EXEC without MULTI"
def errNested : Value := error "ERR MULTI calls can not be nested"
def errWatchTxn : Value := error "ERR WATCH inside MULTI is not allowed"
def errExhausted : Value := error "ERR backend redirect exhausted"
def errSelectArgs : Value := error "ERR wrong number of arguments for 'select' command"
def queuedReply : Value := simpleString "QUEUED"
def plusPong : Value := simpleString "PONG"
def plusOK : Value := simpleString "OK"

theorem plusOK_ne_error (msg : String) : plusOK ≠ error msg := by
  intro h
  have htype := congrArg Value.type h
  cases htype

/-- `resp.Error("ERR " + err.Error())`. -/
def errOf (e : Err) : Value := error ("ERR " ++ e)

/-- `reply`: deadline, write, flush. -/
def reply (id : Option CmdId) (v : Value) : Prog Outcome := do
  match ← ask .deadline with
  | some e => return .err e
  | none =>
    match ← ask (.cwrite id v) with
    | some e => return .err e
    | none =>
      match ← ask .cflush with
      | some e => return .err e
      | none => return .ok

/-- `reply` takes its three steps, or stops at the first that fails. -/
theorem reply_cases {id : Option CmdId} {v : Value} {tr : Trace} {o : Outcome}
    (h : (reply id v).Runs tr o) :
    (o = .ok ∧ tr = [⟨.deadline, none⟩, ⟨.cwrite id v, none⟩, ⟨.cflush, none⟩]) ∨
      ∃ e, o = .err e ∧ (tr = [⟨.deadline, some e⟩] ∨
        tr = [⟨.deadline, none⟩, ⟨.cwrite id v, some e⟩] ∨
        tr = [⟨.deadline, none⟩, ⟨.cwrite id v, none⟩, ⟨.cflush, some e⟩]) := by
  obtain ⟨_ | e, tr, rfl, h⟩ := h
  · obtain ⟨_ | e, tr, rfl, h⟩ := h
    · obtain ⟨_ | e, tr, rfl, h⟩ := h
      · exact .inl ⟨h.2.symm, by rw [h.1]⟩
      · exact .inr ⟨e, h.2.symm, .inr (.inr (by rw [h.1]))⟩
    · exact .inr ⟨e, h.2.symm, .inr (.inl (by rw [h.1]))⟩
  · exact .inr ⟨e, h.2.symm, .inl (by rw [h.1])⟩

/-- `return s.reply(v)`. -/
def finish (s : Session) (id : CmdId) (v : Value) : Prog (Session × Outcome) := do
  return (s, ← reply (some id) v)

/-! ## Transactions -/

/-- The session without pin, as `dropPin` leaves it. -/
def Session.unpin (s : Session) : Session := { s with pin := none }

/-- `dropPin`. -/
def dropPin (s : Session) : Prog Session := do
  match s.pin with
  | some c => do
    ask (.drop c)
    return s.unpin
  | none => return s.unpin

/-- The session outside any transaction, as `resetTxn` leaves it. -/
def Session.resetTxn (s : Session) : Session :=
  { s with multi := false, queued := [], watched := [], pin := none }

/-! ## Local commands -/

/-- `doAuth`. -/
def doAuth (cfg : Config) (s : Session) (argv : Argv) : Session × Value :=
  if !requireAuth cfg then (s, plusOK)
  else
    let pass := match argv with
      | [_, p] => some p
      | [_, _, p] => some p
      | _ => none
    match pass with
    | none => (s, error "ERR wrong number of arguments for 'auth' command")
    | some p => if p.bytes = cfg.clientAuthPassword then ({ s with authed := true }, plusOK)
      else (s, errAuth)

def helloReply : Value :=
  array [bulkString (arg "server"), bulkString (arg "redis"),
    bulkString (arg "version"), bulkString (arg "7.2.0"),
    bulkString (arg "proto"), integer 2,
    bulkString (arg "id"), integer 1,
    bulkString (arg "mode"), bulkString (arg "standalone"),
    bulkString (arg "role"), bulkString (arg "master"),
    bulkString (arg "modules"), array []]

/-- The loop of `helloAuth`: the arguments from the first `AUTH` on, which is not
looked for in the last place. -/
def helloAuthArgs : Argv → Option Argv
  | a :: b :: rest => if a.fold "AUTH" then some (a :: b :: rest) else helloAuthArgs (b :: rest)
  | _ => none

/-- `helloAuth`. -/
def helloAuth (cfg : Config) (s : Session) (argv : Argv) : Option (Session × Value) :=
  match helloAuthArgs (argv.drop 1) with
  | none => none
  | some (_ :: _ :: pass :: _) =>
    if pass.bytes = cfg.clientAuthPassword then some ({ s with authed := true }, helloReply)
    else some (s, errAuth)
  | some _ => some (s, errAuth)

/-- `strings.ToUpper`, as far as comparisons with ASCII words can tell: the dotless
i and the long s are the runes outside ASCII with an ASCII upper case. -/
def toUpper : Bytes → Bytes
  | 0xc4 :: 0xb1 :: rest => 73 :: toUpper rest
  | 0xc5 :: 0xbf :: rest => 83 :: toUpper rest
  | c :: rest => upperByte c :: toUpper rest
  | [] => []

/-- `handleCluster`; only `HELP` and `INFO` are answered. -/
def handleCluster (argv : Argv) : Value :=
  match argv with
  | _ :: sub :: _ =>
    if toUpper sub.bytes = lit "HELP" then
      array [bulkString (arg "CLUSTER HELP"),
        bulkString (arg "This instance has cluster support disabled")]
    else if toUpper sub.bytes = lit "INFO" then
      bulkString (arg
        "cluster_state:fail\r\ncluster_slots_assigned:0\r\ncluster_enabled:0\r\n")
    else errCluster
  | _ => errCluster

def infoReply : Value :=
  bulkString (arg
    "# Server\r\nredis_version:7.2.0\r\nredis_mode:standalone\r\nos:proxy\r\ndcrp_version:dev\r\ncluster_enabled:0\r\n")

/-- `handleLocal` without the closing of the pinned connection by `RESET`: the
session and, if the command is answered here, the reply. -/
def localStep (cfg : Config) (s : Session) (argv : Argv) : Session × Option Value :=
  let name := nameOf argv
  if argv = [] then (s, none)
  else if name = "PING" then
    if !s.authed then (s, some errNoAuth)
    else match argv with
      | [_] => (s, some plusPong)
      | argv => (s, some (bulkString (argv.getD 1 .nil)))
  else if name = "ECHO" then
    if !s.authed then (s, some errNoAuth)
    else if argv.length ≠ 2 then
      (s, some (error "ERR wrong number of arguments for 'echo' command"))
    else (s, some (bulkString (argv.getD 1 .nil)))
  else if name = "AUTH" then
    let (s, v) := doAuth cfg s argv
    (s, some v)
  else if name = "QUIT" then ({ s with quit := true }, some plusOK)
  else if name = "CLUSTER" then
    if !s.authed then (s, some errNoAuth) else (s, some (handleCluster argv))
  else if name = "COMMAND" then (s, none)
  else if name = "INFO" then
    if !s.authed then (s, some errNoAuth) else (s, some infoReply)
  else if name = "HELLO" then
    if !s.authed && requireAuth cfg then
      match helloAuth cfg s argv with
      | some (s, v) => (s, some v)
      | none => (s, some errNoAuth)
    else (s, some helloReply)
  else if name = "RESET" then
    ({ s.resetTxn with db := 0, authed := !requireAuth cfg }, some plusOK)
  else if requireAuth cfg && !s.authed then (s, some errNoAuth)
  else (s, none)

/-- `handleLocal`. -/
def handleLocal (cfg : Config) (s : Session) (argv : Argv) : Prog (Session × Option Value) := do
  if argv ≠ [] ∧ nameOf argv = "RESET" then
    let _ ← dropPin s
    return localStep cfg s argv
  else return localStep cfg s argv

/-! ## What a local command does -/

variable {cfg : Config}
variable {argv : Argv} {c : ClientCmd} {v : Value} {s : Session}

/-- The commands the proxy answers itself. -/
def localNames : List String :=
  ["PING", "ECHO", "AUTH", "QUIT", "CLUSTER", "INFO", "HELLO", "RESET"]

/-- The results of `handleLocal`. -/
inductive Local (cfg : Config) (s : Session) (argv : Argv) : Session × Option Value → Prop where
  | pass (hn : argv = [] ∨ nameOf argv ∉ localNames)
      (ha : argv = [] ∨ nameOf argv = "COMMAND" ∨ (requireAuth cfg && !s.authed) = false) :
      Local cfg s argv (s, none)
  | answer {v : Value} (hn : nameOf argv ∈ localNames) (hq : nameOf argv ∉ ["QUIT", "RESET"]) :
      Local cfg s argv (s, some v)
  | noAuth (hn : nameOf argv ∉ localNames) : Local cfg s argv (s, some errNoAuth)
  | auth {v : Value} (hn : nameOf argv ∈ ["AUTH", "HELLO"]) :
      Local cfg s argv ({ s with authed := true }, some v)
  | quit (hn : nameOf argv = "QUIT") : Local cfg s argv ({ s with quit := true }, some plusOK)
  | reset (hc : argv ≠ []) (hn : nameOf argv = "RESET") :
      Local cfg s argv ({ s.resetTxn with db := 0, authed := !requireAuth cfg }, some plusOK)

theorem doAuth_local (s : Session) (argv : Argv) (hn : nameOf argv = "AUTH") :
    Local cfg s argv ((doAuth cfg s argv).1, some (doAuth cfg s argv).2) := by
  have hanswer : ∀ v, Local cfg s argv (s, some v) :=
    fun v => .answer (by simp [hn, localNames]) (by simp [hn])
  unfold doAuth
  split
  · exact hanswer _
  · dsimp only
    split
    · exact hanswer _
    · split
      · exact .auth (by simp [hn])
      · exact hanswer _

theorem helloAuth_local {s s' : Session} (hn : nameOf argv = "HELLO")
    (h : helloAuth cfg s argv = some (s', v)) : Local cfg s argv (s', some v) := by
  have hanswer : ∀ v, Local cfg s argv (s, some v) :=
    fun v => .answer (by simp [hn, localNames]) (by simp [hn])
  unfold helloAuth at h
  split at h
  · cases h
  · split at h
    · cases h
      exact .auth (by simp [hn])
    · cases h
      exact hanswer _
  · cases h
    exact hanswer _

theorem localStep_local (cfg : Config) (s : Session) (argv : Argv) :
    Local cfg s argv (localStep cfg s argv) := by
  have hans : ∀ w ∈ ["PING", "ECHO", "CLUSTER", "INFO", "HELLO"], nameOf argv = w →
      ∀ v, Local cfg s argv (s, some v) := by
    intro w hw hn v
    subst hn
    exact .answer (by grind [localNames]) (by grind)
  unfold localStep
  dsimp only
  refine iteInduction (fun hc => .pass (.inl hc) (.inl hc)) fun hc => ?_
  refine iteInduction (fun hn => ?_) fun hping => ?_
  · refine iteInduction (fun _ => hans _ (by simp) hn _) fun _ => ?_
    split <;> exact hans _ (by simp) hn _
  refine iteInduction (fun hn => ?_) fun hecho => ?_
  · refine iteInduction (fun _ => hans _ (by simp) hn _) fun _ => ?_
    exact iteInduction (fun _ => hans _ (by simp) hn _) fun _ => hans _ (by simp) hn _
  refine iteInduction (fun hn => doAuth_local s argv hn) fun hauth => ?_
  refine iteInduction (fun hn => .quit hn) fun hquit => ?_
  refine iteInduction (fun hn => ?_) fun hcluster => ?_
  · exact iteInduction (fun _ => hans _ (by simp) hn _) fun _ => hans _ (by simp) hn _
  refine iteInduction (fun hn => .pass (.inr (by simp [hn, localNames])) (.inr (.inl hn)))
    fun _ => ?_
  refine iteInduction (fun hn => ?_) fun hinfo => ?_
  · exact iteInduction (fun _ => hans _ (by simp) hn _) fun _ => hans _ (by simp) hn _
  refine iteInduction (fun hn => ?_) fun hhello => ?_
  · refine iteInduction (fun _ => ?_) fun _ => hans _ (by simp) hn _
    cases hh : helloAuth cfg s argv with
    | none => exact hans _ (by simp) hn _
    | some r => exact helloAuth_local hn hh
  refine iteInduction (fun hn => .reset hc hn) fun hreset => ?_
  have hn : nameOf argv ∉ localNames := by
    simp only [localNames, List.mem_cons, List.not_mem_nil, or_false, not_or]
    exact ⟨hping, hecho, hauth, hquit, hcluster, hinfo, hhello, hreset⟩
  refine iteInduction (fun _ => .noAuth hn) fun ha => .pass (.inr hn) (.inr (.inr ?_))
  exact Bool.eq_false_iff.2 ha

theorem localStep_db (s : Session) (argv : Argv) :
    (localStep cfg s argv).1.db = s.db ∨ (localStep cfg s argv).1.db = 0 := by
  have hl := localStep_local cfg s argv
  generalize localStep cfg s argv = x at hl
  cases hl with
  | reset => exact .inr rfl
  | _ => exact .inl rfl

/-- What the local commands answer. -/
inductive LocalValue : Value → Prop where
  | ok : LocalValue plusOK
  | pong : LocalValue plusPong
  | bulk (b : Slice) : LocalValue (bulkString b)
  | array (vs : List Value) : LocalValue (array vs)
  | error {v : Value} (h : v ∈ [errNoAuth, errAuth, errCluster,
      error "ERR wrong number of arguments for 'echo' command",
      error "ERR wrong number of arguments for 'auth' command"]) : LocalValue v

theorem LocalValue.ite {p : Prop} [Decidable p] {x y : Session × Option Value}
    (hx : ∀ v ∈ x.2, LocalValue v) (hy : ∀ v ∈ y.2, LocalValue v) :
    ∀ v ∈ (if p then x else y).2, LocalValue v := by
  split
  · exact hx
  · exact hy

theorem LocalValue.mem {w : Value} (h : LocalValue w) : ∀ v ∈ some w, LocalValue v := by
  rintro v ⟨⟩
  exact h

theorem doAuth_value (s : Session) (argv : Argv) : LocalValue (doAuth cfg s argv).2 := by
  unfold doAuth
  split
  · exact .ok
  · dsimp only
    split
    · exact .error (by simp)
    · split
      · exact .ok
      · exact .error (by simp)

theorem helloAuth_value {s s' : Session}
    (h : helloAuth cfg s argv = some (s', v)) : LocalValue v := by
  unfold helloAuth at h
  split at h
  · cases h
  · split at h <;> cases h
    · exact .array _
    · exact .error (by simp)
  · cases h
    exact .error (by simp)

theorem handleCluster_value (argv : Argv) : LocalValue (handleCluster argv) := by
  unfold handleCluster
  split
  · split
    · exact .array _
    · split
      · exact .bulk _
      · exact .error (by simp)
  · exact .error (by simp)

theorem localStep_value (s : Session) (argv : Argv) :
    ∀ v ∈ (localStep cfg s argv).2, LocalValue v := by
  have hnone : ∀ v ∈ (none : Option Value), LocalValue v := fun v hv => by cases hv
  have hnoAuth := LocalValue.mem (.error (v := errNoAuth) (by simp))
  unfold localStep
  dsimp only
  refine .ite hnone (.ite (.ite hnoAuth ?_) (.ite (.ite hnoAuth (.ite (.mem (.error (by simp)))
    (.mem (.bulk _)))) (.ite (doAuth_value s argv).mem (.ite (.mem .ok) (.ite (.ite hnoAuth
    (handleCluster_value argv).mem) (.ite hnone (.ite (.ite hnoAuth (.mem (.bulk _)))
    (.ite (.ite ?_ (.mem (.array _))) (.ite (.mem .ok) (.ite hnoAuth hnone))))))))))
  · split
    · exact .mem .pong
    · exact .mem (.bulk _)
  · cases hh : helloAuth cfg s argv with
    | none => exact hnoAuth
    | some x => exact (helloAuth_value hh).mem

theorem localStep_none (h : (localStep cfg s argv).2 = none) :
    (localStep cfg s argv).1 = s := by
  have hl := localStep_local cfg s argv
  generalize localStep cfg s argv = r at h hl
  cases hl with
  | pass => rfl
  | _ => cases h

theorem localStep_eq_none (h : (localStep cfg s argv).2 = none) :
    localStep cfg s argv = (s, none) := Prod.ext (localStep_none h) h

theorem localStep_eq_some (h : (localStep cfg s argv).2 = some v) :
    localStep cfg s argv = ((localStep cfg s argv).1, some v) := Prod.ext rfl h

theorem localStep_sub (s : Session) (argv : Argv) : (localStep cfg s argv).1.sub = s.sub := by
  have hl := localStep_local cfg s argv
  generalize localStep cfg s argv = r at hl
  cases hl <;> rfl

end RespProxy.Proxy
