import RespProxy.Command.Prefixes
import RespProxy.Proxy.Queue

/-! # What `EXEC` leaves and answers

The queue loop of `cmdExec` follows the `SELECT`s of the queue. The database they end in
becomes that of the session unless the backend's `EXEC` is answered with null, so an error
reply commits it. The replies of the commands go to the client as the backend gave them,
while outside a transaction those that echo keys lose the prefix of the database.

* `lastSelect`, `inForce`: the databases of a queue;
* `cmdExec_settles_iff`: the database behind `EXEC` is the one its reply stands for;
* `cmdExec_strips_iff`: the replies are those of the same commands outside `MULTI`.
-/

namespace RespProxy.Proxy

open Cluster Command Resp Interact

variable {cfg : Config} {s s' : Session} {c : ClientCmd} {tr : Trace} {r : Session × Outcome}
variable {queue : List QueuedCmd} {db : Nat} {p : ExecPlan} {f g : QueuedCmd → Nat → Value → Value}
  {conn : ConnId} {tr' : Trace} {v : Value}

/-! ## The databases of a queue -/

/-- The database behind a queued command: a `SELECT` that names one, or the same. -/
def dbBehind (cfg : Config) (db : Nat) (q : QueuedCmd) : Nat :=
  if q.argv ≠ [] ∧ nameOf q.argv = "SELECT" then
    match selectDB cfg q.argv with
    | .ok n => n
    | .error _ => db
  else db

/-- The database of the last valid `SELECT` of the queue. -/
def lastSelect (cfg : Config) (db : Nat) (queue : List QueuedCmd) : Nat :=
  queue.foldl (dbBehind cfg) db

/-- The commands of the queue that are sent, each with the database in force. -/
def inForce (cfg : Config) : Nat → List QueuedCmd → List (QueuedCmd × Nat)
  | _, [] => []
  | db, q :: qs =>
    if q.argv ≠ [] ∧ nameOf q.argv = "SELECT" then inForce cfg (dbBehind cfg db q) qs
    else (q, db) :: inForce cfg db qs

/-- The elements of the reply for the values `vs` of a backend, where `answer` says what
becomes of the value for a command. -/
def elements (cfg : Config) (answer : QueuedCmd → Nat → Value → Value) :
    Nat → List QueuedCmd → List Value → List Value
  | _, [], _ => []
  | db, q :: qs, vs =>
    if q.argv ≠ [] ∧ nameOf q.argv = "SELECT" then
      (match selectDB cfg q.argv with
        | .ok _ => plusOK
        | .error v => v) :: elements cfg answer (dbBehind cfg db q) qs vs
    else match vs with
      | v :: vs => answer q db v :: elements cfg answer db qs vs
      | [] => error "ERR EXEC reply missing" :: elements cfg answer db qs []

/-- The plan of a queue: where it ends, what it sends and what it answers. -/
theorem execPlan_spec (hp : execPlan cfg db queue = some p) :
    p.db = lastSelect cfg db queue ∧
      p.backend.map Frame.src = (inForce cfg db queue).map (fun x => .client x.1.id x.1.argv x.2 true) ∧
      ∀ vs, mergeItems p.items vs = elements cfg (fun _ _ v => v) db queue vs := by
  induction queue generalizing db p with
  | nil =>
    cases hp
    exact ⟨rfl, rfl, fun _ => rfl⟩
  | cons q qs ih =>
    rw [execPlan] at hp
    rw [lastSelect, List.foldl_cons, inForce, ← lastSelect]
    by_cases hsel : q.argv ≠ [] ∧ nameOf q.argv = "SELECT"
    · rw [if_pos hsel] at hp
      simp only [elements, dbBehind, if_pos hsel]
      cases hdb : selectDB cfg q.argv with
      | error v =>
        rw [hdb] at hp
        obtain ⟨p', hp', rfl⟩ := Option.map_eq_some_iff.1 hp
        obtain ⟨hend, hsrc, hitems⟩ := ih hp'
        exact ⟨hend, hsrc, fun vs => congrArg _ (hitems vs)⟩
      | ok n =>
        rw [hdb] at hp
        obtain ⟨p', hp', rfl⟩ := Option.map_eq_some_iff.1 hp
        obtain ⟨hend, hsrc, hitems⟩ := ih hp'
        exact ⟨hend, hsrc, fun vs => congrArg _ (hitems vs)⟩
    · rw [if_neg hsel] at hp
      simp only [elements, dbBehind, if_neg hsel]
      obtain ⟨argv, -, hp⟩ := Option.bind_eq_some_iff.1 hp
      obtain ⟨keys, -, hp⟩ := Option.bind_eq_some_iff.1 hp
      obtain ⟨p', hp', hp⟩ := Option.bind_eq_some_iff.1 hp
      cases hp
      obtain ⟨hend, hsrc, hitems⟩ := ih hp'
      refine ⟨hend, congrArg _ hsrc, fun vs => ?_⟩
      cases vs with
      | nil => exact congrArg _ (hitems [])
      | cons v vs => exact congrArg _ (hitems vs)

/-! ## The database behind `EXEC` -/

/-- The reply says that nothing was committed. -/
def Uncommitted (v : Value) : Prop := v.null = true ∨ v.isError = true

instance (v : Value) : Decidable (Uncommitted v) := inferInstanceAs (Decidable (_ ∨ _))

/-- The database behind an `EXEC` that is answered with `v`: that of the session if
nothing was committed, else that of the last valid `SELECT`. -/
def dbFor (cfg : Config) (s : Session) (v : Value) : Nat :=
  if Uncommitted v then s.db else lastSelect cfg s.db s.queued

/-- If a backend answers `EXEC` with an error, the `SELECT`s of the queue end where they
began. -/
def SelectsIdle (cfg : Config) (s : Session) (c : ClientCmd) (tr : Trace) : Prop :=
  ∀ conn w, (⟨.read conn (execFrame s c), .ok w⟩ : Event) ∈ tr → w.isError = true → w.null = false →
    lastSelect cfg s.db s.queued = s.db

theorem selectsIdle_of_unanswered (h : answered (execFrame s c) tr = false) :
    SelectsIdle cfg s c tr := by
  intro conn w hw
  rw [answered_of_mem hw] at h
  cases h

/-- The one reply of an `EXEC` that ends with `finish`. -/
theorem finished_reply {v w : Value} {s₁ : Session}
    (hone : (replies (tr ++ tr')).map Prod.fst = [some c.id])
    (hrun : (finish s₁ c.id w).Runs tr' (s', .ok)) (hv : (some c.id, v, none) ∈ replies (tr ++ tr')) :
    s' = s₁ ∧ v = w := by
  obtain ⟨rfl, hreply⟩ := finish_replies hrun
  rw [replies_append, hreply] at hone hv
  have hnil : replies tr = [] := by simpa using hone
  rw [hnil] at hv
  exact ⟨rfl, by simpa using hv⟩

/-- The exits that refuse the transaction. -/
theorem refused_settles {msg : String} (hone : (replies (tr ++ tr')).map Prod.fst = [some c.id])
    (hno : answered (execFrame s c) tr = false)
    (hrun : (finish s.leave.unpin c.id (error msg)).Runs tr' (s', .ok))
    (hv : (some c.id, v, none) ∈ replies (tr ++ tr')) :
    s'.db = dbFor cfg s v ↔ SelectsIdle cfg s c (tr ++ tr') := by
  obtain ⟨rfl, rfl⟩ := finished_reply hone hrun hv
  refine iff_of_true ?_ (selectsIdle_of_unanswered ?_)
  · exact (if_pos (.inr rfl)).symm
  · rw [answered_append, hno, finish_answered hrun]
    rfl

/-- The answer to the backend's `EXEC`, in the exit that has one. -/
theorem done_read {t₀ t₁ t₂ : Trace} {o : Outcome}
    {x : Value} (hp : execPlan cfg s.db s.queued = some p) (hq : SetupTrace t₀)
    (h₁ : (doFrames conn (execOpening s c p ++ [execFrame s c]) Value.zero).Runs t₁ (.ok v))
    (h₂ : (reply (some c.id) x).Runs t₂ o) {conn' : ConnId} {w : Value} :
    (⟨.read conn' (execFrame s c), .ok w⟩ : Event) ∈ t₀ ++ t₁ ++ t₂ ++ [⟨.put conn, ()⟩] →
      w = v := by
  intro hmem
  simp only [List.mem_append, List.mem_singleton] at hmem
  rcases hmem with ((hmem | hmem) | hmem) | hmem
  · exact absurd (answered_of_mem hmem) (by simp [hq.answered])
  · exact (doFrames_ok (execFrame_not_mem hp) h₁).2.2 conn' w hmem
  · exact absurd (answered_of_mem hmem) (by simp [reply_answered h₂])
  · cases hmem

/-- **The database behind `EXEC`.** It is the one the reply stands for, exactly if no
backend answers `EXEC` with an error while the `SELECT`s of the queue lead elsewhere. -/
theorem cmdExec_settles_iff {v : Value} (hm : s.multi = true)
    (h : (cmdExec cfg s c).Runs tr (s', .ok)) (hv : (some c.id, v, none) ∈ replies tr) :
    s'.db = dbFor cfg s v ↔ SelectsIdle cfg s c tr := by
  have hone := cmdExec_oneReply tr _ h rfl
  generalize hr : (s', Outcome.ok) = r at h
  cases cmdExec_runs h with
  | noMulti hm' => exact absurd (hm.symm.trans hm') (by simp)
  | panic => cases hr
  | aborted _ hq h => exact refused_settles hone (hq.answered _) (hr ▸ h) hv
  | failed _ hno h => exact refused_settles hone hno (hr ▸ h) hv
  | here _ hp _ hq h =>
    subst hr
    have hno : answered (execFrame s c) _ = false := hq.answered _
    obtain ⟨rfl, rfl⟩ := finished_reply hone h hv
    refine iff_of_true ?_ (selectsIdle_of_unanswered ?_)
    · exact (execPlan_spec hp).1.trans (if_neg (by simp [Uncommitted, array, Value.isError])).symm
    · rw [answered_append, hno, finish_answered h]
      rfl
  | @done p conn w t₀ t₁ t₂ o _ hp _ hq _ h₁ h₂ =>
    cases hr
    obtain ⟨-, hsilent, -⟩ := doFrames_ok (execFrame_not_mem hp) h₁
    have hreply := reply_sat _ _ t₂ .ok h₂ rfl
    have hv : v = (execDone s.leave.unpin p w).2 := by
      rw [replies_append, replies_append, replies_append, hq.quiet.replies, hsilent, hreply] at hv
      simpa [replies] using hv
    have hidle : SelectsIdle cfg s c (t₀ ++ t₁ ++ t₂ ++ [⟨.put conn, ()⟩]) ↔
        (w.isError = true → w.null = false → p.db = s.db) := by
      rw [(execPlan_spec hp).1]
      constructor
      · obtain ⟨t, rfl, -⟩ := doFrames_snoc h₁
        exact fun hall => hall conn w (by simp)
      · intro hw conn' w' hmem
        rwa [done_read hp hq h₁ h₂ hmem]
    rw [hv, hidle, dbFor, ← (execPlan_spec hp).1]
    -- `cmdExec` looks for a null only: behind an error it takes the database over as well
    unfold execDone
    cases hnull : w.null with
    | true => simp [Uncommitted, hnull, Session.leave, Session.unpin]
    | false =>
      cases herr : w.isError with
      | true =>
        have hmerge : mergeExecReply p.items w = w := by
          unfold mergeExecReply
          refine if_pos (.inl ?_)
          intro ht
          simp [Value.isError, ht] at herr
        simp [Uncommitted, hnull, herr, hmerge]
      | false =>
        have hmerge : ¬ Uncommitted (mergeExecReply p.items w) := by
          unfold mergeExecReply
          split
          · simp [Uncommitted, hnull, herr]
          · simp [Uncommitted, array, Value.isError]
        simp [hmerge]

/-- An `EXEC` behind the commands `cs`, which the backend answers with `w`. -/
def execStep (cs : List ClientCmd) (w : Value) : (Session × Outcome) × Trace :=
  scripted (fun _ => calm fun f => if f.argv = [arg "EXEC"] then w else plusOK)
    (cmdExec seeded (okRun cs).1.1 (command 3 ["EXEC"]))

theorem execStep_runs {cs : List ClientCmd} {w : Value} (hok : (execStep cs w).1.2 = .ok) :
    (cmdExec seeded (okRun cs).1.1 (command 3 ["EXEC"])).Runs (execStep cs w).2
      ((execStep cs w).1.1, .ok) := hok ▸ scripted_runs _ _

/-- A transaction that selects another database. -/
def selecting : List ClientCmd :=
  [command 0 ["MULTI"], command 1 ["SELECT", "1"], command 2 ["GET", "k"]]

theorem cmdExec_settles_iff_committed :
    (execStep selecting (array [plusOK])).1.1.db =
        dbFor seeded (okRun selecting).1.1 (array [plusOK, plusOK]) ↔
      SelectsIdle seeded (okRun selecting).1.1 (command 3 ["EXEC"]) (execStep selecting (array [plusOK])).2 :=
  cmdExec_settles_iff (by decide +kernel) (execStep_runs (by decide +kernel)) (by decide +kernel)

/-- The backend discards the transaction, and the session is in the other database. -/
theorem aborted_select_stays :
    ∃ s tr s' v, s.multi = true ∧ (cmdExec seeded s (command 3 ["EXEC"])).Runs tr (s', .ok) ∧
      (some (command 3 ["EXEC"]).id, v, none) ∈ replies tr ∧ v.isError = true ∧ s'.db ≠ s.db :=
  ⟨(okRun selecting).1.1, (execStep selecting (error "EXECABORT")).2,
    (execStep selecting (error "EXECABORT")).1.1,
    error "EXECABORT", by decide +kernel, execStep_runs (by decide +kernel), by decide +kernel, rfl,
    by decide +kernel⟩

/-! ## Replies that echo keys -/

/-- The commands whose replies name keys. -/
def echoNames : List String :=
  ["KEYS", "SCAN", "BLPOP", "BRPOP", "BZPOPMIN", "BZPOPMAX", "LMPOP", "BLMPOP", "ZMPOP", "BZMPOP",
    "XREAD", "XREADGROUP"]

/-- The value for a queued command as it is outside a transaction, for those that echo
keys. -/
def unprefixed (q : QueuedCmd) (db : Nat) (v : Value) : Value :=
  if nameOf q.argv ∈ echoNames then stripReplyKeys (nameOf q.argv) db v else v

/-- In every run of `EXEC` that a backend commits, the replies that echo keys are those
that the commands have outside a transaction. -/
def StripsReplies (cfg : Config) (s : Session) (c : ClientCmd) : Prop :=
  ∀ tr s' conn w, (cmdExec cfg s c).Runs tr (s', .ok) →
    (⟨.read conn (execFrame s c), .ok w⟩ : Event) ∈ tr → w.type = .array → w.null = false →
    replies tr = [(some c.id, array (elements cfg unprefixed s.db s.queued w.values), none)]

/-- The reply of a committed transaction. -/
theorem cmdExec_commits {w : Value} (hm : s.multi = true) (h : (cmdExec cfg s c).Runs tr (s', .ok))
    (hw : (⟨.read conn (execFrame s c), .ok w⟩ : Event) ∈ tr) (ht : w.type = .array)
    (hn : w.null = false) :
    replies tr = [(some c.id, array (elements cfg (fun _ _ v => v) s.db s.queued w.values), none)] := by
  have hyes := answered_of_mem hw
  generalize hr : (s', Outcome.ok) = r at h
  cases cmdExec_runs h with
  | noMulti hm' => exact absurd (hm.symm.trans hm') (by simp)
  | panic => cases hr
  | aborted _ hq h =>
    rw [answered_append, hq.answered, finish_answered h] at hyes
    cases hyes
  | failed _ hno h =>
    rw [answered_append, hno, finish_answered h] at hyes
    cases hyes
  | here _ hp _ hq h =>
    rw [answered_append, hq.answered, finish_answered h] at hyes
    cases hyes
  | @done p conn' w' t₀ t₁ t₂ o _ hp _ hq _ h₁ h₂ =>
    cases hr
    cases done_read hp hq h₁ h₂ hw
    obtain ⟨-, hsilent, -⟩ := doFrames_ok (execFrame_not_mem hp) h₁
    have hreply := reply_sat _ _ t₂ .ok h₂ rfl
    rw [replies_append, replies_append, replies_append, hq.quiet.replies, hsilent, hreply,
      ← (execPlan_spec hp).2.2]
    simp [execDone, mergeExecReply, ht, hn, replies]

/-! ## A transaction that commits -/

theorem reply_returns (id : Option CmdId) (v : Value) : ∃ tr, (reply id v).Runs tr .ok :=
  ⟨_, none, _, rfl, none, _, rfl, none, _, rfl, rfl, rfl⟩

theorem doFrames_returns (conn : ConnId) (fs : List Frame) (f : Frame) (last w : Value) :
    ∃ tr, (doFrames conn (fs ++ [f]) last).Runs tr (.ok w) := by
  induction fs generalizing last with
  | nil => exact ⟨_, none, _, rfl, .ok w, _, rfl, rfl, rfl⟩
  | cons g fs ih =>
    obtain ⟨tr, h⟩ := ih plusOK
    exact ⟨_, none, _, rfl, .ok plusOK, tr, rfl, h⟩

theorem checkout_returns (slot : Nat) : ∃ tr, (checkout cfg slot).Runs tr (.ok 0) :=
  -- the slot has no owner, and there is one node
  ⟨_, none, _, rfl, some { nodes := [{}] }, _, rfl, .ok 0, _, rfl, rfl, rfl⟩

theorem pinStale_returns (s : Session) : ∃ tr, (pinStale s).Runs tr false := by
  unfold pinStale
  cases s.pin with
  | none => exact ⟨[], rfl, rfl⟩
  | some pin =>
    refine ⟨_, some { generation := s.pinGen }, _, rfl, rfl, ?_⟩
    simp

theorem execConn_returns (s : Session) (slot : Nat) :
    ∃ tr conn, (execConn cfg s slot).Runs tr (.ok conn) := by
  unfold execConn
  cases s.pin with
  | none =>
    obtain ⟨tr, h⟩ := @checkout_returns cfg slot
    exact ⟨tr, 0, h⟩
  | some pin => exact ⟨[], pin, rfl, rfl⟩

/-- A backend may answer the `EXEC` of a queue with any value. -/
theorem exists_commit (hm : s.multi = true)
    (hp : execPlan cfg s.db s.queued = some p) (hslot : crossSlot cfg (s.watched ++ p.keys) = false)
    (hb : p.backend ≠ []) (w : Value) :
    ∃ tr s' conn, (cmdExec cfg s c).Runs tr (s', .ok) ∧
      (⟨.read conn (execFrame s c), .ok w⟩ : Event) ∈ tr := by
  obtain ⟨t₀, hpin⟩ := pinStale_returns s.leave
  obtain ⟨t₁, conn, hconn⟩ := @execConn_returns cfg s.leave
    (((s.watched ++ p.keys).head?.map (slotOf cfg)).getD 0)
  obtain ⟨t₂, hdo⟩ := doFrames_returns conn (execOpening s c p) (execFrame s c) Value.zero w
  obtain ⟨t₃, hreply⟩ := reply_returns (some c.id) (execDone s.leave.unpin p w).2
  have hback : (execBackend cfg s.leave c p (((s.watched ++ p.keys).head?.map (slotOf cfg)).getD 0)).Runs
      (t₁ ++ (t₂ ++ (t₃ ++ [⟨.put conn, ()⟩]))) ((execDone s.leave.unpin p w).1, .ok) := by
    refine Prog.runs_bind.2 ⟨t₁, .ok conn, _, hconn, ?_, rfl⟩
    refine Prog.runs_bind.2 ⟨t₂, .ok w, _, hdo, ?_, rfl⟩
    exact Prog.runs_bind.2 ⟨t₃, .ok, _, hreply, ⟨(), [], rfl, rfl, rfl⟩, rfl⟩
  refine ⟨t₀ ++ (t₁ ++ (t₂ ++ (t₃ ++ [⟨.put conn, ()⟩]))), (execDone s.leave.unpin p w).1, conn, ?_, ?_⟩
  · unfold cmdExec
    rw [if_neg (by simp [hm])]
    refine Prog.runs_bind.2 ⟨t₀, false, _, hpin, ?_, rfl⟩
    show (execQueued cfg s.leave c s.queued).Runs _ _
    have hplan : execQueued cfg s.leave c s.queued = execBackend cfg s.leave c p
        (((s.watched ++ p.keys).head?.map (slotOf cfg)).getD 0) := by
      simp only [execQueued, Session.leave, hp, hslot, hb, Bool.false_eq_true, if_false]
    rw [hplan]
    exact hback
  · obtain ⟨t, rfl, -⟩ := doFrames_snoc hdo
    simp

/-! ## With and without the prefix -/

/-- A value that names the key `k` of database `db` wherever a reply may name one. -/
def naming (db : Nat) : Value :=
  array [bulkString (.mk (dbPrefix db ++ lit "k")), array [bulkString (.mk (dbPrefix db ++ lit "k"))]]

theorem stripBulk_naming (hdb : db ≠ 0) :
    stripBulk db (bulkString (.mk (dbPrefix db ++ lit "k"))) = bulkString (arg "k") := by
  have hkey : stripKey db (.mk (dbPrefix db ++ lit "k")) = arg "k" := stripKey_append hdb rfl
  rw [stripBulk, if_neg (by simp [bulkString])]
  show bulkString (Slice.ofAppend (stripKey db (.mk (dbPrefix db ++ lit "k"))).bytes) = _
  rw [hkey]
  rfl

theorem strip_naming {name : String} (hname : name ∈ echoNames) (hdb : db ≠ 0) :
    stripReplyKeys name db (naming db) ≠ naming db := by
  have hne : bulkString (arg "k") ≠ bulkString (.mk (dbPrefix db ++ lit "k")) := by
    intro h
    have hlen : (lit "k").length = (dbPrefix db ++ lit "k").length :=
      congrArg (fun v : Value => v.str.bytes.length) h
    rw [dbPrefix, if_neg hdb] at hlen
    simp [lit] at hlen
  simp only [echoNames, List.mem_cons, List.not_mem_nil, or_false] at hname
  rcases hname with rfl | rfl | rfl | rfl | rfl | rfl | rfl | rfl | rfl | rfl | rfl | rfl <;>
    simp [stripReplyKeys, naming, array, Value.isError, hdb, stripArrayOfKeys, stripFirstArrayKey,
      stripXRead, stripStream, stripBulk_naming hdb, hne]

theorem elements_congr
    (h : ∀ x ∈ inForce cfg db queue, ∀ v, f x.1 x.2 v = g x.1 x.2 v) (vs : List Value) :
    elements cfg f db queue vs = elements cfg g db queue vs := by
  induction queue generalizing db vs with
  | nil => rfl
  | cons q qs ih =>
    rw [inForce] at h
    by_cases hsel : q.argv ≠ [] ∧ nameOf q.argv = "SELECT"
    · rw [if_pos hsel] at h
      simp only [elements, if_pos hsel, ih h]
    · rw [if_neg hsel] at h
      have hrest := ih fun x hx => h x (List.mem_cons_of_mem _ hx)
      cases vs with
      | nil => simp only [elements, if_neg hsel, hrest]
      | cons v vs => simp only [elements, if_neg hsel, hrest, h _ List.mem_cons_self v]

/-- Where the elements are the same for a value of each command, so is what becomes of it. -/
theorem elements_inj {value : QueuedCmd × Nat → Value}
    (h : elements cfg f db queue ((inForce cfg db queue).map value) =
      elements cfg g db queue ((inForce cfg db queue).map value)) :
    ∀ x ∈ inForce cfg db queue, f x.1 x.2 (value x) = g x.1 x.2 (value x) := by
  induction queue generalizing db with
  | nil => exact nofun
  | cons q qs ih =>
    rw [inForce] at h ⊢
    by_cases hsel : q.argv ≠ [] ∧ nameOf q.argv = "SELECT"
    · rw [if_pos hsel] at h ⊢
      simp only [elements, if_pos hsel] at h
      exact ih (List.cons.inj h).2
    · rw [if_neg hsel] at h ⊢
      simp only [List.map_cons, elements, if_neg hsel] at h
      obtain ⟨hhead, htail⟩ := List.cons.inj h
      intro x hx
      rcases List.mem_cons.1 hx with rfl | hx
      · exact hhead
      · exact ih htail x hx

/-- **Replies that echo keys inside a transaction.** They are those outside of it exactly
if no command that echoes keys is queued with another database than 0 in force. -/
theorem cmdExec_strips_iff {p : ExecPlan} (hm : s.multi = true)
    (hp : execPlan cfg s.db s.queued = some p)
    (hslot : crossSlot cfg (s.watched ++ p.keys) = false) :
    StripsReplies cfg s c ↔
      ∀ x ∈ inForce cfg s.db s.queued, nameOf x.1.argv ∈ echoNames → x.2 = 0 := by
  constructor
  · intro hstrips x hx hname
    by_contra hdb
    have hb : p.backend ≠ [] := by
      intro hnil
      have hsrc := (execPlan_spec hp).2.1
      rw [hnil, List.map_nil, eq_comm, List.map_eq_nil_iff] at hsrc
      rw [hsrc] at hx
      cases hx
    -- the backend names a key in every reply
    obtain ⟨tr, s', conn, hrun, hread⟩ := exists_commit hm hp hslot hb
      (array ((inForce cfg s.db s.queued).map fun x => naming x.2))
    have hreply := hstrips tr s' conn _ hrun hread rfl rfl
    rw [cmdExec_commits hm hrun hread rfl rfl] at hreply
    have hsame : elements cfg (fun _ _ v => v) s.db s.queued
          ((inForce cfg s.db s.queued).map fun x => naming x.2) =
        elements cfg unprefixed s.db s.queued
          ((inForce cfg s.db s.queued).map fun x => naming x.2) := by
      simpa [array] using hreply
    have hx := elements_inj hsame x hx
    rw [unprefixed, if_pos hname] at hx
    exact strip_naming hname hdb hx.symm
  · intro hzero tr s' conn w hrun hread ht hn
    rw [cmdExec_commits hm hrun hread ht hn]
    rw [elements_congr (g := unprefixed) fun x hx v => ?_]
    unfold unprefixed
    split
    · rename_i hname
      rw [hzero x hx hname]
      simp [stripReplyKeys]
    · rfl

/-- A client in database 1 that asks for keys inside a transaction. -/
def echoing : List ClientCmd :=
  [command 0 ["SELECT", "1"], command 1 ["MULTI"], command 2 ["KEYS", "*"]]

theorem echoing_plan : ∃ p, execPlan seeded (okRun echoing).1.1.db (okRun echoing).1.1.queued = some p ∧
    crossSlot seeded ((okRun echoing).1.1.watched ++ p.keys) = false := by
  have hplan : ((execPlan seeded (okRun echoing).1.1.db (okRun echoing).1.1.queued).map fun p =>
      crossSlot seeded ((okRun echoing).1.1.watched ++ p.keys)) = some false := by decide +kernel
  exact Option.map_eq_some_iff.1 hplan

theorem cmdExec_strips_iff_keys :
    StripsReplies seeded (okRun echoing).1.1 (command 3 ["EXEC"]) ↔
      ∀ x ∈ inForce seeded (okRun echoing).1.1.db (okRun echoing).1.1.queued,
        nameOf x.1.argv ∈ echoNames → x.2 = 0 := by
  obtain ⟨p, hp, hslot⟩ := echoing_plan
  exact cmdExec_strips_iff (by decide +kernel) hp hslot

theorem execStep_reads {cs : List ClientCmd} {w : Value}
    (h : answered (execFrame (okRun cs).1.1 (command 3 ["EXEC"])) (execStep cs w).2 = true) :
    ∃ conn, (⟨.read conn (execFrame (okRun cs).1.1 (command 3 ["EXEC"])), .ok w⟩ : Event) ∈
      (execStep cs w).2 := by
  obtain ⟨⟨o, x⟩, hmem, hread⟩ := List.any_eq_true.1 h
  have hx : x = calm (fun f => if f.argv = [arg "EXEC"] then w else plusOK) o :=
    scripted_events (P := fun e => e.res = calm _ e.op) _ (fun _ _ => rfl) _ _ hmem
  cases o with
  | read conn f =>
    cases x with
    | ok v =>
      obtain rfl : f = _ := by simpa using hread
      cases hx
      exact ⟨conn, hmem⟩
    | error e => cases hread
  | _ => cases hread

/-- The client of database 1 sees `db1:k`. -/
theorem exec_shows_db1 : ¬ StripsReplies seeded (okRun echoing).1.1 (command 3 ["EXEC"]) := by
  intro hstrips
  have hrun := @execStep_runs echoing (array [array [bulkString (arg "db1:k")]]) (by decide +kernel)
  obtain ⟨conn, hread⟩ := @execStep_reads echoing (array [array [bulkString (arg "db1:k")]])
    (by decide +kernel)
  exact absurd (hstrips _ _ conn _ hrun hread rfl rfl) (by decide +kernel)

end RespProxy.Proxy
