import RespProxy.Backend.Nodes
import RespProxy.Proxy.Handle

/-! # `FLUSHDB` of a virtual database

`cmdFlushDB` scans every node it knows for the keys of the database and deletes them page
by page. It does not look at what a node answers to `DEL`, so a page with keys in several
slots stays where it is (`cmdFlushDB_clears_iff`).
-/

namespace RespProxy.Proxy

open Backend Cluster Command Resp Interact

section

variable {slot : Bytes → Nat} {start : Bytes} {scanned : Addr → Prop} {w₀ w w' : Nodes} {a b : Addr}

/-! ## What was deleted -/

/-- A `DEL` to the node names the key. -/
def Named (a : Addr) (k : Bytes) (w : Nodes) : Prop := ∃ d ∈ w.dels a, k ∈ d.keys

/-- The keys that a node still holds were named in vain. -/
def Tried (start : Bytes) (a : Addr) (w : Nodes) : Prop :=
  ∀ k, start <+: k → w.holds a k = true → Named a k w

/-- Between `w₀` and `w` the nodes lost what was deleted, and only keys with `start` on
nodes that are `scanned` were named. The nodes in `ready` were tried, and the client has no
reply yet. -/
structure Flushing (slot : Bytes → Nat) (start : Bytes) (scanned : Addr → Prop) (w₀ : Nodes)
    (ready : List Addr) (w : Nodes) : Prop where
  holds : ∀ a k, w.holds a k = true ↔
    w₀.holds a k = true ∧ ∀ d ∈ w.dels a, d.CarriedOut slot → k ∉ d.keys
  dels : ∀ a, ∀ d ∈ w.dels a, scanned a ∧ ∀ k ∈ d.keys, start <+: k
  tried : ∀ a ∈ ready, Tried start a w
  told : w.told = []

variable {ready : List Addr}

/-- A request that neither lists nor deletes. -/
theorem Flushing.keep (h : Flushing slot start scanned w₀ ready w) (hholds : w'.holds = w.holds)
    (hdels : w'.dels = w.dels) (htold : w'.told = w.told) :
    Flushing slot start scanned w₀ ready w' := by
  refine ⟨fun a k => ?_, fun a d hd => ?_, fun a ha k hk hheld => ?_, htold.trans h.told⟩
  · rw [hholds, hdels]
    exact h.holds a k
  · rw [hdels] at hd
    exact h.dels a d hd
  · rw [hholds] at hheld
    rw [Named, hdels]
    exact h.tried a ha k hk hheld

theorem mem_dels_del {d d' : Deletion} :
    d' ∈ (w.del slot a d).dels b ↔ (b = a ∧ d' = d) ∨ d' ∈ w.dels b := by
  unfold Nodes.del
  by_cases hb : b = a
  · subst hb
    simp
  · simp [hb]

theorem holds_del {d : Deletion} {k : Bytes} : (w.del slot a d).holds b k = true ↔
    w.holds b k = true ∧ (b = a → d.CarriedOut slot → k ∉ d.keys) := by
  unfold Nodes.del
  by_cases hb : b = a
  · subst hb
    simp [imp_iff_not_or]
  · simp [hb]

theorem Named.del {d : Deletion} {k : Bytes} (h : Named b k w) : Named b k (w.del slot a d) := by
  obtain ⟨d', hd', hk⟩ := h
  exact ⟨d', mem_dels_del.2 (.inr hd'), hk⟩

theorem Flushing.del {d : Deletion} (h : Flushing slot start scanned w₀ ready w)
    (ha : scanned a) (hd : ∀ k ∈ d.keys, start <+: k) :
    Flushing slot start scanned w₀ ready (w.del slot a d) := by
  refine ⟨fun b k => ?_, fun b d' hd' => ?_, fun b hb k hk hheld => ?_, h.told⟩
  · rw [holds_del, h.holds]
    constructor
    · rintro ⟨⟨hheld, hold⟩, hnew⟩
      refine ⟨hheld, fun d' hd' hout => ?_⟩
      rcases mem_dels_del.1 hd' with ⟨hb, rfl⟩ | hd'
      · exact hnew hb hout
      · exact hold d' hd' hout
    · rintro ⟨hheld, hall⟩
      exact ⟨⟨hheld, fun d' hd' => hall d' (mem_dels_del.2 (.inr hd'))⟩,
        fun hb => hall d (mem_dels_del.2 (.inl ⟨hb, rfl⟩))⟩
  · rcases mem_dels_del.1 hd' with ⟨rfl, rfl⟩ | hd'
    · exact ⟨ha, hd⟩
    · exact h.dels b d' hd'
  · exact (h.tried b hb k hk (holds_del.1 hheld).1).del

/-! ## One node -/

/-- In a scan of `a`, the keys listed so far were named or are `pending`; once it is
`through`, all keys that are there are listed. -/
structure Scanning (start : Bytes) (c : ConnId) (a : Addr) (pending : List Bytes) (through : Prop)
    (w : Nodes) : Prop where
  conn : w.addrOf c = a
  listed : ∀ k ∈ w.listed a, k ∈ pending ∨ Named a k w
  through : through → ∀ k, start <+: k → w.holds a k = true → k ∈ w.listed a

variable {c : ConnId} {pending : List Bytes} {through : Prop}

theorem Scanning.del {d : Deletion} (h : Scanning start c a pending through w)
    (hd : d.keys = pending) : Scanning start c a [] through (w.del slot a d) := by
  refine ⟨h.conn, fun k hk => .inr ?_, fun ht k hk hheld => h.through ht k hk (holds_del.1 hheld).1⟩
  rcases h.listed k hk with hp | hn
  · exact ⟨d, mem_dels_del.2 (.inl ⟨rfl, rfl⟩), hd ▸ hp⟩
  · exact hn.del

theorem Scanning.tried (h : Scanning start c a [] through w) (ht : through) :
    Tried start a w :=
  fun k hk hheld => (h.listed k (h.through ht k hk hheld)).resolve_left List.not_mem_nil

theorem delArgv_page {keys : List Bytes} (h : ∀ k ∈ keys, k ≠ []) :
    delArgv (commandArray (keys.map Slice.mk)) = keys.map Slice.mk := by
  have htype : (commandArray (keys.map Slice.mk)).type = .array := rfl
  rw [delArgv, if_pos htype]
  clear htype
  induction keys with
  | nil => rfl
  | cons k keys ih =>
    have hk : k ≠ [] := h k List.mem_cons_self
    have ih := ih fun k hk => h k (List.mem_cons_of_mem _ hk)
    simp only [commandArray, array, List.map_cons] at ih ⊢
    rw [List.filterMap_cons_some (b := .mk k) (by simp [bulkString, Slice.bytes, hk]), ih]

variable {src : Origin}

theorem scanDelete_flushes (hstart : start ≠ []) (ha : scanned a)
    (hpending : ∀ k ∈ pending, start <+: k) :
    Triple Eq (Nodes.Acts slot)
      (fun w => Flushing slot start scanned w₀ ready w ∧ Scanning start c a pending through w)
      (scanDelete c src (commandArray (pending.map Slice.mk))) fun r w =>
        Flushing slot start scanned w₀ ready w ∧ (r = none → Scanning start c a [] through w) := by
  have hne : ∀ k ∈ pending, k ≠ [] := by
    rintro k hk rfl
    exact hstart (List.prefix_nil.1 (hpending _ hk))
  unfold scanDelete
  rw [delArgv_page hne]
  split
  · rename_i hnone
    have hnil : pending = [] := by simpa using hnone
    refine triple_ret fun w hw => ⟨hw.1, fun _ => ?_⟩
    rw [← hnil]
    exact hw.2
  · have hname : nameOf (arg "DEL" :: pending.map Slice.mk) = "DEL" :=
      (by decide : upperName (lit "DEL") = "DEL")
    have hkeys : ((arg "DEL" :: pending.map Slice.mk).drop 1).map Slice.bytes = pending := by
      simp [Function.comp_def, Slice.bytes]
    refine (doFrame_nodes (Q := fun x w => Flushing slot start scanned w₀ ready w ∧
      (∀ v, x = .ok v → Scanning start c a [] through w)) ?_ ?_).bind fun x => ?_
    · rintro w v w' ⟨hf, hs⟩ hans
      simp only [Nodes.Answers, hname, hs.conn, hkeys] at hans
      rw [if_neg (by decide), if_pos trivial] at hans
      obtain ⟨d, hd, -, rfl⟩ := hans
      exact ⟨hf.del ha (hd ▸ hpending), fun _ _ => hs.del hd⟩
    · rintro w e w' ⟨hf, hs⟩ (rfl | ⟨-, rfl⟩)
      · exact ⟨hf, fun _ h => by cases h⟩
      · refine ⟨?_, fun _ h => by cases h⟩
        rw [hs.conn]
        exact hf.del ha (by rw [hkeys]; exact hpending)
    · cases x with
      | error e => exact triple_ret fun w hw => ⟨hw.1, fun h => by cases h⟩
      | ok v => exact triple_ret fun w hw => ⟨hw.1, fun _ => hw.2 v rfl⟩

theorem matches_append {k : Bytes} : Matches (start ++ lit "*") k ↔ start <+: k := by
  constructor
  · rintro ⟨s, hs, hk⟩
    rw [List.append_cancel_right hs]
    exact hk
  · exact fun h => ⟨start, rfl, h⟩

/-- A page is listed. -/
theorem Scanning.page {cursor next : Bytes} {keys : List Bytes} (hconn : w.addrOf c = a)
    (hlisted : cursor = lit "0" ∨ ∀ k ∈ w.listed a, Named a k w)
    (hthrough : next = lit "0" → ∀ k, Matches (start ++ lit "*") k → w.holds a k = true →
      k ∈ (w.list a cursor keys).listed a) :
    Scanning start c a keys (next = lit "0") (w.list a cursor keys) := by
  refine ⟨hconn, fun k hk => ?_, fun hnext k hk => hthrough hnext k (matches_append.2 hk)⟩
  simp only [Nodes.list, Function.update_self, List.mem_append] at hk
  rcases hk with hk | hk
  · split at hk
    · cases hk
    · exact .inr (hlisted.resolve_left ‹_› k hk)
  · exact .inl hk

/-- What a `SCAN` of the loop comes to. -/
inductive Paged (slot : Bytes → Nat) (start : Bytes) (scanned : Addr → Prop) (w₀ : Nodes)
    (ready : List Addr) (c : ConnId) (a : Addr) : Except Err Value → Nodes → Prop where
  | page {w : Nodes} {next : Bytes} {keys : List Bytes} (hkeys : ∀ k ∈ keys, start <+: k)
    (hf : Flushing slot start scanned w₀ ready w)
    (hs : Scanning start c a keys (next = lit "0") w) : Paged slot start scanned w₀ ready c a
      (.ok (array [bulkString (.mk next), commandArray (keys.map Slice.mk)])) w
  | refused {w : Nodes} {v : Value} (hv : v.isError = true)
    (hf : Flushing slot start scanned w₀ ready w) : Paged slot start scanned w₀ ready c a (.ok v) w
  | failed {w : Nodes} {e : Err} (hf : Flushing slot start scanned w₀ ready w) :
    Paged slot start scanned w₀ ready c a (.error e) w

theorem scan_pages (cursor : Slice) :
    Triple Eq (Nodes.Acts slot)
      (fun w => Flushing slot start scanned w₀ ready w ∧ w.addrOf c = a ∧
        (cursor.bytes = lit "0" ∨ ∀ k ∈ w.listed a, Named a k w))
      (doFrame c { argv := [arg "SCAN", cursor, arg "MATCH", .mk (start ++ lit "*"), arg "COUNT",
        arg "256"], src })
      (Paged slot start scanned w₀ ready c a) := by
  have hname : nameOf [arg "SCAN", cursor, arg "MATCH", .mk (start ++ lit "*"), arg "COUNT",
      arg "256"] = "SCAN" := (by decide : upperName (lit "SCAN") = "SCAN")
  refine doFrame_nodes ?_ ?_
  · rintro w v w' ⟨hf, hconn, hlisted⟩ hans
    simp only [Nodes.Answers, hname, hconn] at hans
    rcases hans with ⟨hv, rfl⟩ | ⟨next, keys, rfl, hkeys, rfl, hthrough⟩
    · exact .refused hv hf
    · exact .page (fun k hk => matches_append.1 (hkeys k hk)) (hf.keep rfl rfl rfl)
        (.page hconn hlisted hthrough)
  · rintro w e w' ⟨hf, -⟩ (rfl | ⟨h, -⟩)
    · exact .failed hf
    · exact absurd (hname.symm.trans h) (by decide)

/-- A `SCAN` of a program, by what it comes to. -/
theorem scan_cases {α : Type} {p : Except Err Value → Prog α} {Q : α → Nodes → Prop}
    (cursor : Slice)
    (hpage : ∀ next keys, (∀ k ∈ keys, start <+: k) → Triple Eq (Nodes.Acts slot)
      (fun w => Flushing slot start scanned w₀ ready w ∧
        Scanning start c a keys (next = lit "0") w)
      (p (.ok (array [bulkString (.mk next), commandArray (keys.map Slice.mk)]))) Q)
    (hrefused : ∀ v : Value, v.isError = true →
      Triple Eq (Nodes.Acts slot) (Flushing slot start scanned w₀ ready) (p (.ok v)) Q)
    (hfailed : ∀ e, Triple Eq (Nodes.Acts slot) (Flushing slot start scanned w₀ ready)
      (p (.error e)) Q) :
    Triple Eq (Nodes.Acts slot)
      (fun w => Flushing slot start scanned w₀ ready w ∧ w.addrOf c = a ∧
        (cursor.bytes = lit "0" ∨ ∀ k ∈ w.listed a, Named a k w))
      ((doFrame c { argv := [arg "SCAN", cursor, arg "MATCH", .mk (start ++ lit "*"), arg "COUNT",
        arg "256"], src }).bind p) Q := by
  refine (scan_pages cursor).bind fun x w tr r w' hpaged => ?_
  cases hpaged with
  | page hkeys hf hs => exact hpage _ _ hkeys w tr r w' ⟨hf, hs⟩
  | refused hv hf => exact hrefused _ hv w tr r w' hf
  | failed hf => exact hfailed _ w tr r w' hf

/-- Over the rounds: what was listed was named, and at the end everything was listed. -/
theorem scanLoop_flushes (hstart : start ≠ []) (ha : scanned a) (rounds : Nat) (cursor : Slice) :
    Triple Eq (Nodes.Acts slot)
      (fun w => Flushing slot start scanned w₀ ready w ∧ w.addrOf c = a ∧
        (cursor.bytes = lit "0" ∨ ∀ k ∈ w.listed a, Named a k w))
      (scanLoop c src (.mk (start ++ lit "*")) rounds cursor) fun r w =>
        Flushing slot start scanned w₀ ready w ∧ (r = .done → Tried start a w) := by
  induction rounds generalizing cursor with
  | zero => exact triple_ret fun w hw => ⟨hw.1, fun h => by cases h⟩
  | succ rounds ih =>
    refine scan_cases cursor (fun next keys hkeys => ?_) (fun v hv => ?_) fun e => ?_
    · refine (scanDelete_flushes hstart ha hkeys).bind fun r => ?_
      cases r with
      | some e => exact triple_ret fun w hw => ⟨hw.1, fun h => by cases h⟩
      | none =>
        dsimp only
        split
        · exact triple_ret fun w hw => ⟨hw.1, fun _ => (hw.2 rfl).tried ‹_›⟩
        · refine (ih _).mono (fun w hw => ⟨hw.1, (hw.2 rfl).conn, .inr fun k hk => ?_⟩)
            fun _ _ h => h
          exact ((hw.2 rfl).listed k hk).resolve_left List.not_mem_nil
    · dsimp only
      rw [if_pos hv]
      exact triple_ret fun w hw => ⟨hw, fun h => by cases h⟩
    · exact triple_ret fun w hw => ⟨hw, fun h => by cases h⟩

/-! ## All nodes -/

variable {cfg : Config}

theorem scanDeleteOn_flushes (hstart : start ≠ []) (addr : Addr)
    (ha : scanned (rewriteAddr cfg addr)) :
    Triple Eq (Nodes.Acts slot) (Flushing slot start scanned w₀ ready)
      (scanDeleteOn cfg addr src (.mk (start ++ lit "*"))) fun r w =>
        Flushing slot start scanned w₀ ready w ∧
          (r = .done → Tried start (rewriteAddr cfg addr) w) := by
  refine triple_call (R := fun x w => Flushing slot start scanned w₀ ready w ∧
    ∀ c, x = .ok c → w.addrOf c = rewriteAddr cfg addr) (stable_eq _) ?_ fun x => ?_
  · intro x w w' hw hacts
    cases x with
    | error e =>
      cases hacts
      exact ⟨hw, fun _ h => by cases h⟩
    | ok c =>
      cases hacts
      refine ⟨hw.keep rfl rfl rfl, fun c' hc => ?_⟩
      cases hc
      exact Function.update_self ..
  cases x with
  | error e => exact triple_ret fun w hw => ⟨hw.1, fun h => by cases h⟩
  | ok c =>
    refine triple_skip (stable_eq _) (fun _ _ _ h => h) fun rounds => ?_
    refine ((scanLoop_flushes hstart ha rounds (arg "0")).mono
      (fun w hw => ⟨hw.1, hw.2 c rfl, .inl rfl⟩) fun _ _ h => h).bind fun r => ?_
    cases r with
    | io e =>
      refine triple_skip (stable_eq _) (fun _ _ _ h => h) fun _ => ?_
      exact triple_ret fun w hw => ⟨hw.1, fun h => by cases h⟩
    | running => exact triple_ret fun w hw => hw
    | done =>
      refine triple_skip (stable_eq _) (fun _ _ _ h => h) fun _ => ?_
      exact triple_ret fun w hw => hw
    | failed e =>
      refine triple_skip (stable_eq _) (fun _ _ _ h => h) fun _ => ?_
      exact triple_ret fun w hw => ⟨hw.1, fun h => by cases h⟩

theorem flushNodes_flushes (hstart : start ≠ []) (addrs : List Addr)
    (hscanned : ∀ addr ∈ addrs, scanned (rewriteAddr cfg addr)) :
    Triple Eq (Nodes.Acts slot) (Flushing slot start scanned w₀ ready)
      (flushNodes cfg src (.mk (start ++ lit "*")) addrs) fun r w =>
        Flushing slot start scanned w₀ ready w ∧ (r = .done →
          ∀ addr ∈ addrs, Tried start (rewriteAddr cfg addr) w) := by
  induction addrs generalizing ready with
  | nil => exact triple_ret fun w hw => ⟨hw, fun _ _ h => by cases h⟩
  | cons addr addrs ih =>
    refine (scanDeleteOn_flushes hstart addr (hscanned addr List.mem_cons_self)).bind fun r => ?_
    cases r with
    | done =>
      refine Triple.mono (P := Flushing slot start scanned w₀ (rewriteAddr cfg addr :: ready))
        (ih fun b hb => hscanned b (List.mem_cons_of_mem _ hb)) (fun w hw => ?_) fun r w hw => ?_
      · refine ⟨hw.1.holds, hw.1.dels, fun b hb => ?_, hw.1.told⟩
        rcases List.mem_cons.1 hb with rfl | hb
        · exact hw.2 rfl
        · exact hw.1.tried b hb
      · refine ⟨⟨hw.1.holds, hw.1.dels, fun b hb => hw.1.tried b (List.mem_cons_of_mem _ hb),
          hw.1.told⟩, fun hr b hb => ?_⟩
        rcases List.mem_cons.1 hb with rfl | hb
        · exact hw.1.tried _ List.mem_cons_self
        · exact hw.2 hr b hb
    | running => exact triple_ret fun w hw => ⟨hw.1, fun h => by cases h⟩
    | failed e => exact triple_ret fun w hw => ⟨hw.1, fun h => by cases h⟩
    | io e => exact triple_ret fun w hw => ⟨hw.1, fun h => by cases h⟩

/-- The addresses of `candidateAddrs`. -/
def knownAddrs (cfg : Config) (t : Option Topology) : List Addr :=
  (((((t.map Topology.nodes).getD []).filter Node.master).map Node.addr ++
    cfg.clusterSeeds).filter (· ≠ "")).eraseDups

/-- The nodes that the proxy scans. -/
def Scanned (cfg : Config) (t : Option Topology) (a : Addr) : Prop :=
  ∃ addr ∈ knownAddrs cfg t, rewriteAddr cfg addr = a

variable {s : Session} {cmd : ClientCmd}

theorem finish_nodes {P : Nodes → Prop} (hP : ∀ w v, P w → P { w with told := v })
    (told : List Value) (v : Value) :
    Triple Eq (Nodes.Acts slot) (fun w => P w ∧ w.told = told) (finish s cmd.id v) fun _ w =>
      P w ∧ (w.told = told ∨ w.told = v :: told) :=
  (reply_nodes hP (some cmd.id) v).bind fun _ => triple_ret fun _ hw => hw

theorem candidateAddrs_nodes : Triple Eq (Nodes.Acts slot) (fun w => w = w₀) (candidateAddrs cfg)
    fun addrs w => addrs = knownAddrs cfg w₀.topology ∧ w = w₀ := by
  refine triple_call (R := fun t w => t = w₀.topology ∧ w = w₀) (stable_eq _) ?_ fun t => ?_
  · rintro t w w' rfl ⟨ht, rfl⟩
    exact ⟨ht, rfl⟩
  · refine triple_ret fun w hw => ⟨?_, hw.2⟩
    rw [hw.1]
    rfl

/-- The reply is `OK` only if all nodes are through with theirs. -/
theorem cmdFlushDB_flushes (hdb : s.db ≠ 0) (hdels : ∀ a, w₀.dels a = []) (htold : w₀.told = []) :
    Triple Eq (Nodes.Acts slot) (fun w => w = w₀) (cmdFlushDB cfg s cmd) fun _ w =>
      Flushing slot (dbPrefix s.db) (Scanned cfg w₀.topology) w₀ [] { w with told := [] } ∧
        (plusOK ∈ w.told → ∀ a, Scanned cfg w₀.topology a → Tried (dbPrefix s.db) a w) := by
  have hstart : dbPrefix s.db ≠ [] := by
    rw [dbPrefix, if_neg hdb]
    exact List.append_ne_nil_of_right_ne_nil _ (by decide)
  have hfirst : Flushing slot (dbPrefix s.db) (Scanned cfg w₀.topology) w₀ [] w₀ :=
    ⟨fun a k => by simp [hdels], fun a d hd => by simp [hdels] at hd,
      fun a ha => (List.not_mem_nil ha).elim, htold⟩
  -- every fault is told to the client with an error, which is not `OK`
  have hfail : ∀ e, Triple Eq (Nodes.Acts slot)
      (Flushing slot (dbPrefix s.db) (Scanned cfg w₀.topology) w₀ []) (finish s cmd.id (errOf e))
      fun _ w =>
        Flushing slot (dbPrefix s.db) (Scanned cfg w₀.topology) w₀ [] { w with told := [] } ∧
          (plusOK ∈ w.told → ∀ a, Scanned cfg w₀.topology a → Tried (dbPrefix s.db) a w) := by
    intro e
    refine (finish_nodes (P := fun w =>
      Flushing slot (dbPrefix s.db) (Scanned cfg w₀.topology) w₀ [] { w with told := [] })
        (fun _ _ h => h) [] (errOf e)).mono
      (fun w hw => ⟨hw.keep rfl rfl hw.told.symm, hw.told⟩) fun _ w hw => ⟨hw.1, fun hok => ?_⟩
    rcases hw.2 with htold | htold
    · simp [htold] at hok
    · rw [htold, List.mem_singleton] at hok
      exact absurd hok (plusOK_ne_error _)
  unfold cmdFlushDB
  rw [if_neg hdb]
  refine candidateAddrs_nodes.bind fun addrs => ?_
  refine triple_pure (P := fun w => w = w₀) (fun _ h => h) ?_
  rintro rfl
  have hscanned : ∀ addr ∈ knownAddrs cfg w₀.topology,
      Scanned cfg w₀.topology (rewriteAddr cfg addr) := fun addr ha => ⟨addr, ha, rfl⟩
  refine Triple.mono (P := Flushing slot (dbPrefix s.db) (Scanned cfg w₀.topology) w₀ []) ?_
    (fun w hw => by rw [hw]; exact hfirst) fun _ _ h => h
  refine (flushNodes_flushes hstart _ hscanned).bind fun r => ?_
  cases r with
  | done =>
    refine (finish_nodes (P := fun w =>
      Flushing slot (dbPrefix s.db) (Scanned cfg w₀.topology) w₀ [] { w with told := [] } ∧
        ∀ a, Scanned cfg w₀.topology a → Tried (dbPrefix s.db) a w)
        (fun _ _ h => h) [] plusOK).mono
      (fun w hw => ?_) fun _ w hw => ⟨hw.1.1, fun _ => hw.1.2⟩
    refine ⟨⟨hw.1.keep rfl rfl hw.1.told.symm, ?_⟩, hw.1.told⟩
    rintro a ⟨addr, haddr, rfl⟩
    exact hw.2 rfl addr haddr
  | running =>
    refine triple_ret fun w hw => ⟨hw.1.keep rfl rfl hw.1.told.symm, fun hok => ?_⟩
    simp [hw.1.told] at hok
  | failed e => exact (hfail e).mono (fun _ hw => hw.1) fun _ _ h => h
  | io e => exact (hfail e).mono (fun _ hw => hw.1) fun _ _ h => h

/-- The proxy knows the nodes that have something to delete, and what it could not delete
with one page it deletes with another. -/
structure Clears (cfg : Config) (slot : Bytes → Nat) (start : Bytes) (masters : Addr → Prop)
    (w w' : Nodes) : Prop where
  known : ∀ m, masters m → ∀ k, start <+: k → w.holds m k = true → Scanned cfg w.topology m
  again : ∀ m, masters m → ∀ d ∈ w'.dels m, ¬ d.CarriedOut slot → ∀ k ∈ d.keys,
    w.holds m k = true → ∃ d' ∈ w'.dels m, d'.CarriedOut slot ∧ k ∈ d'.keys

/-- **`FLUSHDB` of a database.** Only keys of the database are deleted. If the reply is
`OK`, no master has one left exactly if the proxy knew all masters that had one, and if
each key whose `DEL` failed, for keys in other slots or because it was refused, was deleted
by another `DEL`. -/
theorem cmdFlushDB_clears_iff {tr : Trace} {out : Session × Outcome} (masters : Addr → Prop)
    (hdb : s.db ≠ 0) (hdels : ∀ a, w.dels a = []) (htold : w.told = [])
    (hrun : (cmdFlushDB cfg s cmd).Runs tr out)
    (hpath : Path Eq (Nodes.Acts slot) w tr w') :
    (∀ a k, ¬ dbPrefix s.db <+: k → w'.holds a k = w.holds a k) ∧
      (plusOK ∈ w'.told →
        ((∀ m, masters m → ∀ k, dbPrefix s.db <+: k → w'.holds m k = false) ↔
          Clears cfg slot (dbPrefix s.db) masters w w')) := by
  obtain ⟨hf, hdone⟩ := cmdFlushDB_flushes hdb hdels htold w tr out w' rfl hrun hpath
  have hgone : ∀ {m k}, w.holds m k = true → w'.holds m k = false →
      ∃ d ∈ w'.dels m, d.CarriedOut slot ∧ k ∈ d.keys := by
    intro m k hheld hgone
    by_contra hnone
    have := (hf.holds m k).2 ⟨hheld, fun d hd hout hk => hnone ⟨d, hd, hout, hk⟩⟩
    simp [hgone] at this
  refine ⟨fun a k hk => ?_, fun hok => ⟨fun hclean => ⟨?_, ?_⟩, fun h m hm k hk => ?_⟩⟩
  · rw [Bool.eq_iff_iff, hf.holds]
    exact ⟨fun h => h.1, fun h => ⟨h, fun d hd _ hmem => hk ((hf.dels a d hd).2 k hmem)⟩⟩
  · intro m hm k hk hheld
    obtain ⟨d, hd, -⟩ := hgone hheld (hclean m hm k hk)
    exact (hf.dels m d hd).1
  · intro m hm d hd _ k hk hheld
    exact hgone hheld (hclean m hm k ((hf.dels m d hd).2 k hk))
  · by_contra hstill
    rw [Bool.not_eq_false] at hstill
    obtain ⟨hheld, hspared⟩ := (hf.holds m k).1 hstill
    obtain ⟨d, hd, hmem⟩ := hdone hok m (h.known m hm k hk hheld) k hk hstill
    by_cases hout : d.CarriedOut slot
    · exact hspared d hd hout hmem
    · obtain ⟨d', hd', hout', hmem'⟩ := h.again m hm d hd hout k hmem hheld
      exact hspared d' hd' hout' hmem'

end

/-! ## Nodes that answer -/

/-- Nodes with no other keys than `all`. -/
abbrev Among (all : List Bytes) := { w : Nodes // ∀ a k, w.holds a k = true → k ∈ all }

/-- Nodes that list everything in one page and refuse nothing. -/
def nodesOf (slot : Bytes → Nat) (all : List Bytes) (w : Among all) :
    (o : Op) → Res o × Among all
  | .load => (w.1.topology, w)
  | .get a _ => (.ok 0, ⟨{ w.1 with addrOf := Function.update w.1.addrOf 0 a }, w.2⟩)
  | .read c f =>
    if nameOf f.argv = "SCAN" then
      let start := (argAt f.argv 3).dropLast
      let page := all.filter fun k => decide (argAt f.argv 3 = start ++ lit "*" ∧ start <+: k)
      (.ok (array [bulkString (.mk (lit "0")), commandArray (page.map Slice.mk)]),
        ⟨w.1.list (w.1.addrOf c) (argAt f.argv 1) page, w.2⟩)
    else if nameOf f.argv = "DEL" then
      let d : Deletion := { keys := (f.argv.drop 1).map Slice.bytes, refused := false }
      (.ok (if d.CarriedOut slot then integer d.keys.length else errCross),
        ⟨w.1.del slot (w.1.addrOf c) d, fun a k h => w.2 a k (holds_del.1 h).1⟩)
    else (.ok plusOK, w)
  | .cwrite _ v => (none, ⟨{ w.1 with told := v :: w.1.told }, w.2⟩)
  | .turns => (1, w)
  | o => (calm (fun _ => plusOK) o, w)

theorem nodesOf_path (slot : Bytes → Nat) {all : List Bytes} {α : Type} (p : Prog α)
    (w : Among all) : Path Eq (Nodes.Acts slot) w.1 (p.exec (nodesOf slot all) w).1.2
      (p.exec (nodesOf slot all) w).2.1 := by
  refine exec_path Subtype.val (fun w o _ => ⟨w.1, rfl, ?_⟩) p w fun _ _ => trivial
  cases o with
  | load => exact ⟨rfl, rfl⟩
  | write c fs =>
    cases fs with
    | nil => rfl
    | cons f fs => cases fs <;> rfl
  | read c f =>
    simp only [nodesOf]
    split
    · rename_i hscan
      simp only [Nodes.Acts, Nodes.Answers, hscan, if_true]
      refine .inr ⟨_, _, rfl, fun k hk => ?_, rfl, fun _ k hk hheld => ?_⟩
      · obtain ⟨-, hk⟩ := List.mem_filter.1 hk
        exact ⟨_, of_decide_eq_true hk⟩
      · obtain ⟨start, hpat, hk⟩ := hk
        have hdrop : (argAt f.argv 3).dropLast = start := by
          rw [hpat]
          exact List.dropLast_concat
        simp only [Nodes.list, Function.update_self, List.mem_append, List.mem_filter]
        refine .inr ⟨w.2 _ k hheld, ?_⟩
        rw [hdrop]
        exact decide_eq_true ⟨hpat, hk⟩
    · rename_i hscan
      split
      · rename_i hdel
        simp only [Nodes.Acts, Nodes.Answers, hdel]
        rw [if_neg (by decide), if_pos trivial]
        refine ⟨_, rfl, ?_, rfl⟩
        split <;> simp_all [integer, errCross, error, Value.isError]
      · rename_i hdel
        simp only [Nodes.Acts, Nodes.Answers, hscan, hdel, if_false]
  | _ => rfl

/-- The seed of `seeded` holds these keys. -/
def seedHolds (all : List Bytes) : Among all :=
  ⟨{ topology := none, holds := fun a k => decide (a = "10.0.0.1:6379") && all.contains k }, by
    intro a k h
    exact List.contains_iff_mem.1 (Bool.and_eq_true_iff.1 h).2⟩

/-- `FLUSHDB` in database 1. -/
def flushDB1 : Prog (Session × Outcome) :=
  cmdFlushDB seeded { newSession seeded with db := 1 } (command 0 ["FLUSHDB"])

theorem cmdFlushDB_clears_iff_one :
    ∃ tr out w', flushDB1.Runs tr out ∧
      Path Eq (Nodes.Acts fun k => slotOf seeded (.mk k)) (seedHolds [lit "db1:a"]).1 tr w' ∧
      plusOK ∈ w'.told ∧ ∀ k, lit "db1:" <+: k → w'.holds "10.0.0.1:6379" k = false := by
  have hrun := Interact.Prog.exec_runs (nodesOf (fun k => slotOf seeded (.mk k)) [lit "db1:a"])
    flushDB1 (seedHolds [lit "db1:a"])
  have hpath := nodesOf_path (fun k => slotOf seeded (.mk k)) flushDB1
    (seedHolds [lit "db1:a"])
  have hok : plusOK ∈ (flushDB1.exec (nodesOf (fun k => slotOf seeded (.mk k)) [lit "db1:a"])
      (seedHolds [lit "db1:a"])).2.1.told := by decide +kernel
  have hall : ∀ d ∈ (flushDB1.exec (nodesOf (fun k => slotOf seeded (.mk k)) [lit "db1:a"])
      (seedHolds [lit "db1:a"])).2.1.dels "10.0.0.1:6379",
      d.CarriedOut fun k => slotOf seeded (.mk k) := by decide +kernel
  refine ⟨_, _, _, hrun, hpath, hok, ?_⟩
  refine ((cmdFlushDB_clears_iff (fun m => m = "10.0.0.1:6379") (by decide)
    (fun _ => rfl) rfl hrun hpath).2 hok).2 ⟨?_, ?_⟩ _ rfl
  · rintro m rfl k - -
    exact ⟨"10.0.0.1:6379", by decide, by decide⟩
  · rintro m rfl d hd hnot
    exact absurd (hall d hd) hnot

/-- Two keys in different slots: `DEL` fails, they stay, and the reply is `OK`. -/
theorem flushed_keys_stay :
    ∃ tr out w', flushDB1.Runs tr out ∧
      Path Eq (Nodes.Acts fun k => slotOf seeded (.mk k))
        (seedHolds [lit "db1:a", lit "db1:b"]).1 tr w' ∧
      plusOK ∈ w'.told ∧ w'.holds "10.0.0.1:6379" (lit "db1:a") = true := by
  refine ⟨_, _, _, Interact.Prog.exec_runs _ flushDB1 _, nodesOf_path _ flushDB1 _, ?_, ?_⟩
  · decide +kernel
  · decide +kernel

end RespProxy.Proxy
