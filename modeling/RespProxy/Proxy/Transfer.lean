import RespProxy.Backend.Keyspace
import RespProxy.Proxy.Handle

/-! # `MOVE` and `COPY` between databases

`transferKey` moves or copies a key to another name. Inside a slot it uses `RENAME` and
`COPY`; between slots it reads the value with `DUMP`, writes it with `RESTORE` and, for a
move, deletes the source. In front of both it asks whether the destination exists.

* `transferKey_standalone_iff`: alone and without faults, it does what one server does for
  `MOVE` and `COPY`, up to two cases;
* `transferKey_safe_iff`: with a failure, a `MOVE` loses nothing, up to two cases.
-/

namespace RespProxy.Proxy

open Backend Cluster Command Resp Interact

/-! ## The commands of a transfer -/

section

variable {Val : Type} {C : Codec Val} {keys : Keys Val} {k d : Bytes}

theorem serve_exists : serve C [arg "EXISTS", .mk k] keys =
    (integer (if (keys k).isSome then 1 else 0), keys) :=
  (serve_command C (by decide) [k] keys).trans (by simp [commandOn, existsOn])

theorem serve_del : serve C [arg "DEL", .mk k] keys =
    (integer (if (keys k).isSome then 1 else 0), Function.update keys k none) :=
  (serve_command C (by decide) [k] keys).trans (by simp [commandOn, delOn])

theorem serve_dump : serve C [arg "DUMP", .mk k] keys =
    (((keys k).map fun e => bulkString (.mk (C.dump e.value))).getD nullBulk, keys) := by
  refine (serve_command C (by decide) [k] keys).trans ?_
  cases hk : keys k <;> simp [commandOn, dumpOn, hk]

theorem serve_rename {e : Entry Val} (he : keys k = some e) :
    serve C [arg "RENAME", .mk k, .mk d] keys =
      (simpleString "OK", Function.update (Function.update keys k none) d (some e)) :=
  (serve_command C (by decide) [k, d] keys).trans (by simp [commandOn, renameOn, he])

theorem serve_rename_missing (he : keys k = none) : serve C [arg "RENAME", .mk k, .mk d] keys =
    (error "ERR no such key", keys) :=
  (serve_command C (by decide) [k, d] keys).trans (by simp [commandOn, renameOn, he])

/-- The answer to `DUMP` for a key that exists is a payload. -/
theorem dump_payload (v : Val) : (bulkString (.mk (C.dump v))).isError = false ∧
    ¬ ((bulkString (.mk (C.dump v))).null = true ∨ (bulkString (.mk (C.dump v))).str.bytes = []) := by
  refine ⟨rfl, ?_⟩
  simpa [bulkString, Slice.bytes] using C.dump_ne_nil v

/-- The option that overwrites the destination. -/
theorem replaceOption_eq (replace : Bool) : (if replace then [arg "REPLACE"] else []) =
    (if replace then [lit "REPLACE"] else []).map Slice.mk := by
  cases replace <;> rfl

theorem serve_copy (replace : Bool) :
    serve C ([arg "COPY", .mk k, .mk d] ++ if replace then [arg "REPLACE"] else []) keys =
      if keys k = none ∨ ((keys d).isSome ∧ replace = false) then (integer 0, keys)
      else (integer 1, Function.update keys d (keys k)) := by
  rw [replaceOption_eq]
  refine (serve_command C (by decide) (k :: d :: if replace then [lit "REPLACE"] else [])
    keys).trans ?_
  cases hk : keys k with
  | none => simp [commandOn, copyOn, hk]
  | some e => cases replace <;> simp [commandOn, copyOn, hk]

/-- `RESTORE` of what `DUMP` gave. -/
theorem serve_restore (replace : Bool) (v : Val) :
    serve C ([arg "RESTORE", .mk d, arg "0", .mk (C.dump v)] ++
        if replace then [arg "REPLACE"] else []) keys =
      if (keys d).isSome ∧ replace = false then
        (error "BUSYKEY Target key name already exists.", keys)
      else (simpleString "OK", Function.update keys d (some { value := v })) := by
  rw [replaceOption_eq]
  refine (serve_command C (by decide)
    (d :: lit "0" :: C.dump v :: if replace then [lit "REPLACE"] else []) keys).trans ?_
  have httl : ttlOf (lit "0") = none := by decide
  cases replace <;> simp [commandOn, restoreOn, C.restore_dump, httl]

end

/-! ## Alone -/

section

variable {Val : Type} {C : Codec Val} {cfg : Config} {K : Keys Val}

/-- A command by itself is executed. -/
theorem exec_alone (hcfg : cfg.Valid) (f : Frame) (slot : Nat) (read : Bool) :
    Triple Eq (Acts C faultless) (fun st => st.keys = K) (exec cfg slot f read) fun x st =>
      x = .ok (serve C f.argv K).1 ∧ st.keys = (serve C f.argv K).2 := by
  refine exec_rule hcfg (stable_eq _) (fun _ => stable_eq _) ?_ slot read
  refine ⟨?_, fun _ _ _ h => h.elim, fun _ _ _ h => h.elim, fun _ _ _ h => h.elim,
    fun _ _ _ h => h.elim⟩
  rintro st rfl _
  exact ⟨rfl, run_keys st f.argv true⟩

/-- What the commands of a transfer come to. -/
def transferred (same : Prop) [Decidable same] (K : Keys Val) (key dst : Bytes)
    (delSrc replace : Bool) : Except Err Int × Keys Val :=
  if replace = false ∧ (K dst).isSome then (.ok 0, K)
  else match K key with
    | none => (if same ∧ delSrc then .error "ERR no such key" else .ok 0, K)
    | some e =>
      if same then
        (.ok 1, Function.update (if delSrc then Function.update K key none else K) dst (some e))
      else
        let K' := Function.update K dst (some { value := e.value })
        (.ok 1, if delSrc then Function.update K' key none else K')

variable {src : Origin} {key dst : Bytes} {delSrc replace : Bool}

theorem transferLocal_alone (hcfg : cfg.Valid) (hslot : slotOf cfg (.mk key) = slotOf cfg (.mk dst))
    (hfree : ¬ (replace = false ∧ (K dst).isSome)) :
    Triple Eq (Acts C faultless) (fun st => st.keys = K)
      (transferLocal cfg src (.mk key) (.mk dst) delSrc replace) fun x st =>
        (x, st.keys) = transferred (slotOf cfg (.mk key) = slotOf cfg (.mk dst)) K key dst delSrc
          replace := by
  refine (exec_alone hcfg _ _ _).bind fun x => ?_
  refine triple_pure (P := fun st => st.keys = _) (fun _ h => h) ?_
  rintro rfl
  have herr : errFromValue (error "ERR no such key") = "ERR no such key" := by decide
  rw [transferred, if_neg hfree]
  cases delSrc with
  | true =>
    cases hK : K key with
    | none =>
      simp only [if_true, serve_rename_missing hK]
      refine triple_ret fun st hst => ?_
      simp [hst, hslot, herr]
    | some e =>
      simp only [if_true, serve_rename hK]
      refine triple_ret fun st hst => ?_
      simp [hst, hslot]
  | false =>
    simp only [Bool.false_eq_true, if_false, serve_copy]
    cases hK : K key with
    | none =>
      simp only [true_or, if_true]
      refine triple_ret fun st hst => ?_
      simp [hst, integer]
    | some e =>
      have hdo : ¬ ((some e : Option (Entry Val)) = none ∨
          ((K dst).isSome = true ∧ replace = false)) := by
        simpa [and_comm] using hfree
      rw [if_neg hdo]
      refine triple_ret fun st hst => ?_
      simp [hst, hslot, integer]

theorem transferDump_alone (hcfg : cfg.Valid) (hslot : slotOf cfg (.mk key) ≠ slotOf cfg (.mk dst))
    (hfree : ¬ (replace = false ∧ (K dst).isSome)) :
    Triple Eq (Acts C faultless) (fun st => st.keys = K)
      (transferDump cfg src (.mk key) (.mk dst) delSrc replace) fun x st =>
        (x, st.keys) = transferred (slotOf cfg (.mk key) = slotOf cfg (.mk dst)) K key dst delSrc
          replace := by
  refine (exec_alone hcfg _ _ _).bind fun x => ?_
  refine triple_pure (P := fun st => st.keys = _) (fun _ h => h) ?_
  rintro rfl
  rw [transferred, if_neg hfree, serve_dump]
  cases hK : K key with
  | none =>
    refine triple_ret fun st hst => ?_
    simp [hst, hslot]
  | some e =>
    simp only [Option.map_some, Option.getD_some]
    rw [if_neg (by simp [dump_payload]), if_neg (dump_payload e.value).2]
    refine (exec_alone hcfg _ _ _).bind fun y => ?_
    refine triple_pure (P := fun st => st.keys = _) (fun _ h => h) ?_
    rintro rfl
    simp only [bulkString, serve_restore]
    rw [if_neg fun h => hfree h.symm]
    dsimp only
    rw [if_neg (by decide)]
    cases delSrc with
    | true =>
      refine (exec_alone hcfg _ _ _).bind fun z => triple_ret fun st hst => ?_
      rw [hst.2, serve_del]
      simp [hslot]
    | false =>
      refine triple_ret fun st hst => ?_
      simp [hst, hslot]

theorem transferKey_alone (hcfg : cfg.Valid) :
    Triple Eq (Acts C faultless) (fun st => st.keys = K)
      (transferKey cfg src (.mk key) (.mk dst) delSrc replace) fun x st =>
        (x, st.keys) = transferred (slotOf cfg (.mk key) = slotOf cfg (.mk dst)) K key dst delSrc
          replace := by
  have htransfer : ¬ (replace = false ∧ (K dst).isSome) →
      Triple Eq (Acts C faultless) (fun st => st.keys = K)
        (if slotOf cfg (.mk key) = slotOf cfg (.mk dst) then
          transferLocal cfg src (.mk key) (.mk dst) delSrc replace
        else transferDump cfg src (.mk key) (.mk dst) delSrc replace) fun x st =>
          (x, st.keys) = transferred (slotOf cfg (.mk key) = slotOf cfg (.mk dst)) K key dst delSrc
            replace := by
    intro hfree
    split
    · exact transferLocal_alone hcfg ‹_› hfree
    · exact transferDump_alone hcfg ‹_› hfree
  unfold transferKey
  dsimp only
  split
  · exact htransfer (by simp_all)
  · refine (exec_alone hcfg _ _ _).bind fun x => ?_
    refine triple_pure (P := fun st => st.keys = _) (fun _ h => h) ?_
    rintro rfl
    rw [serve_exists]
    cases hK : K dst with
    | some d =>
      refine triple_ret fun st hst => ?_
      rw [transferred, if_pos ⟨by simpa using ‹¬ replace = true›, by simp [hK]⟩, hst]
    | none => exact htransfer (by simp [hK])

/-- What one server does for `MOVE` (`delSrc`) and `COPY`: reply and keys. -/
def standalone (K : Keys Val) (key dst : Bytes) (delSrc replace : Bool) : Int × Keys Val :=
  match K key with
  | none => (0, K)
  | some e =>
    if replace = false ∧ (K dst).isSome then (0, K)
    else (1, Function.update (if delSrc then Function.update K key none else K) dst (some e))

/-- A move inside a slot has a source, or its destination is taken; and what goes to
another slot does not expire. -/
structure Alike (cfg : Config) (K : Keys Val) (key dst : Bytes) (delSrc replace : Bool) : Prop where
  present : slotOf cfg (.mk key) = slotOf cfg (.mk dst) → delSrc = true → K key = none →
    replace = false ∧ (K dst).isSome
  lasting : slotOf cfg (.mk key) ≠ slotOf cfg (.mk dst) → ∀ e, K key = some e →
    ¬ (replace = false ∧ (K dst).isSome) → e.expiry = none

theorem transferred_eq_iff (hne : key ≠ dst) :
    transferred (slotOf cfg (.mk key) = slotOf cfg (.mk dst)) K key dst delSrc replace =
        (.ok (standalone K key dst delSrc replace).1, (standalone K key dst delSrc replace).2) ↔
      Alike cfg K key dst delSrc replace := by
  unfold transferred standalone
  by_cases hfree : replace = false ∧ (K dst).isSome
  · rw [if_pos hfree]
    refine iff_of_true ?_ ⟨fun _ _ _ => hfree, fun _ _ _ h => absurd hfree h⟩
    cases K key with
    | none => rfl
    | some e => simp [hfree]
  rw [if_neg hfree]
  cases hK : K key with
  | none =>
    dsimp only
    constructor
    · intro h
      refine ⟨fun hslot hdel _ => ?_, fun _ e he => absurd (hK.symm.trans he) (by simp)⟩
      rw [if_pos ⟨hslot, hdel⟩] at h
      cases h
    · intro h
      rw [if_neg fun hs => hfree (h.present hs.1 hs.2 hK)]
  | some e =>
    dsimp only
    rw [if_neg hfree]
    by_cases hslot : slotOf cfg (.mk key) = slotOf cfg (.mk dst)
    · rw [if_pos hslot]
      exact iff_of_true rfl ⟨fun _ _ h => absurd (hK.symm.trans h) (by simp),
        fun h => absurd hslot h⟩
    · rw [if_neg hslot]
      -- the stores can differ in the expiry only
      constructor
      · intro h
        refine ⟨fun hs => absurd hs hslot, fun _ e' he' _ => ?_⟩
        cases hK.symm.trans he'
        have hdst := congrFun (Prod.mk.inj h).2 dst
        have hexp : (some { value := e.value } : Option (Entry Val)) = some e := by
          cases delSrc <;> simpa [Function.update_of_ne hne.symm] using hdst
        rw [← Option.some.inj hexp]
      · intro h
        have he : ({ value := e.value } : Entry Val) = e := by
          rw [← h.lasting hslot e hK hfree]
        rw [he]
        cases delSrc with
        | false => rfl
        | true => simp [Function.update_comm hne.symm]

/-- **`MOVE` and `COPY` as on one server.** Alone and without faults, the reply and the
keys are those of one server, exactly if a move inside a slot has a source or a taken
destination, and if what goes to another slot does not expire. -/
theorem transferKey_standalone_iff {st st' : State Val} {tr : Trace} {x : Except Err Int}
    (hcfg : cfg.Valid) (hne : key ≠ dst)
    (hrun : (transferKey cfg src (.mk key) (.mk dst) delSrc replace).Runs tr x)
    (hpath : Path Eq (Acts C faultless) st tr st') :
    (x = .ok (standalone st.keys key dst delSrc replace).1 ∧
        st'.keys = (standalone st.keys key dst delSrc replace).2) ↔
      Alike cfg st.keys key dst delSrc replace := by
  rw [← transferred_eq_iff hne, ← transferKey_alone hcfg st tr x st' rfl hrun hpath]
  exact Prod.mk_inj.symm

/-- `MOVE key 1` in database 0. -/
def move (key : String) : Prog (Except Err Int) :=
  transferKey seeded (.client ⟨0, 0⟩ [arg "MOVE", arg key, arg "1"] 0 false) (arg key)
    (.mk (lit "db1:" ++ lit key)) true false

theorem transferKey_standalone_iff_moved :
    ∃ tr st', (move "a").Runs tr (.ok 1) ∧
      Path Eq (Acts stringCodec faultless) (holding [(lit "a", { value := [1] })]) tr st' ∧
      st'.keys = (standalone (holding [(lit "a", { value := [1] })]).keys (lit "a") (lit "db1:a")
        true false).2 := by
  obtain ⟨hrun, hpath⟩ := served_run (C := stringCodec) (move "a")
    (holding [(lit "a", { value := [1] })])
  obtain ⟨hx, hkeys⟩ := (transferKey_standalone_iff seeded_valid (by decide) hrun hpath).2
    ⟨fun _ _ h => absurd h (by decide), fun _ e he _ => by cases he; rfl⟩
  rw [hx] at hrun
  exact ⟨_, _, hrun, hpath, hkeys⟩

/-- `MOVE a 1` goes to another slot, and the key no longer expires. -/
theorem moved_key_stays :
    ∃ tr st', (move "a").Runs tr (.ok 1) ∧
      Path Eq (Acts stringCodec faultless)
        (holding [(lit "a", { value := [1], expiry := some 60 })]) tr st' ∧
      st'.keys (lit "db1:a") = some { value := [1] } ∧
      (standalone (holding [(lit "a", { value := [1], expiry := some 60 })]).keys (lit "a")
        (lit "db1:a") true false).2 (lit "db1:a") = some { value := [1], expiry := some 60 } := by
  obtain ⟨hrun, hpath⟩ := served_run (C := stringCodec) (move "a")
    (holding [(lit "a", { value := [1], expiry := some 60 })])
  exact ⟨_, _, hrun, hpath, by decide +kernel, by decide +kernel⟩

end

/-! ## With a failure -/

/-- The ways in which a command fails: it is refused, or it breaks off before or after it
is executed. -/
inductive Failure where
  | refused
  | broken
  | lost
deriving DecidableEq

section

variable {Val : Type} {C : Codec Val} {cfg : Config} {K : Keys Val} {i n : Nat} {kind : Failure}

/-- Of the commands, number `i` fails. -/
def failsAt (i : Nat) (kind : Failure) : Faults Val where
  answer st := st.history.length ≠ i
  fail st := st.history.length = i ∧ kind = .broken
  lose st := st.history.length = i ∧ kind = .lost
  refuse st _ v := st.history.length = i ∧ kind = .refused ∧ redirectOf v = none

/-- The keys are `K` in front of command `n`. -/
def Before (K : Keys Val) (n : Nat) (st : State Val) : Prop := st.keys = K ∧ st.history.length = n

/-- What becomes of command `n`. -/
inductive Becomes (C : Codec Val) (i : Nat) (kind : Failure) (argv : Argv) (K : Keys Val)
    (n : Nat) : Except Err Value → State Val → Prop where
  | answered {st : State Val} (hn : n ≠ i) (h : Before (serve C argv K).2 (n + 1) st) :
    Becomes C i kind argv K n (.ok (serve C argv K).1) st
  | refused {st : State Val} {v : Value} (hn : n = i) (hk : kind = .refused)
    (hv : v.isError = true) (h : Before K (n + 1) st) : Becomes C i kind argv K n (.ok v) st
  | broken {st : State Val} {e : Err} (hn : n = i) (hk : kind = .broken) (h : st.keys = K) :
    Becomes C i kind argv K n (.error e) st
  | lost {st : State Val} {e : Err} (hn : n = i) (hk : kind = .lost)
    (h : st.keys = (serve C argv K).2) : Becomes C i kind argv K n (.error e) st

theorem exec_becomes (hcfg : cfg.Valid) (f : Frame) (hf : f.argv ≠ [arg "ASKING"]) (slot : Nat)
    (read : Bool) : Triple Eq (Acts C (failsAt i kind)) (Before K n) (exec cfg slot f read)
      (Becomes C i kind f.argv K n) := by
  refine exec_rule hcfg (stable_eq _) (fun _ => stable_eq _) ⟨?_, ?_, ?_, ?_, ?_⟩ slot read
  · rintro st ⟨rfl, rfl⟩ hanswer
    rw [State.run_of_ne hf]
    exact .answered hanswer ⟨rfl, rfl⟩
  · rintro st v ⟨rfl, rfl⟩ ⟨hi, hk, -⟩ hv
    rw [State.refuse_of_ne hf]
    exact .refused hi hk hv ⟨rfl, rfl⟩
  · rintro st v - ⟨-, -, hred⟩ hne
    exact absurd hred hne
  · rintro st e ⟨rfl, rfl⟩ ⟨hi, hk⟩
    exact .broken hi hk rfl
  · rintro st e ⟨rfl, rfl⟩ ⟨hi, hk⟩ -
    rw [State.run_of_ne hf]
    exact .lost hi hk rfl

/-- A command of a program, by what becomes of it. -/
theorem exec_cases {α : Type} {p : Except Err Value → Prog α} {Q : α → State Val → Prop}
    (hcfg : cfg.Valid) (f : Frame) (hf : f.argv ≠ [arg "ASKING"]) (slot : Nat) (read : Bool)
    (hanswered : n ≠ i → Triple Eq (Acts C (failsAt i kind)) (Before (serve C f.argv K).2 (n + 1))
      (p (.ok (serve C f.argv K).1)) Q)
    (hrefused : n = i → kind = .refused → ∀ v, v.isError = true →
      Triple Eq (Acts C (failsAt i kind)) (Before K (n + 1)) (p (.ok v)) Q)
    (hbroken : n = i → kind = .broken → ∀ e,
      Triple Eq (Acts C (failsAt i kind)) (fun st => st.keys = K) (p (.error e)) Q)
    (hlost : n = i → kind = .lost → ∀ e, Triple Eq (Acts C (failsAt i kind))
      (fun st => st.keys = (serve C f.argv K).2) (p (.error e)) Q) :
    Triple Eq (Acts C (failsAt i kind)) (Before K n) ((exec cfg slot f read).bind p) Q := by
  refine (exec_becomes hcfg f hf slot read).bind fun x st tr a st' hbecomes => ?_
  cases hbecomes with
  | answered hn h => exact hanswered hn st tr a st' h
  | refused hn hk hv h => exact hrefused hn hk _ hv st tr a st' h
  | broken hn hk h => exact hbroken hn hk _ st tr a st' h
  | lost hn hk h => exact hlost hn hk _ st tr a st' h

/-- After a `MOVE`, with the keys `K` before and `K'` afterwards: the value is somewhere, a
taken destination is as it was, and the reply 1 means that the value has moved. -/
structure MoveSafe (K K' : Keys Val) (key dst : Bytes) (x : Except Err Int) : Prop where
  somewhere : ∀ e, K key = some e →
    (K' key).map Entry.value = some e.value ∨ (K' dst).map Entry.value = some e.value
  taken : ∀ d, K dst = some d → K' dst = some d
  moved : x = .ok 1 → K' key = none ∧ ∃ e, K key = some e ∧ (K' dst).map Entry.value = some e.value

/-- The failures that a `MOVE` does not handle: inside a slot, `EXISTS` is refused and the
destination is taken by something else; between slots, `DEL` does not delete the source. -/
def Mishandled (same : Prop) (K : Keys Val) (key dst : Bytes) (i : Nat) (kind : Failure) : Prop :=
  (same ∧ i = 0 ∧ kind = .refused ∧ (K key).isSome ∧ (K dst).isSome ∧ K key ≠ K dst) ∨
    (¬ same ∧ i = 3 ∧ kind ≠ .lost ∧ (K key).isSome ∧ K dst = none)

variable {src : Origin} {key dst : Bytes} {same : Prop} {x : Except Err Int} {e : Entry Val}

theorem safe_unchanged (hx : x ≠ .ok 1) : MoveSafe K K key dst x :=
  ⟨fun _ he => .inl (by simp [he]), fun _ h => h, fun h => absurd h hx⟩

/-- `RENAME` is safe on a free destination. -/
theorem safe_renamed (hne : key ≠ dst) (he : K key = some e) :
    MoveSafe K (Function.update (Function.update K key none) dst (some e)) key dst x ↔
      ∀ d, K dst = some d → K key = K dst := by
  constructor
  · intro h d hd
    have := h.taken d hd
    rw [Function.update_self] at this
    rw [he, hd, this]
  · intro h
    refine ⟨fun e' he' => .inr ?_, fun d hd => ?_, fun _ => ⟨by simp [hne], e, he, by simp⟩⟩
    · cases he.symm.trans he'
      simp
    · rw [Function.update_self, ← hd, ← h d hd, he]

theorem not_mishandled (h0 : i ≠ 0) (h3 : i ≠ 3) : ¬ Mishandled same K key dst i kind := by
  rintro (⟨-, h, -⟩ | ⟨-, h, -⟩)
  · exact h0 h
  · exact h3 h

/-- Command `j` fails, the keys are as before and the answer is an error. -/
theorem safe_failed {j : Nat} (hj : j = i) (h0 : j ≠ 0) (h3 : j ≠ 3) {st : State Val}
    (hst : st.keys = K) (e : Err) :
    MoveSafe K st.keys key dst (.error e) ↔ ¬ Mishandled same K key dst i kind := by
  subst hj
  rw [hst]
  exact iff_of_true (safe_unchanged (by simp)) (not_mishandled h0 h3)

/-- `EXISTS` let the transfer go on. -/
def Passed (K : Keys Val) (dst : Bytes) (i : Nat) (kind : Failure) : Prop :=
  (i ≠ 0 ∧ K dst = none) ∨ (i = 0 ∧ kind = .refused)

theorem transferLocal_safe (hcfg : cfg.Valid) (hne : key ≠ dst) (hsame : same)
    (hpassed : Passed K dst i kind) :
    Triple Eq (Acts C (failsAt i kind)) (Before K 1)
      (transferLocal cfg src (.mk key) (.mk dst) true false) fun x st =>
        MoveSafe K st.keys key dst x ↔ ¬ Mishandled same K key dst i kind := by
  refine exec_cases hcfg _ (by simp) _ _ (fun _ => ?_) (fun hi _ v hv => ?_) (fun hi _ e => ?_)
    fun hi _ e => ?_
  · cases hK : K key with
    | none =>
      simp only [if_true, serve_rename_missing hK]
      refine triple_ret fun st hst => iff_of_true ?_ ?_
      · rw [hst.1]
        exact safe_unchanged (by simp)
      · rintro (⟨-, -, -, h, -⟩ | ⟨h, -⟩)
        · simp [hK] at h
        · exact h hsame
    | some e =>
      simp only [if_true, serve_rename hK]
      refine triple_ret fun st hst => ?_
      rw [hst.1, safe_renamed hne hK]
      rcases hpassed with ⟨hi, hfree⟩ | ⟨hi, hk⟩
      · refine iff_of_true (fun d hd => absurd (hfree.symm.trans hd) (by simp)) ?_
        rintro (⟨-, h, -⟩ | ⟨h, -⟩)
        · exact hi h
        · exact h hsame
      · -- the destination was not looked at
        simp only [Mishandled, hsame, hi, hk, hK]
        cases hdst : K dst <;> simp
  · dsimp only
    rw [if_pos hv]
    exact triple_ret fun st hst => safe_failed hi (by decide) (by decide) hst.1 _
  · exact triple_ret fun st hst => safe_failed hi (by decide) (by decide) hst e
  · refine triple_ret fun st hst => ?_
    cases hK : K key with
    | none =>
      exact safe_failed hi (by decide) (by decide) (by simpa [serve_rename_missing hK] using hst) e
    | some d =>
      have hfree : K dst = none := hpassed.elim And.right fun h => absurd (hi.trans h.1) (by decide)
      rw [hst]
      simp only [if_true, serve_rename hK]
      rw [safe_renamed hne hK]
      exact iff_of_true (fun d hd => absurd (hfree.symm.trans hd) (by simp))
        (not_mishandled (by omega) (by omega))

/-- The value has been restored and the source is still there. -/
theorem safe_restored (hne : key ≠ dst) (he : K key = some e) (hfree : K dst = none) :
    MoveSafe K (Function.update K dst (some { value := e.value })) key dst x ↔ x ≠ .ok 1 := by
  constructor
  · rintro h rfl
    have := (h.moved rfl).1
    rw [Function.update_of_ne hne, he] at this
    cases this
  · intro hx
    refine ⟨fun e' he' => .inl ?_, fun d hd => absurd (hfree.symm.trans hd) (by simp),
      fun h => absurd h hx⟩
    rw [Function.update_of_ne hne, he', Option.map_some]

/-- The value has been restored and the source is gone. -/
theorem safe_deleted (hne : key ≠ dst) (he : K key = some e) (hfree : K dst = none) :
    MoveSafe K (Function.update (Function.update K dst (some { value := e.value })) key none) key
      dst x := by
  have hdst : ((Function.update (Function.update K dst (some { value := e.value })) key none)
      dst).map Entry.value = some e.value := by
    rw [Function.update_of_ne hne.symm, Function.update_self, Option.map_some]
  refine ⟨fun e' he' => .inr ?_, fun d hd => absurd (hfree.symm.trans hd) (by simp),
    fun _ => ⟨Function.update_self .., e, he, hdst⟩⟩
  cases he.symm.trans he'
  exact hdst

/-- The last command of a move. Its reply is not looked at. -/
theorem delete_safe (hcfg : cfg.Valid) (hne : key ≠ dst) (hsame : ¬ same) (he : K key = some e)
    (hfree : K dst = none) :
    Triple Eq (Acts C (failsAt i kind))
      (Before (Function.update K dst (some { value := e.value })) 3)
      (do
        let _ ← exec cfg (slotOf cfg (.mk key)) { argv := [arg "DEL", .mk key], src } false
        return .ok 1)
      fun x st => MoveSafe K st.keys key dst x ↔ ¬ Mishandled same K key dst i kind := by
  have hstays : 3 = i → kind ≠ .lost → ¬ ¬ Mishandled same K key dst i kind :=
    fun hi hk h => h (.inr ⟨hsame, hi.symm, hk, by simp [he], hfree⟩)
  refine exec_cases hcfg _ (by simp) _ _ (fun hi => ?_) (fun hi hk v hv => ?_) (fun hi hk e' => ?_)
    fun hi hk e' => ?_
  · refine triple_ret fun st hst => ?_
    rw [hst.1, serve_del]
    refine iff_of_true (safe_deleted hne he hfree) ?_
    rintro (⟨h, -⟩ | ⟨-, h, -⟩)
    · exact hsame h
    · exact hi h.symm
  · refine triple_ret fun st hst => ?_
    rw [hst.1, safe_restored hne he hfree]
    exact iff_of_false (by simp) (hstays hi (by simp [hk]))
  · refine triple_ret fun st hst => ?_
    rw [hst, safe_restored hne he hfree]
    exact iff_of_false (by simp) (hstays hi (by simp [hk]))
  · refine triple_ret fun st hst => ?_
    rw [hst, serve_del]
    refine iff_of_true (safe_deleted hne he hfree) ?_
    rintro (⟨h, -⟩ | ⟨-, -, h, -⟩)
    · exact hsame h
    · exact h hk

theorem transferDump_safe (hcfg : cfg.Valid) (hne : key ≠ dst) (hsame : ¬ same) :
    Triple Eq (Acts C (failsAt i kind)) (Before K 1)
      (transferDump cfg src (.mk key) (.mk dst) true false) fun x st =>
        MoveSafe K st.keys key dst x ↔ ¬ Mishandled same K key dst i kind := by
  refine exec_cases hcfg _ (by simp) _ _ (fun _ => ?_) (fun hi _ v hv => ?_) (fun hi _ e => ?_)
    fun hi _ e => ?_
  · rw [serve_dump]
    -- `DUMP` is answered: a key that is missing ends the transfer
    cases hK : K key with
    | none =>
      refine triple_ret fun st hst => iff_of_true ?_ ?_
      · rw [hst.1]
        exact safe_unchanged (by simp)
      · rintro (⟨h, -⟩ | ⟨-, -, -, h, -⟩)
        · exact hsame h
        · simp [hK] at h
    | some e =>
      simp only [Option.map_some, Option.getD_some]
      rw [if_neg (by simp [dump_payload]), if_neg (dump_payload e.value).2]
      refine exec_cases hcfg _ (by simp) _ _ (fun _ => ?_) (fun hi _ v hv => ?_) (fun hi _ e => ?_)
        fun hi _ e' => ?_
      · simp only [bulkString, serve_restore]
        -- `RESTORE` is answered: `BUSYKEY` if the destination exists
        cases hdst : K dst with
        | some d =>
          rw [if_pos (by simp)]
          dsimp only
          rw [if_pos (by decide)]
          refine triple_ret fun st hst => iff_of_true ?_ ?_
          · rw [hst.1]
            exact safe_unchanged (by simp)
          · rintro (⟨h, -⟩ | ⟨-, -, -, -, h⟩)
            · exact hsame h
            · simp [hdst] at h
        | none =>
          rw [if_neg (by simp)]
          dsimp only
          rw [if_neg (by decide), if_pos trivial]
          exact delete_safe hcfg hne hsame hK hdst
      · dsimp only
        rw [if_pos hv]
        exact triple_ret fun st hst => safe_failed hi (by decide) (by decide) hst.1 _
      · exact triple_ret fun st hst => safe_failed hi (by decide) (by decide) hst _
      · refine triple_ret fun st hst => ?_
        -- the reply to `RESTORE` is lost: the key may be at both ends, and none is gone
        simp only [bulkString, serve_restore] at hst
        cases hdst : K dst with
        | some d => exact safe_failed hi (by decide) (by decide) (by simpa [hdst] using hst) _
        | none =>
          rw [hst, if_neg (by simp [hdst]), safe_restored hne hK hdst]
          exact iff_of_true (by simp) (not_mishandled (by omega) (by omega))
  · dsimp only
    rw [if_pos hv]
    exact triple_ret fun st hst => safe_failed hi (by decide) (by decide) hst.1 _
  · exact triple_ret fun st hst => safe_failed hi (by decide) (by decide) hst _
  · refine triple_ret fun st hst => ?_
    rw [serve_dump] at hst
    exact safe_failed hi (by decide) (by decide) hst _

theorem transferKey_safe (hcfg : cfg.Valid) (hne : key ≠ dst) :
    Triple Eq (Acts C (failsAt i kind)) (Before K 0)
      (transferKey cfg src (.mk key) (.mk dst) true false) fun x st =>
        MoveSafe K st.keys key dst x ↔
          ¬ Mishandled (slotOf cfg (.mk key) = slotOf cfg (.mk dst)) K key dst i kind := by
  have htransfer : Passed K dst i kind → Triple Eq (Acts C (failsAt i kind)) (Before K 1)
      (if slotOf cfg (.mk key) = slotOf cfg (.mk dst) then
        transferLocal cfg src (.mk key) (.mk dst) true false
      else transferDump cfg src (.mk key) (.mk dst) true false) fun x st =>
        MoveSafe K st.keys key dst x ↔
          ¬ Mishandled (slotOf cfg (.mk key) = slotOf cfg (.mk dst)) K key dst i kind := by
    intro hpassed
    split
    · exact transferLocal_safe hcfg hne ‹_› hpassed
    · exact transferDump_safe hcfg hne ‹_›
  have hfails : ∀ e : Err, 0 = i → kind ≠ .refused → ∀ st : State Val, st.keys = K →
      (MoveSafe K st.keys key dst (.error e) ↔
        ¬ Mishandled (slotOf cfg (.mk key) = slotOf cfg (.mk dst)) K key dst i kind) := by
    rintro e rfl hk st rfl
    refine iff_of_true (safe_unchanged (by simp)) ?_
    rintro (⟨-, -, h, -⟩ | ⟨-, h, -⟩)
    · exact hk h
    · cases h
  refine exec_cases hcfg _ (by simp) _ _ (fun hi => ?_) (fun hi hk v hv => ?_) (fun hi hk e => ?_)
    fun hi hk e => ?_
  · rw [serve_exists]
    cases hK : K dst with
    | some d =>
      refine triple_ret fun st hst => iff_of_true ?_ ?_
      · rw [hst.1]
        exact safe_unchanged (by simp)
      · rintro (⟨-, h, -⟩ | ⟨-, -, -, -, h⟩)
        · exact hi h.symm
        · simp [hK] at h
    | none => exact htransfer (.inl ⟨Ne.symm hi, hK⟩)
  · dsimp only
    rw [if_neg (by simp [hv])]
    exact htransfer (.inr ⟨hi.symm, hk⟩)
  · exact triple_ret fun st hst => hfails e hi (by simp [hk]) st hst
  · refine triple_ret fun st hst => ?_
    rw [serve_exists] at hst
    exact hfails e hi (by simp [hk]) st hst

/-- **A `MOVE` with a failure.** One of its commands fails and nobody else writes. The
value is safe exactly if the failure is not one of the two in `Mishandled`. -/
theorem transferKey_safe_iff {st st' : State Val} {tr : Trace} (hcfg : cfg.Valid)
    (hne : key ≠ dst) (hstart : st.history = [])
    (hrun : (transferKey cfg src (.mk key) (.mk dst) true false).Runs tr x)
    (hpath : Path Eq (Acts C (failsAt i kind)) st tr st') :
    MoveSafe st.keys st'.keys key dst x ↔
      ¬ Mishandled (slotOf cfg (.mk key) = slotOf cfg (.mk dst)) st.keys key dst i kind := by
  refine transferKey_safe hcfg hne st tr x st' ⟨rfl, ?_⟩ hrun hpath
  rw [hstart]
  rfl

/-- A run against backends that refuse command `i`. -/
theorem refused_run {α : Type} (i : Nat) (p : Prog α) (st : State Val) :
    p.Runs (p.exec (backends C id fun st => decide (st.history.length = i)) st).1.2
        (p.exec (backends C id fun st => decide (st.history.length = i)) st).1.1 ∧
      Path Eq (Acts C (failsAt i .refused)) st
        (p.exec (backends C id fun st => decide (st.history.length = i)) st).1.2
        (p.exec (backends C id fun st => decide (st.history.length = i)) st).2 :=
  ⟨Prog.exec_runs _ p st, backends_path (F := failsAt i .refused) (fun _ => rfl)
    (fun _ => rfl) (fun _ h => of_decide_eq_false h)
    (fun _ _ h => ⟨of_decide_eq_true h, rfl, by decide⟩) p st⟩

/-- `RESTORE` is refused. -/
theorem transferKey_safe_iff_restore :
    ∃ tr x st', (move "a").Runs tr x ∧
      Path Eq (Acts stringCodec (failsAt 2 .refused)) (holding [(lit "a", { value := [1] })]) tr
        st' ∧
      MoveSafe (holding [(lit "a", { value := [1] })]).keys st'.keys (lit "a") (lit "db1:a") x := by
  obtain ⟨hrun, hpath⟩ := refused_run (C := stringCodec) 2 (move "a")
    (holding [(lit "a", { value := [1] })])
  exact ⟨_, _, _, hrun, hpath, (transferKey_safe_iff seeded_valid (by decide) rfl hrun hpath).2
    (not_mishandled (by decide) (by decide))⟩

/-- Inside a slot `EXISTS` is refused, and the move overwrites the destination. -/
theorem refused_exists_overwrites :
    ∃ tr st', (move "\x7ba\x7d").Runs tr (.ok 1) ∧
      Path Eq (Acts stringCodec (failsAt 0 .refused))
        (holding [(lit "\x7ba\x7d", { value := [1] }), (lit "db1:\x7ba\x7d", { value := [2] })]) tr
        st' ∧
      st'.keys (lit "db1:\x7ba\x7d") = some { value := [1] } := by
  obtain ⟨hrun, hpath⟩ := refused_run (C := stringCodec) 0 (move "\x7ba\x7d")
    (holding [(lit "\x7ba\x7d", { value := [1] }), (lit "db1:\x7ba\x7d", { value := [2] })])
  exact ⟨_, _, hrun, hpath, by decide +kernel⟩

end

end RespProxy.Proxy
