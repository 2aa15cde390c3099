import RespProxy.Proxy.Transfer

/-! # `MOVE` and `COPY` among other clients

A transfer takes several commands, and other clients write in between. `EXISTS` says
nothing about the destination at the time of `RENAME`, and `DUMP` nothing about the source
at the time of `DEL`. `transferKey_harmless`: it destroys nothing of theirs as long as they
leave the key alone that it has looked at.
-/

namespace RespProxy.Proxy

open Backend Cluster Command Resp Interact

section

variable {Val : Type}

/-- The name of the latest command that was executed. -/
def latest : List (Deed Val) → String
  | [] => ""
  | .own argv _ _ :: _ => nameOf argv
  | .refused _ :: h => latest h
  | .other _ _ :: h => latest h

/-- What the key holds was not read with `DUMP`: others wrote it since. -/
def Fresh (key : Bytes) : List (Deed Val) → Prop
  | [] => True
  | .own argv _ _ :: h => argv ≠ [arg "DUMP", .mk key] ∧ Fresh key h
  | .refused _ :: h => Fresh key h
  | .other k _ :: h => k = key ∨ Fresh key h

variable (C : Codec Val) (cfg : Config) (key dst : Bytes) (delSrc : Bool)

/-- A command on the keys `before` and with the history `h` leaves a taken destination as
it is, and removes a source only if it moves it itself or if it was read before. -/
structure Spares (argv : Argv) (before : Keys Val) (h : List (Deed Val)) : Prop where
  taken : ∀ d, before dst = some d → (serve C argv before).2 dst = some d
  source : before key ≠ none → (serve C argv before).2 key = none →
    argv = [arg "RENAME", .mk key, .mk dst] ∨ ¬ Fresh key h

/-- All commands of the program spare what others wrote. -/
def Harmless : List (Deed Val) → Prop
  | [] => True
  | .own argv _ before :: h => Harmless h ∧ Spares C key dst argv before h
  | .refused _ :: h => Harmless h
  | .other _ _ :: h => Harmless h

/-- A move renames. -/
def Renames : Prop := delSrc = true ∧ slotOf cfg (.mk key) = slotOf cfg (.mk dst)

/-- A move deletes the source behind a copy. -/
def Deletes : Prop := delSrc = true ∧ slotOf cfg (.mk key) ≠ slotOf cfg (.mk dst)

/-- Others do not write the destination between `EXISTS` and `RENAME`, and not the source
between `DUMP` and `DEL`. -/
structure Leaves (st : State Val) (k : Bytes) : Prop where
  renames : Renames cfg key dst delSrc → latest st.history = "EXISTS" → k ≠ dst
  deletes : Deletes cfg key dst delSrc →
    latest st.history = "DUMP" ∨ latest st.history = "RESTORE" → k ≠ key

/-- Everything may fail, but `EXISTS` is not refused in front of `RENAME`. -/
def tellsExists : Faults Val where
  answer _ := True
  fail _ := True
  lose _ := True
  refuse _ argv _ := Renames cfg key dst delSrc → nameOf argv ≠ "EXISTS"

variable {C cfg key dst delSrc} {before : Keys Val} {h : List (Deed Val)}

theorem Spares.reads {argv : Argv}
    (hread : (serve C argv before).2 = before) : Spares C key dst argv before h := by
  refine ⟨fun d hd => ?_, fun hsome hnone => ?_⟩
  · rw [hread, hd]
  · rw [hread] at hnone
    exact absurd hnone hsome

/-- A command that writes a free destination only. -/
theorem Spares.sets {argv : Argv} {e : Entry Val} (hfree : before dst = none)
    (hset : (serve C argv before).2 = Function.update before dst (some e)) :
    Spares C key dst argv before h := by
  refine ⟨fun d hd => absurd (hfree.symm.trans hd) (by simp), fun hsome hnone => ?_⟩
  have hne : key ≠ dst := by
    rintro rfl
    exact hsome hfree
  rw [hset, Function.update_of_ne hne] at hnone
  exact absurd hnone hsome

/-- What is behind a command that was executed or refused. -/
def Afterwards (refusable : Prop) (H : List (Deed Val) → Prop) (Q : Value → State Val → Prop) :
    Except Err Value → State Val → Prop
  | .ok v, st => H st.history ∧ ((refusable ∧ v.isError = true) ∨ Q v st)
  | .error _, st => H st.history

/-- A command that spares what others wrote. -/
theorem exec_spares {P : State Val → Prop} {Q : Value → State Val → Prop} (hcfg : cfg.Valid)
    (f : Frame) (hf : f.argv ≠ [arg "ASKING"]) (slot : Nat) (read : Bool)
    (hP : Stable (Others (Leaves cfg key dst delSrc)) P)
    (hQ : ∀ v, Stable (Others (Leaves cfg key dst delSrc)) (Q v))
    (hrefuse : ∀ (keys : Keys Val) h, P ⟨keys, h⟩ → P ⟨keys, .refused f.argv :: h⟩)
    (hspares : ∀ st, P st → Spares C key dst f.argv st.keys st.history)
    (hdone : ∀ st, P st → Q (serve C f.argv st.keys).1
      ⟨(serve C f.argv st.keys).2, .own f.argv true st.keys :: st.history⟩) :
    Triple (Others (Leaves cfg key dst delSrc)) (Acts C (tellsExists cfg key dst delSrc))
      (fun st => Harmless C key dst st.history ∧ P st) (exec cfg slot f read)
      (Afterwards (Renames cfg key dst delSrc → nameOf f.argv ≠ "EXISTS") (Harmless C key dst)
        Q) := by
  have hharmless : Stable (Others (Leaves cfg key dst delSrc)) fun st : State Val =>
      Harmless C key dst st.history := stable_others fun st k x _ h => h
  refine exec_rule hcfg
    (fun st st' hrely hst => ⟨hharmless st st' hrely hst.1, hP st st' hrely hst.2⟩)
    (fun x st st' hrely hst => ?_) ⟨?_, ?_, ?_, ?_, ?_⟩ slot read
  · cases x with
    | error e => exact hharmless st st' hrely hst
    | ok v => exact ⟨hharmless st st' hrely hst.1, hst.2.imp_right (hQ v st st' hrely)⟩
  · rintro st ⟨hh, hst⟩ -
    rw [State.run_of_ne hf]
    exact ⟨⟨hh, hspares st hst⟩, .inr (hdone st hst)⟩
  · rintro st v ⟨hh, hst⟩ hallowed hv
    rw [State.refuse_of_ne hf]
    exact ⟨hh, .inl ⟨hallowed, hv⟩⟩
  · rintro st v ⟨hh, hst⟩ - -
    rw [State.refuse_of_ne hf]
    exact ⟨hh, hrefuse st.keys st.history hst⟩
  · rintro st e ⟨hh, hst⟩ -
    exact hh
  · rintro st e ⟨hh, hst⟩ - -
    rw [State.run_of_ne hf]
    exact ⟨hh, hspares st hst⟩

/-- `EXISTS` has found the destination free, and it still is. -/
def Checked (dst : Bytes) (st : State Val) : Prop :=
  latest st.history = "EXISTS" ∧ st.keys dst = none

/-- `DUMP` has read the source, and it is still the same. -/
def Copied (key : Bytes) (st : State Val) : Prop :=
  (latest st.history = "DUMP" ∨ latest st.history = "RESTORE") ∧ ¬ Fresh key st.history

theorem checked_stable : Stable (Others (Leaves cfg key dst delSrc)) fun st : State Val =>
    Renames cfg key dst delSrc → Checked dst st := by
  refine stable_others fun st k x hleaves hst hr => ⟨(hst hr).1, ?_⟩
  have hk := hleaves.renames hr (hst hr).1
  exact (Function.update_of_ne hk.symm x st.keys).trans (hst hr).2

theorem copied_stable : Stable (Others (Leaves cfg key dst delSrc)) fun st : State Val =>
    Deletes cfg key dst delSrc → Copied key st := by
  refine stable_others fun st k x hleaves hst hd => ⟨(hst hd).1, ?_⟩
  have hk := hleaves.deletes hd (hst hd).1
  rintro (h | h)
  · exact hk h
  · exact (hst hd).2 h

variable {src : Origin}

theorem rename_spares (hfree : before dst = none) :
    Spares C key dst [arg "RENAME", .mk key, .mk dst] before h :=
  ⟨fun d hd => absurd (hfree.symm.trans hd) (by simp), fun _ _ => .inl rfl⟩

theorem copy_spares :
    Spares C key dst [arg "COPY", .mk key, .mk dst] before h := by
  have hserve : serve C [arg "COPY", .mk key, .mk dst] before = _ := serve_copy false
  split at hserve
  · exact .reads (by rw [hserve])
  · rename_i hdo
    obtain ⟨hsome, hfree⟩ := not_or.1 hdo
    obtain ⟨e, he⟩ := Option.ne_none_iff_exists'.1 hsome
    exact .sets (by simpa using hfree) (by rw [hserve, he])

/-- Whatever is restored. -/
theorem restore_spares (payload : Bytes) :
    Spares C key dst [arg "RESTORE", .mk dst, arg "0", .mk payload] before h := by
  have hserve : serve C [arg "RESTORE", .mk dst, arg "0", .mk payload] before =
      restoreOn C before [dst, lit "0", payload] :=
    (serve_command C (by decide) [dst, lit "0", payload] before).trans (by simp [commandOn])
  cases hrestore : C.restore payload with
  | none => exact .reads (by rw [hserve, restoreOn, hrestore])
  | some v =>
    cases hdst : before dst with
    | some d => exact .reads (by simp [hserve, restoreOn, hrestore, hdst])
    | none =>
      refine .sets (e := { value := v, expiry := ttlOf (lit "0") }) hdst ?_
      simp [hserve, restoreOn, hrestore, hdst]

theorem del_spares (hne : key ≠ dst)
    (hread : ¬ Fresh key h) : Spares C key dst [arg "DEL", .mk key] before h := by
  refine ⟨fun d hd => ?_, fun _ _ => .inr hread⟩
  rw [serve_del]
  exact (Function.update_of_ne hne.symm none before).trans hd

theorem transferLocal_harmless (hcfg : cfg.Valid)
    (hslot : slotOf cfg (.mk key) = slotOf cfg (.mk dst)) :
    Triple (Others (Leaves cfg key dst delSrc)) (Acts C (tellsExists cfg key dst delSrc))
      (fun st => Harmless C key dst st.history ∧ (Renames cfg key dst delSrc → Checked dst st))
      (transferLocal cfg src (.mk key) (.mk dst) delSrc false)
      fun _ st => Harmless C key dst st.history := by
  refine Triple.bind (exec_spares (Q := fun _ _ => True) hcfg _ ?_ _ _ checked_stable
    (fun _ _ _ _ _ => trivial) (fun _ _ h => h) ?_ fun _ _ => trivial) fun x => ?_
  · cases delSrc <;> simp
  · intro st hst
    cases delSrc with
    | true => exact rename_spares (hst ⟨rfl, hslot⟩).2
    | false => exact copy_spares
  · cases x with
    | error e => exact triple_ret fun st hst => hst
    | ok v =>
      refine Triple.mono (P := fun st => Harmless C key dst st.history) ?_ (fun _ hst => hst.1)
        fun _ _ hst => hst
      dsimp only
      split
      · exact triple_ret fun st hst => hst
      split
      · exact triple_ret fun st hst => hst
      split
      · exact triple_ret fun st hst => hst
      · exact triple_ret fun st hst => hst

theorem transferDump_harmless (hcfg : cfg.Valid)
    (hslot : slotOf cfg (.mk key) ≠ slotOf cfg (.mk dst)) :
    Triple (Others (Leaves cfg key dst delSrc)) (Acts C (tellsExists cfg key dst delSrc))
      (fun st => Harmless C key dst st.history)
      (transferDump cfg src (.mk key) (.mk dst) delSrc false)
      fun _ st => Harmless C key dst st.history := by
  have hne : key ≠ dst := fun h => hslot (by rw [h])
  have hdump : upperName (lit "DUMP") = "DUMP" := by decide
  have hrestore : upperName (lit "RESTORE") = "RESTORE" := by decide
  refine Triple.bind (R := Afterwards _ _ fun _ st => Deletes cfg key dst delSrc → Copied key st)
    ((exec_spares (P := fun _ => True) hcfg { argv := [arg "DUMP", .mk key], src } (by simp) _ _
      (fun _ _ _ _ => trivial) (fun _ => copied_stable) (fun _ _ _ => trivial)
      (fun st _ => .reads (by rw [serve_dump])) ?_).mono (fun _ h => ⟨h, trivial⟩) fun _ _ h => h)
    fun x => ?_
  · exact fun st _ _ => ⟨.inl hdump, fun h => h.1 rfl⟩
  cases x with
  | error e => exact triple_ret fun st hst => hst
  | ok v =>
    dsimp only
    split
    · exact triple_ret fun st hst => hst.1
    rename_i hv
    split
    · exact triple_ret fun st hst => hst.1
    rename_i hpayload
    -- a reply that is no payload has ended the transfer; the destination is written from here on
    obtain ⟨payload, hstr⟩ : ∃ payload, v.str = .mk payload := by
      cases hstr : v.str with
      | nil => exact absurd (.inr (by rw [hstr]; rfl)) hpayload
      | mk payload => exact ⟨payload, rfl⟩
    rw [hstr]
    refine Triple.bind (R := Afterwards _ _ fun _ st => Deletes cfg key dst delSrc → Copied key st)
      ((exec_spares hcfg { argv := [arg "RESTORE", .mk dst, arg "0", .mk payload], src } (by simp) _
        _ copied_stable (fun _ => copied_stable) (fun _ _ h => h)
        (fun st _ => restore_spares payload) ?_).mono
          (fun _ h => ⟨h.1, h.2.resolve_left fun h => hv h.2⟩) fun _ _ h => h) fun y => ?_
    · exact fun st hst hd => ⟨.inr hrestore, fun h => (hst hd).2 h.2⟩
    cases y with
    | error e => exact triple_ret fun st hst => hst
    | ok w =>
      dsimp only
      split
      · exact triple_ret fun st hst => hst.1
      rename_i hw
      split
      · -- the source goes last, and only where `RESTORE` was not refused
        refine Triple.bind ((exec_spares (Q := fun _ _ => True) hcfg
          { argv := [arg "DEL", .mk key], src } (by simp) _ _ copied_stable
          (fun _ _ _ _ _ => trivial) (fun _ _ h => h) (fun st hst => del_spares hne (hst ⟨‹_›, hslot⟩).2)
          fun _ _ => trivial).mono
            (fun _ h => ⟨h.1, h.2.resolve_left fun h => hw h.2⟩) fun _ _ h => h) fun z => ?_
        refine triple_ret fun st hst => ?_
        cases z with
        | error e => exact hst
        | ok u => exact hst.1
      · exact triple_ret fun st hst => hst.1

/-- With the reply `v` of `EXISTS` the transfer ends, or the destination is checked. -/
def Looked (cfg : Config) (key dst : Bytes) (delSrc : Bool) (v : Value) (st : State Val) : Prop :=
  ¬ (!v.isError ∧ v.type = .integer ∧ v.int > 0) → Renames cfg key dst delSrc → Checked dst st

theorem transferKey_spares (hcfg : cfg.Valid) :
    Triple (Others (Leaves cfg key dst delSrc)) (Acts C (tellsExists cfg key dst delSrc))
      (fun st => Harmless C key dst st.history)
      (transferKey cfg src (.mk key) (.mk dst) delSrc false)
      fun _ st => Harmless C key dst st.history := by
  have hexists : upperName (lit "EXISTS") = "EXISTS" := by decide
  refine Triple.bind
    ((exec_spares (P := fun _ => True) (Q := Looked cfg key dst delSrc) hcfg
      { argv := [arg "EXISTS", .mk dst], src } (by simp) _ _
      (fun _ _ _ _ => trivial) (fun _ st st' hrely h hv => checked_stable st st' hrely (h hv))
      (fun _ _ _ => trivial) (fun st _ => .reads (by rw [serve_exists])) ?_).mono
        (fun _ h => ⟨h, trivial⟩) fun _ _ h => h) fun x => ?_
  · intro st _ hfree _
    rw [serve_exists] at hfree ⊢
    cases hdst : st.keys dst with
    | some d => exact absurd ⟨rfl, rfl, by simp [integer, hdst]⟩ hfree
    | none => exact ⟨hexists, hdst⟩
  cases x with
  | error e => exact triple_ret fun st hst => hst
  | ok v =>
    dsimp only
    split
    · exact triple_ret fun st hst => hst.1
    rename_i hfree
    split
    · refine (transferLocal_harmless hcfg ‹_›).mono ?_ fun _ _ h => h
      rintro st ⟨hh, ⟨hrefused, -⟩ | hst⟩
      · exact ⟨hh, fun hr => absurd hexists (hrefused hr)⟩
      · exact ⟨hh, hst hfree⟩
    · exact (transferDump_harmless hcfg ‹_›).mono (fun st hst => hst.1) fun _ _ h => h

/-- **A transfer among other clients.** It destroys nothing that others wrote, if in a move
`EXISTS` is answered and they leave the destination alone between `EXISTS` and `RENAME`, and
the source between `DUMP` and `DEL`. A `COPY` needs nothing. -/
theorem transferKey_harmless {st st' : State Val} {tr : Trace} {x : Except Err Int}
    (hcfg : cfg.Valid) (hstart : st.history = [])
    (hrun : (transferKey cfg src (.mk key) (.mk dst) delSrc false).Runs tr x)
    (hpath : Path (Others (Leaves cfg key dst delSrc)) (Acts C (tellsExists cfg key dst delSrc)) st
      tr st') : Harmless C key dst st'.history := by
  have hharmless : Harmless C key dst st.history := by
    rw [hstart]
    trivial
  exact transferKey_spares hcfg st tr x st' hharmless hrun hpath

end

/-- Ahead of the command behind `EXISTS`, another client writes a key. -/
def writesAfterExists (k : Bytes) (e : Entry Bytes) (st : State Bytes) : State Bytes :=
  if latest st.history = "EXISTS" then st.write k (some e) else st

theorem writesAfterExists_others {allowed : State Bytes → Bytes → Prop} {k : Bytes}
    {e : Entry Bytes} (hk : ∀ st, allowed st k) (st : State Bytes) :
    Others allowed st (writesAfterExists k e st) := by
  unfold writesAfterExists
  split
  · exact .single ⟨k, some e, hk st, rfl⟩
  · exact .refl

theorem written_run {α : Type} (allowed : State Bytes → Bytes → Prop) (F : Faults Bytes) (k : Bytes)
    (e : Entry Bytes) (hk : ∀ st, allowed st k) (hF : ∀ st, F.answer st) (p : Prog α)
    (st : State Bytes) :
    p.Runs (p.exec (backends stringCodec (writesAfterExists k e) fun _ => false) st).1.2
        (p.exec (backends stringCodec (writesAfterExists k e) fun _ => false) st).1.1 ∧
      Path (Others allowed) (Acts stringCodec F) st
        (p.exec (backends stringCodec (writesAfterExists k e) fun _ => false) st).1.2
        (p.exec (backends stringCodec (writesAfterExists k e) fun _ => false) st).2 :=
  ⟨Prog.exec_runs _ p st, backends_path (fun _ => .refl) (writesAfterExists_others hk)
    (fun _ _ => hF _) (fun _ _ h => absurd h Bool.false_ne_true) p st⟩

/-- Someone else's key is written in between. -/
theorem transferKey_harmless_beside :
    ∃ tr x st', (move "a").Runs tr x ∧
      Path (Others (Leaves seeded (lit "a") (lit "db1:a") true))
        (Acts stringCodec (tellsExists seeded (lit "a") (lit "db1:a") true))
        (holding [(lit "a", { value := [1] })]) tr st' ∧
      Harmless stringCodec (lit "a") (lit "db1:a") st'.history := by
  obtain ⟨hrun, hpath⟩ := written_run (Leaves seeded (lit "a") (lit "db1:a") true)
    (tellsExists seeded (lit "a") (lit "db1:a") true) (lit "b") { value := [2] }
    (fun _ => ⟨fun _ _ => by decide, fun _ _ => by decide⟩) (fun _ => trivial) (move "a")
    (holding [(lit "a", { value := [1] })])
  exact ⟨_, _, _, hrun, hpath, transferKey_harmless seeded_valid rfl hrun hpath⟩

/-- Another client writes the destination behind `EXISTS`, and `RENAME` overwrites it. -/
theorem rename_overwrites :
    ∃ tr st', (move "\x7ba\x7d").Runs tr (.ok 1) ∧
      Path (Others fun _ _ => True) (Acts stringCodec faultless)
        (holding [(lit "\x7ba\x7d", { value := [1] })]) tr st' ∧
      ¬ Harmless stringCodec (lit "\x7ba\x7d") (lit "db1:\x7ba\x7d") st'.history := by
  obtain ⟨hrun, hpath⟩ := written_run (fun _ _ => True) faultless (lit "db1:\x7ba\x7d")
    { value := [2] } (fun _ => trivial) (fun _ => trivial)
    (move "\x7ba\x7d") (holding [(lit "\x7ba\x7d", { value := [1] })])
  refine ⟨_, _, hrun, hpath, fun h => ?_⟩
  have htaken := h.2.taken { value := [2] } (by decide +kernel)
  revert htaken
  decide +kernel

end RespProxy.Proxy
