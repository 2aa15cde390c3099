import RespProxy.Resp.Cut
import RespProxy.Proxy.Session

/-! # From bytes to batches (`run` and `drainBatch`)

`run` blocks for a first command under its idle deadline; `drainBatch` then adds
what is there already, or arrives within the coalescing deadline.

* `readBatches`: the batches handed on, each with the number of bytes read by then;
* `Decodes`: the commands of the longest prefix of some bytes that is made of
  complete command frames, in terms of the grammar alone;
* `Faithful`: what is handed on is what the bytes say, and no byte is lost;
* `Coalesces`: the streams on which no deadline, end or bad frame meets a
  command that is being added to a batch.
-/

namespace RespProxy.Proxy

open Resp

variable {bs : Bytes} {max n : Nat} {src : Source} {s : Stream} {t : Tree}
variable {go : Source → Reading} {cs : List ClientCmd} {pos pos' : Nat} {bs' : Bytes}

variable {batch : List ClientCmd} {r : Reading} {t' : Tree} {k : Nat}

/-! ## The reading side of a session -/

/-- `maxPipeline`. -/
def maxPipeline (cfg : Config) : Nat := if cfg.maxPipeline < 1 then 128 else cfg.maxPipeline

/-- The client's connection: what is still to arrive, and how many bytes were read. -/
structure Source where
  stream : Stream
  pos : Nat := 0
deriving DecidableEq, Repr

/-- The connection once only `s` is still to arrive. -/
def Source.advance (src : Source) (s : Stream) : Source :=
  { stream := s, pos := src.pos + ((bytesOf src.stream).length - (bytesOf s).length) }

/-- `ReadValue`, then `ArrayToArgv`. A command is known by the position of its
first byte. -/
def Source.next (src : Source) : Except ReadErr ClientCmd × Source :=
  match readValue src.stream with
  | .error e s => (.error e, src.advance s)
  | .ok v s =>
    match arrayToArgv v with
    | none => (.error .protocol, src.advance s)
    | some argv => (.ok { id := { session := 0, seq := src.pos }, argv, raw := v.raw }, src.advance s)

/-- `drainBatch` with room for so many more commands. -/
def drainBatch : Nat → List ClientCmd → Source → Option (List ClientCmd) × Source
  | 0, batch, src => (some batch, src)
  | room + 1, batch, src =>
    match src.stream with
    -- `Peek` finds the connection closed, or the coalescing deadline passes
    | [] => (some batch, src)
    | .expire :: s => (some batch, { src with stream := s })
    | .byte _ :: _ =>
      match src.next with
      | (.ok c, src') => drainBatch room (batch ++ [c]) src'
      | (.error e, src') => if e = .timeout then (some batch, src') else (none, src')

/-- Why `run` returned: on a read error or a frame that is no command, because its
idle deadline passed, or because of `handleBatch` (an error, or `quit`). -/
inductive Ending where
  | closed | idle | handler
deriving DecidableEq, Repr

/-- What `run` read: the batches it handed on, with the bytes read by then. -/
structure Reading where
  handed : List (List ClientCmd × Nat)
  ending : Ending
  src : Source
deriving DecidableEq, Repr

def Reading.commands (r : Reading) : List ClientCmd := (r.handed.map Prod.fst).flatten

/-- `run` once `drainBatch` has returned: on an error the session closes, and the
commands already in the batch with it; otherwise the batch is handed on. -/
def handOn (go : Source → Reading) : Option (List ClientCmd) × Source → Reading
  | (none, src) => { handed := [], ending := .closed, src }
  | (some batch, src) => { go src with handed := (batch, src.pos) :: (go src).handed }

/-- The loop of `run` up to the `n`-th batch, where `handleBatch` ends the session. -/
def readBatches (max : Nat) : Nat → Source → Reading
  | 0, src => { handed := [], ending := .handler, src }
  | n + 1, src =>
    match src.next with
    | (.error e, src') =>
      { handed := [], ending := if e = .timeout then .idle else .closed, src := src' }
    | (.ok c, src') => handOn (readBatches max n) (drainBatch (max - 1) [c] src')

/-! ## What the bytes say -/

/-- A complete frame that is a command. -/
def IsCommand (t : Tree) : Prop := t.Wf ∧ (arrayToArgv t.value).isSome

/-- The command of a frame that starts at `pos`. -/
def commandAt (pos : Nat) (t : Tree) : ClientCmd :=
  { id := { session := 0, seq := pos }, argv := (arrayToArgv t.value).getD [], raw := t.bytes }

/-- The commands of the longest prefix of `bs` that is made of complete command
frames, when `bs` starts at `pos`. -/
inductive Decodes : Nat → Bytes → List ClientCmd → Prop where
  | stop {pos : Nat} {bs : Bytes} (h : ∀ t, IsCommand t → ¬ t.bytes <+: bs) : Decodes pos bs []
  | frame {pos : Nat} {bs : Bytes} {cs : List ClientCmd} {t : Tree} (ht : IsCommand t)
      (h : Decodes (pos + t.bytes.length) bs cs) :
      Decodes pos (t.bytes ++ bs) (commandAt pos t :: cs)

/-- The first `n` bytes of `bs` are complete command frames. -/
inductive Boundary : Bytes → Nat → Prop where
  | start {bs : Bytes} : Boundary bs 0
  | frame {bs : Bytes} {n : Nat} {t : Tree} (ht : IsCommand t) (h : Boundary bs n) :
      Boundary (t.bytes ++ bs) (t.bytes.length + n)

/-- The bytes a session that started at `src` is answerable for: those it read, if
it was ended by its idle deadline or by its handler, and otherwise all. -/
def heard (src : Source) (r : Reading) : Bytes :=
  if r.ending = .closed then bytesOf src.stream
  else (bytesOf src.stream).take (r.src.pos - src.pos)

/-- From `src` on, with `batch` already waiting: exactly the commands the bytes
hold are handed on, and whenever a batch is handed on, the bytes read so far are
complete frames. -/
structure FaithfulFrom (batch : List ClientCmd) (src : Source) (r : Reading) : Prop where
  commands : ∃ cs, Decodes src.pos (heard src r) cs ∧ r.commands = batch ++ cs
  aligned : ∀ h ∈ r.handed, ∃ n, h.2 = src.pos + n ∧ Boundary (bytesOf src.stream) n

/-- The commands handed on are those of the longest prefix of the client's bytes
made of complete command frames, each read from its first byte on, and no byte is
dropped in between. -/
def Faithful (s : Stream) (r : Reading) : Prop := FaithfulFrom [] { stream := s } r

/-- With `k` commands waiting in a batch and `n` batches to go, each further
command arrives in one piece: a deadline passes between two frames only, and an
unfinished or bad frame comes only where no command is waiting. -/
inductive Coalesces (max : Nat) : Nat → Nat → Stream → Prop where
  | handler {s : Stream} : Coalesces max 0 0 s
  | frame {n k : Nat} {t : Tree} {s : Stream} (ht : IsCommand t) (hk : k < max)
      (h : Coalesces max (n + 1) (k + 1) s) :
      Coalesces max (n + 1) k (t.bytes.map Arrival.byte ++ s)
  | full {n : Nat} {s : Stream} (h : Coalesces max n 0 s) : Coalesces max (n + 1) max s
  | pause {n k : Nat} {s : Stream} (hk : 0 < k) (hmax : k < max) (h : Coalesces max n 0 s) :
      Coalesces max (n + 1) k (.expire :: s)
  | ended {n k : Nat} (hk : 0 < k) (hmax : k < max) : Coalesces max (n + 1) k []
  | rest {n : Nat} {s : Stream} (h : ∀ t, IsCommand t → ¬ t.bytes.map Arrival.byte <+: s) :
      Coalesces max (n + 1) 0 s

/-! ## Frames -/

theorem bytes_ne_nil (ht : t.Wf) : t.bytes ≠ [] := by
  cases ht <;> simp [Tree.bytes, header]

theorem arrayToArgv_raw (v : Value) (raw : Bytes) :
    arrayToArgv { v with raw } = arrayToArgv v := rfl

/-- The frame at the start of a stream is determined by the stream. -/
theorem frame_unique {s' : Stream} (ht : t.Wf) (ht' : t'.Wf)
    (h : t.bytes.map Arrival.byte ++ s = t'.bytes.map Arrival.byte ++ s') :
    s = s' ∧ t.bytes = t'.bytes ∧ arrayToArgv t.value = arrayToArgv t'.value := by
  have hr := readValue_bytes ht s
  rw [h, readValue_bytes ht' s', EStateM.Result.ok.injEq] at hr
  refine ⟨hr.2.symm, ?_, ?_⟩
  · exact (congrArg Value.raw hr.1).symm
  · rw [← arrayToArgv_raw t.value t.bytes, ← hr.1, arrayToArgv_raw]

theorem frame_unique_bytes (ht : t.Wf) (ht' : t'.Wf) (h : t.bytes ++ bs = t'.bytes ++ bs') :
    bs = bs' ∧ t.bytes = t'.bytes ∧ arrayToArgv t.value = arrayToArgv t'.value := by
  have hs : t.bytes.map Arrival.byte ++ bs.map Arrival.byte =
      t'.bytes.map Arrival.byte ++ bs'.map Arrival.byte := by
    rw [← List.map_append, ← List.map_append, h]
  obtain ⟨hs, hb, ha⟩ := frame_unique ht ht' hs
  refine ⟨?_, hb, ha⟩
  have := congrArg bytesOf hs
  rwa [bytesOf_map, bytesOf_map] at this

theorem commandAt_congr (pos : Nat) (hb : t.bytes = t'.bytes)
    (ha : arrayToArgv t.value = arrayToArgv t'.value) : commandAt pos t = commandAt pos t' := by
  simp only [commandAt, hb, ha]

theorem Source.next_frame (ht : IsCommand t) (hs : src.stream = t.bytes.map Arrival.byte ++ s) :
    src.next = (.ok (commandAt src.pos t), { stream := s, pos := src.pos + t.bytes.length }) := by
  obtain ⟨argv, ha⟩ := Option.isSome_iff_exists.1 ht.2
  rw [Source.next, hs, readValue_bytes ht.1]
  simp only [arrayToArgv_raw, ha, commandAt, Source.advance, Option.getD_some]
  rw [hs]
  simp

/-- **What the next read can do**: take a command frame, fail in front of no
command frame, or be stopped by the deadline inside one. -/
theorem Source.next_cases (src : Source) :
    (∃ t s, IsCommand t ∧ src.stream = t.bytes.map Arrival.byte ++ s ∧
      src.next = (.ok (commandAt src.pos t), { stream := s, pos := src.pos + t.bytes.length })) ∨
    (∃ e src', e ≠ .timeout ∧ src.next = (.error e, src') ∧ src.pos ≤ src'.pos ∧
      ∀ t, IsCommand t → ¬ t.bytes <+: bytesOf src.stream) ∨
    ∃ bs s, src.stream = bs.map Arrival.byte ++ .expire :: s ∧
      src.next = (.error .timeout, { stream := s, pos := src.pos + bs.length }) ∧
      ∀ t, IsCommand t → ¬ t.bytes <+: bs := by
  cases hr : readValue src.stream with
  | error e s =>
    have hn : src.next = (.error e, src.advance s) := by rw [Source.next, hr]
    rcases readValue_error hr with ⟨he, hno⟩ | ⟨rfl, bs, hs, hno⟩
    · exact .inr (.inl ⟨e, _, he, hn, Nat.le_add_right _ _, fun t ht => hno t ht.1⟩)
    · refine .inr (.inr ⟨bs, s, hs, ?_, fun t ht => hno t ht.1⟩)
      rw [hn, Source.advance, hs]
      simp
  | ok v s =>
    obtain ⟨t, ht, rfl, hs⟩ := readValue_ok hr
    cases ha : arrayToArgv t.value with
    | none =>
      refine .inr (.inl ⟨.protocol, src.advance s, by decide, ?_, Nat.le_add_right _ _, ?_⟩)
      · rw [Source.next, hr]
        simp only [arrayToArgv_raw, ha]
      · rintro t' ⟨ht', ha'⟩ ⟨tail, hb⟩
        rw [hs, bytesOf_map_append] at hb
        obtain ⟨-, -, heq⟩ := frame_unique_bytes ht' ht hb
        rw [heq, ha] at ha'
        cases ha'
    | some argv =>
      have hc : IsCommand t := ⟨ht, by rw [ha]; rfl⟩
      exact .inl ⟨t, s, hc, hs, Source.next_frame hc hs⟩

/-! ## Decoding behind a frame -/

theorem decodes_frame {pos : Nat} (ht : IsCommand t) :
    Decodes pos (t.bytes ++ bs) cs ↔
      ∃ cs', cs = commandAt pos t :: cs' ∧ Decodes (pos + t.bytes.length) bs cs' := by
  constructor
  · intro h
    generalize hb : t.bytes ++ bs = bs₀ at h
    cases h with
    | stop h => exact absurd ⟨bs, hb⟩ (h t ht)
    | @frame _ bs' cs' t' ht' h =>
      obtain ⟨rfl, hbytes, ha⟩ := frame_unique_bytes ht.1 ht'.1 hb
      refine ⟨cs', ?_, ?_⟩
      · rw [commandAt_congr pos hbytes ha]
      · rwa [hbytes]
  · rintro ⟨cs', rfl, h⟩
    exact .frame ht h

theorem boundary_frame (ht : IsCommand t) :
    Boundary (t.bytes ++ bs) (t.bytes.length + n) ↔ Boundary bs n := by
  refine ⟨fun h => ?_, .frame ht⟩
  generalize hb : t.bytes ++ bs = bs₀ at h
  generalize hm : t.bytes.length + n = m at h
  cases h with
  | start =>
    have := List.length_pos_iff.2 (bytes_ne_nil ht.1)
    omega
  | @frame bs' n' t' ht' h =>
    obtain ⟨rfl, hbytes, -⟩ := frame_unique_bytes ht.1 ht'.1 hb
    rw [hbytes] at hm
    rwa [Nat.add_left_cancel hm]

/-- A boundary inside some bytes that hold no complete command is their start. -/
theorem Boundary.eq_zero {tail : Bytes} (h : Boundary (bs ++ tail) n)
    (hn : n ≤ bs.length) (hno : ∀ t, IsCommand t → ¬ t.bytes <+: bs) : n = 0 := by
  generalize hb : bs ++ tail = bs₀ at h
  cases h with
  | start => rfl
  | @frame bs' n' t ht h =>
    refine absurd ?_ (hno t ht)
    have hp : t.bytes <+: bs ++ tail := ⟨bs', hb.symm⟩
    exact List.prefix_of_prefix_length_le hp (List.prefix_append bs tail) (by omega)

/-! ## Positions only grow -/

/-- Everything `r` reports lies at or behind `pos`. -/
def Reading.Past (pos : Nat) (r : Reading) : Prop :=
  pos ≤ r.src.pos ∧ ∀ h ∈ r.handed, pos ≤ h.2

theorem Reading.Past.mono (h : r.Past pos) (hle : pos' ≤ pos) :
    r.Past pos' :=
  ⟨Nat.le_trans hle h.1, fun b hb => Nat.le_trans hle (h.2 b hb)⟩

theorem drainBatch_pos (room : Nat) (batch : List ClientCmd) (src : Source) :
    src.pos ≤ (drainBatch room batch src).2.pos := by
  induction room generalizing batch src with
  | zero => exact Nat.le_refl _
  | succ room ih =>
    rw [drainBatch]
    split
    · exact Nat.le_refl _
    · exact Nat.le_refl _
    · rcases src.next_cases with
        ⟨t, s, -, -, hn⟩ | ⟨e, src', he, hn, hpos, -⟩ | ⟨bs, s, -, hn, -⟩
      · have := ih (batch ++ [commandAt src.pos t]) { stream := s, pos := src.pos + t.bytes.length }
        simp only [hn]
        exact Nat.le_trans (Nat.le_add_right _ _) this
      · simpa only [hn, if_neg he] using hpos
      · simp only [hn, if_pos]
        exact Nat.le_add_right _ _

theorem handOn_past (hgo : ∀ src, (go src).Past src.pos)
    (d : Option (List ClientCmd) × Source) : (handOn go d).Past d.2.pos := by
  obtain ⟨_ | batch, src⟩ := d
  · exact ⟨Nat.le_refl _, by simp [handOn]⟩
  · refine ⟨(hgo src).1, ?_⟩
    simp only [handOn, List.mem_cons, forall_eq_or_imp]
    exact ⟨Nat.le_refl _, (hgo src).2⟩

theorem readBatches_past (max n : Nat) (src : Source) : (readBatches max n src).Past src.pos := by
  induction n generalizing src with
  | zero => exact ⟨Nat.le_refl _, by simp [readBatches]⟩
  | succ n ih =>
    rw [readBatches]
    rcases src.next_cases with
      ⟨t, s, -, -, hn⟩ | ⟨e, src', he, hn, hpos, -⟩ | ⟨bs, s, -, hn, -⟩
    · simp only [hn]
      refine (handOn_past ih _).mono (Nat.le_trans ?_ (drainBatch_pos _ _ _))
      exact Nat.le_add_right _ _
    · rw [hn]
      exact ⟨hpos, by simp⟩
    · rw [hn]
      exact ⟨Nat.le_add_right _ _, by simp⟩

/-! ## One step of a faithful reading -/

theorem heard_frame (hs : src.stream = t.bytes.map Arrival.byte ++ s)
    (hr : r.Past (src.pos + t.bytes.length)) :
    heard src r = t.bytes ++ heard { stream := s, pos := src.pos + t.bytes.length } r := by
  unfold heard
  rw [hs, bytesOf_map_append]
  split
  · rfl
  · have h : r.src.pos - src.pos =
        t.bytes.length + (r.src.pos - (src.pos + t.bytes.length)) := by
      have := hr.1
      omega
    rw [h, List.take_length_add_append]

/-- A command frame moves from the stream to the batch. -/
theorem faithfulFrom_frame (ht : IsCommand t) (hs : src.stream = t.bytes.map Arrival.byte ++ s)
    (hr : r.Past (src.pos + t.bytes.length)) :
    FaithfulFrom batch src r ↔ FaithfulFrom (batch ++ [commandAt src.pos t])
      { stream := s, pos := src.pos + t.bytes.length } r := by
  constructor
  · rintro ⟨⟨cs, hd, hc⟩, hal⟩
    rw [heard_frame hs hr, decodes_frame ht] at hd
    obtain ⟨cs', rfl, hd⟩ := hd
    refine ⟨⟨cs', hd, by rw [hc, List.append_assoc, List.singleton_append]⟩, fun h hh => ?_⟩
    obtain ⟨n, hn, hb⟩ := hal h hh
    have hge := hr.2 h hh
    rw [hs, bytesOf_map_append] at hb
    obtain ⟨m, rfl⟩ : ∃ m, n = t.bytes.length + m := ⟨n - t.bytes.length, by omega⟩
    exact ⟨m, by rw [hn, Nat.add_assoc], (boundary_frame ht).1 hb⟩
  · rintro ⟨⟨cs, hd, hc⟩, hal⟩
    refine ⟨⟨commandAt src.pos t :: cs, ?_, ?_⟩, fun h hh => ?_⟩
    · rw [heard_frame hs hr]
      exact .frame ht hd
    · rw [hc, List.append_assoc, List.singleton_append]
    · obtain ⟨n, hn, hb⟩ := hal h hh
      refine ⟨t.bytes.length + n, by rw [hn, Nat.add_assoc], ?_⟩
      rw [hs, bytesOf_map_append]
      exact .frame ht hb

/-- Handing a batch on at a frame boundary; deadlines are no bytes. -/
theorem faithfulFrom_handOn {src' : Source}
    (hpos : src'.pos = src.pos) (hb : bytesOf src'.stream = bytesOf src.stream) :
    FaithfulFrom batch src (handOn go (some batch, src')) ↔ FaithfulFrom [] src' (go src') := by
  have hheard : heard src (handOn go (some batch, src')) = heard src' (go src') := by
    simp only [heard, handOn, hpos, hb]
  have hcmds : (handOn go (some batch, src')).commands = batch ++ (go src').commands := rfl
  constructor
  · rintro ⟨⟨cs, hd, hc⟩, hal⟩
    rw [hheard, ← hpos] at hd
    rw [hcmds] at hc
    refine ⟨⟨cs, hd, by simpa using hc⟩, fun h hh => ?_⟩
    rw [hpos, hb]
    exact hal h (List.mem_cons_of_mem _ hh)
  · rintro ⟨⟨cs, hd, hc⟩, hal⟩
    rw [← hheard, hpos] at hd
    refine ⟨⟨cs, hd, by rw [hcmds, hc, List.nil_append]⟩, fun h hh => ?_⟩
    rcases List.mem_cons.1 hh with rfl | hh
    · exact ⟨0, hpos, .start⟩
    · rw [← hpos, ← hb]
      exact hal h hh

/-- A reading that hands nothing on is faithful when no command frame was heard. -/
theorem faithfulFrom_nil (hr : r.handed = [])
    (h : ∀ t, IsCommand t → ¬ t.bytes <+: heard src r) : FaithfulFrom [] src r := by
  refine ⟨⟨[], .stop h, by rw [Reading.commands, hr]; rfl⟩, fun b hb => ?_⟩
  rw [hr] at hb
  cases hb

/-! ## Exactly the coalescing streams are read faithfully -/

theorem not_isPrefix_of_bytes (h : ¬ t.bytes <+: bytesOf s) : ¬ t.bytes.map Arrival.byte <+: s := by
  rintro ⟨tail, rfl⟩
  exact h ⟨bytesOf tail, (bytesOf_map_append _ _).symm⟩

theorem coalesces_full (hmax : 0 < max) :
    Coalesces max (n + 1) max s ↔ Coalesces max n 0 s := by
  refine ⟨fun h => ?_, .full⟩
  generalize hm : n + 1 = m at h
  generalize hk : max = k at h
  cases h with
  | full h => cases hm; exact h
  | handler | frame | pause | ended | rest => omega

theorem coalesces_pause (hk : 0 < k) (hmax : k < max) :
    Coalesces max (n + 1) k (.expire :: s) ↔ Coalesces max n 0 s := by
  refine ⟨fun h => ?_, .pause hk hmax⟩
  generalize hs : Arrival.expire :: s = s₀ at h
  cases h with
  | @frame _ _ t s' ht _ h =>
    obtain ⟨b, bs, hb⟩ := List.exists_cons_of_ne_nil (bytes_ne_nil ht.1)
    rw [hb] at hs
    cases hs
  | full | rest => omega
  | pause _ _ h => cases hs; exact h
  | ended => cases hs

theorem coalesces_frame (ht : IsCommand t) (hmax : k < max) :
    Coalesces max (n + 1) k (t.bytes.map Arrival.byte ++ s) ↔ Coalesces max (n + 1) (k + 1) s := by
  refine ⟨fun h => ?_, .frame ht hmax⟩
  obtain ⟨b, bs, hb⟩ := List.exists_cons_of_ne_nil (bytes_ne_nil ht.1)
  generalize hs : t.bytes.map Arrival.byte ++ s = s₀ at h
  cases h with
  | @frame _ _ t' s' ht' _ h =>
    obtain ⟨rfl, -, -⟩ := frame_unique ht.1 ht'.1 hs
    exact h
  | full => omega
  | pause | ended =>
    rw [hb] at hs
    cases hs
  | rest h => exact absurd ⟨s, hs⟩ (h t ht)

/-- With a command waiting and room for more, a byte starts a command frame. -/
theorem Coalesces.frame_of_byte {b : UInt8} (hk : 0 < k)
    (hmax : k < max) (h : Coalesces max (n + 1) k (.byte b :: s)) :
    ∃ t, IsCommand t ∧ t.bytes.map Arrival.byte <+: .byte b :: s := by
  generalize hs : Arrival.byte b :: s = s₀ at h
  cases h with
  | @frame _ _ t s' ht => exact ⟨t, ht, List.prefix_append _ _⟩
  | full => omega
  | pause => cases hs
  | ended => cases hs
  | rest => omega

theorem coalesces_nil (max n : Nat) : Coalesces max n 0 [] := by
  cases n with
  | zero => exact .handler
  | succ n =>
    refine .rest fun t ht h => bytes_ne_nil ht.1 ?_
    simpa using h

/-- `drainBatch` and what follows, given that the later batches are read as the
theorem says. The induction is on the room left in the batch. -/
theorem drainBatch_faithful_iff
    (ih : ∀ src, FaithfulFrom [] src (readBatches max n src) ↔ Coalesces max n 0 src.stream)
    {room : Nat} (src : Source) (hne : 0 < batch.length)
    (hroom : batch.length + room = max) :
    FaithfulFrom batch src (handOn (readBatches max n) (drainBatch room batch src)) ↔
      Coalesces max (n + 1) batch.length src.stream := by
  induction room generalizing batch src with
  | zero =>
    rw [drainBatch, faithfulFrom_handOn rfl rfl, ih, show batch.length = max by omega,
      coalesces_full (by omega)]
  | succ room ihr =>
    obtain ⟨stream, pos⟩ := src
    match stream with
    | [] =>
      refine iff_of_true ?_ (.ended hne (by omega))
      exact (faithfulFrom_handOn rfl rfl).2 ((ih { stream := [], pos }).2 (coalesces_nil max n))
    | .expire :: s =>
      rw [coalesces_pause hne (by omega), ← ih { stream := s, pos }]
      exact faithfulFrom_handOn rfl rfl
    | .byte b :: s =>
      rw [drainBatch]
      rcases Source.next_cases { stream := .byte b :: s, pos } with
        ⟨t, s', ht, hst, hn⟩ | ⟨e, src', he, hn, hpos, hno⟩ | ⟨bs, s', hst, hn, hno⟩
      · -- a command frame: one command more in the batch
        have hpast := (handOn_past (readBatches_past max n)
          (drainBatch room (batch ++ [commandAt pos t])
            { stream := s', pos := pos + t.bytes.length })).mono (drainBatch_pos _ _ _)
        have hlen : (batch ++ [commandAt pos t]).length = batch.length + 1 := by simp
        simp only [hn]
        rw [faithfulFrom_frame ht hst hpast]
        dsimp only at hst ⊢
        rw [hst, coalesces_frame ht (by omega), ← hlen]
        exact ihr _ (by omega) (by omega)
      · -- the session closes, and the batch is lost
        simp only [hn, if_neg he]
        refine iff_of_false (fun h => ?_) fun h => ?_
        · obtain ⟨cs, -, hc⟩ := h.commands
          have := congrArg List.length hc
          simp only [handOn, Reading.commands, List.map_nil, List.flatten_nil, List.length_nil,
            List.length_append] at this
          omega
        · obtain ⟨t, ht, tail, hp⟩ := h.frame_of_byte hne (by omega)
          rw [Source.next_frame ht hp.symm] at hn
          cases hn
      · -- the deadline passed inside a frame, whose first bytes are gone
        dsimp only at hst
        obtain ⟨b', bs', rfl⟩ : ∃ b' bs', bs = b' :: bs' := by
          cases bs with
          | nil => cases hst
          | cons b' bs' => exact ⟨b', bs', rfl⟩
        simp only [hn, if_pos]
        refine iff_of_false (fun h => ?_) fun h => ?_
        · obtain ⟨m, hm, hb⟩ := h.aligned _ (List.mem_cons_self ..)
          dsimp only at hm hb
          rw [hst, bytesOf_map_append] at hb
          have := hb.eq_zero (by omega) hno
          rw [List.length_cons] at hm
          omega
        · obtain ⟨t, ht, tail, hp⟩ := h.frame_of_byte hne (by omega)
          rw [Source.next_frame ht hp.symm] at hn
          cases hn

/-- The whole loop: the induction is on the batches. -/
theorem readBatches_faithful_iff (hmax : 0 < max) (n : Nat) (src : Source) :
    FaithfulFrom [] src (readBatches max n src) ↔ Coalesces max n 0 src.stream := by
  induction n generalizing src with
  | zero =>
    refine iff_of_true (faithfulFrom_nil rfl fun t ht h => bytes_ne_nil ht.1 ?_) .handler
    simpa [heard, readBatches] using h
  | succ n ih =>
    rw [readBatches]
    rcases src.next_cases with
      ⟨t, s, ht, hst, hn⟩ | ⟨e, src', he, hn, hpos, hno⟩ | ⟨bs, s, hst, hn, hno⟩
    · have hpast := (handOn_past (readBatches_past max n)
        (drainBatch (max - 1) [commandAt src.pos t]
          { stream := s, pos := src.pos + t.bytes.length })).mono (drainBatch_pos _ _ _)
      simp only [hn]
      rw [faithfulFrom_frame ht hst hpast, hst, coalesces_frame ht hmax]
      exact drainBatch_faithful_iff ih _ (Nat.zero_lt_one) (by simp; omega)
    · -- nothing was waiting when the session closed
      simp only [hn, if_neg he]
      refine iff_of_true (faithfulFrom_nil rfl ?_) (.rest fun t ht => ?_)
      · simpa [heard] using hno
      · exact not_isPrefix_of_bytes (hno t ht)
    · -- nor when the idle deadline ended it
      simp only [hn, if_pos]
      refine iff_of_true (faithfulFrom_nil rfl ?_) (.rest ?_)
      · simpa [heard, hst] using hno
      · rintro t ht ⟨tail, hp⟩
        rw [Source.next_frame ht hp.symm] at hn
        cases hn

/-- **A session reads its client faithfully exactly on the streams whose commands
coalesce**: however many batches it handles, a deadline passes between two frames
only while commands are waiting, and no unfinished or bad frame follows them in
their batch. -/
theorem faithful_iff_coalesces (cfg : Config) (n : Nat) (s : Stream) :
    Faithful s (readBatches (maxPipeline cfg) n { stream := s }) ↔
      Coalesces (maxPipeline cfg) n 0 s := by
  have hmax : 0 < maxPipeline cfg := by
    unfold maxPipeline
    split <;> omega
  exact readBatches_faithful_iff hmax n { stream := s }

/-! ## A value taken for a command -/

/-- Behind a frame the decoding goes on as the reader does. -/
theorem Decodes.of_next {c : ClientCmd} (hn : Source.next { stream := bs.map Arrival.byte, pos } =
      (.ok c, { stream := bs'.map Arrival.byte, pos := pos' })) (h : Decodes pos bs cs) :
    ∃ cs', cs = c :: cs' ∧ Decodes pos' bs' cs' := by
  rcases Source.next_cases { stream := bs.map Arrival.byte, pos } with
    ⟨t, s, ht, hs, hn'⟩ | ⟨e, src', -, hn', -⟩ | ⟨bs₁, s, -, hn', -⟩
  · rw [hn'] at hn
    cases hn
    have hb := congrArg bytesOf hs
    rw [bytesOf_map, ← List.map_append, bytesOf_map] at hb
    rw [hb] at h
    exact (decodes_frame ht).1 h
  · rw [hn'] at hn
    cases hn
  · rw [hn'] at hn
    cases hn

/-- The value of a `SET` that reads like a command of its own. -/
def innerCommand : Bytes := encodeCommand [arg "FLUSHDB"]

/-- `SET k v` with this value, up to the value. -/
def setHead : Bytes := lit "*3\r\n$3\r\nSET\r\n$1\r\nk\r\n$17\r\n"

/-- `PING` and the `SET`, with the coalescing deadline passing on both sides of the value. -/
def cutValue : Stream :=
  (encodeCommand [arg "PING"] ++ setHead).map Arrival.byte ++
    .expire :: (innerCommand.map Arrival.byte ++ .expire :: crlf.map Arrival.byte)

/-- The session hands on `PING` and `FLUSHDB`; the client sent `PING` and `SET`. -/
theorem value_handed_as_command :
    ¬ Faithful cutValue (readBatches (maxPipeline seeded) 3 { stream := cutValue }) := by
  rintro ⟨⟨cs, hd, hc⟩, -⟩
  have hr : (readBatches (maxPipeline seeded) 3 { stream := cutValue }).commands.map
        ClientCmd.argv = [[arg "PING"], [arg "FLUSHDB"]] ∧
      heard { stream := cutValue } (readBatches (maxPipeline seeded) 3 { stream := cutValue }) =
        bytesOf cutValue := by
    decide +kernel
  have h₁ : Source.next { stream := (bytesOf cutValue).map Arrival.byte, pos := 0 } =
      (.ok (command 0 ["PING"]),
        { stream := (setHead ++ innerCommand ++ crlf).map Arrival.byte, pos := 14 }) := by
    decide +kernel
  have h₂ : Source.next
      { stream := (setHead ++ innerCommand ++ crlf).map Arrival.byte, pos := 14 } =
      (.ok { id := { session := 0, seq := 14 }, argv := [arg "SET", arg "k", .mk innerCommand],
             raw := setHead ++ innerCommand ++ crlf },
        { stream := ([] : Bytes).map Arrival.byte, pos := 58 }) := by
    decide +kernel
  rw [hr.2] at hd
  obtain ⟨cs₁, rfl, hd₁⟩ := hd.of_next h₁
  obtain ⟨cs₂, rfl, -⟩ := hd₁.of_next h₂
  have hne : [arg "SET", arg "k", .mk innerCommand] ≠ [arg "FLUSHDB"] := by decide +kernel
  have hargv := hr.1
  rw [hc] at hargv
  injection hargv with _ hargv
  injection hargv with hargv
  exact hne hargv

end RespProxy.Proxy
