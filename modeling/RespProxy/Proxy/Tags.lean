import RespProxy.Cluster.Loops
import RespProxy.Command.Prefixes
import RespProxy.Proxy.Sends

/-! # Hash tags in virtual databases

The prefix of a database has no opening brace, so a key keeps its hash tag in
every database. Keys that share a tag share a slot, whatever their databases
are, and `MOVE` and `COPY` of a tagged key to its own name are done with one
command in one slot.
-/

namespace RespProxy.Proxy

open Cluster Command Resp Interact

variable {cfg : Config} {key t : Bytes} {openTag closeTag : UInt8}
variable {c : ClientCmd} {s : Session} {n : Nat}

/-! ## Tags -/

/-- What stands in front of the opening delimiter does not matter. -/
theorem tagged_append_iff {p : Bytes} (hp : openTag ∉ p) :
    Tagged (p ++ key) openTag closeTag t ↔ Tagged key openTag closeTag t := by
  constructor
  · rintro ⟨pre, post, heq, hpre, ht, hne⟩
    -- both sides have the same first delimiter, so `p` ends in front of it
    have hkey : key = (pre.drop p.length) ++ openTag :: (t ++ closeTag :: post) := by
      have hle : p.length ≤ pre.length := by
        by_contra hlt
        have hmem : openTag ∈ p := by
          have hat : (p ++ key)[pre.length]? = some openTag := by simp [heq]
          rw [List.getElem?_append_left (by omega)] at hat
          exact List.mem_of_getElem? hat
        exact hp hmem
      have hdrop := congrArg (List.drop p.length) heq
      rwa [List.drop_left, List.drop_append_of_le_length hle] at hdrop
    exact ⟨pre.drop p.length, post, hkey, fun hin => hpre (List.mem_of_mem_drop hin), ht, hne⟩
  · rintro ⟨pre, post, rfl, hpre, ht, hne⟩
    refine ⟨p ++ pre, post, by simp, fun hin => ?_, ht, hne⟩
    exact (List.mem_append.1 hin).elim hp hpre

/-- The prefix of a database is letters, digits and a colon. -/
theorem brace_not_mem_dbPrefix (db : Nat) : (123 : UInt8) ∉ dbPrefix db := by
  by_cases hdb : db = 0
  · rw [dbPrefix, if_pos hdb]
    exact List.not_mem_nil
  · rw [dbPrefix_of_ne_zero hdb]
    intro hin
    rcases List.mem_append.1 hin with hin | hin
    · rcases List.mem_append.1 hin with hin | hin
      · exact absurd hin (by decide)
      · exact Decimal.not_mem_ofNat (by decide) db hin
    · exact absurd hin (by decide)

theorem bytes_prefixKey (db : Nat) (k : Slice) : (prefixKey db k).bytes = dbPrefix db ++ k.bytes := by
  unfold prefixKey
  split
  · rename_i hdb
    rw [dbPrefix, if_pos hdb, List.nil_append]
  · rfl

/-- A key is tagged in one database exactly if it is in all of them. -/
theorem tagged_prefixKey_iff (db : Nat) {k : Slice} :
    Tagged (prefixKey db k).bytes 123 closeTag t ↔ Tagged k.bytes 123 closeTag t := by
  rw [bytes_prefixKey]
  exact tagged_append_iff (brace_not_mem_dbPrefix db)

/-! ## Slots -/

/-- The delimiters are braces. -/
def Braces (cfg : Config) : Prop := cfg.hashTagOpen = 123 ∧ cfg.hashTagClose = 125

/-- The slot of a tagged key is that of its tag. -/
theorem slotOf_of_tagged (hcfg : Braces cfg) {k : Slice} (h : Tagged k.bytes 123 125 t) :
    slotOf cfg k = (crc16 t &&& 0x3fff).toNat := by
  rw [slotOf, hcfg.1, hcfg.2, keySlot, ← hashTagLoop_eq, hashTagLoop_of_tagged h]

theorem slotOf_prefixKey (hcfg : Braces cfg) {k k' : Slice} (h : Tagged k.bytes 123 125 t)
    (h' : Tagged k'.bytes 123 125 t) (i j : Nat) :
    slotOf cfg (prefixKey i k) = slotOf cfg (prefixKey j k') := by
  rw [slotOf_of_tagged hcfg ((tagged_prefixKey_iff i).2 h),
    slotOf_of_tagged hcfg ((tagged_prefixKey_iff j).2 h')]

/-! ## Transfers -/

/-- The commands of a transfer within a slot: is the destination free, and one that renames or
copies, with `ASKING` ahead while the slot moves. -/
def localTransfer (key dst : Slice) : List Argv :=
  [[arg "ASKING"], [arg "EXISTS", dst], [arg "RENAME", key, dst], [arg "COPY", key, dst],
    [arg "COPY", key, dst, arg "REPLACE"]]

/-- The program moves or copies `key` to `dst` within one slot. -/
def StaysInSlot (cfg : Config) (key dst : Slice) {α : Type} (p : Prog α) : Prop :=
  slotOf cfg key = slotOf cfg dst ∧ ∀ tr r, p.Runs tr r → ∀ e ∈ tr,
    Foot (fun f => f.argv ∈ localTransfer key dst) (fun _ _ => True) e

variable {A : Event → Prop} {R : Option CmdId → Value → Prop} {src : Origin} {k dst : Slice}

theorem exec_localTransfer {argv : Argv} (h : argv ∈ localTransfer k dst) (slot : Nat)
    (read : Bool) :
    Sends A (fun f => f.argv ∈ localTransfer k dst) R (fun _ => True)
      (exec cfg slot { argv, src } read) :=
  exec_sends cfg h (by simp [localTransfer, askingFrame]) slot read

/-- Within a slot nothing is dumped and restored. -/
theorem transferKey_local (hslot : slotOf cfg k = slotOf cfg dst) (delSrc replace : Bool) :
    Sends A (fun f => f.argv ∈ localTransfer k dst) R (fun _ => True)
      (transferKey cfg src k dst delSrc replace) := by
  have htransfer : Sends A (fun f => f.argv ∈ localTransfer k dst) R (fun _ => True)
      (transferLocal cfg src k dst delSrc replace) := by
    refine (exec_localTransfer ?_ _ _).bind ?_
    · cases delSrc <;> cases replace <;> simp [localTransfer]
    · intro r _
      cases r with
      | error e => trivial
      | ok v =>
        dsimp only
        split_ifs <;> trivial
  unfold transferKey
  dsimp only
  rw [if_pos hslot]
  split
  · exact htransfer
  · refine (exec_localTransfer (by simp [localTransfer]) _ _).bindOk (fun _ => trivial)
      fun ex _ => ?_
    dsimp only
    split
    · trivial
    · exact htransfer

theorem staysInSlot_of_sends {α : Type} {Q : α → Prop} {p : Prog α}
    (hslot : slotOf cfg k = slotOf cfg dst)
    (h : Sends (fun _ => True) (fun f => f.argv ∈ localTransfer k dst) (fun _ _ => True) Q p) :
    StaysInSlot cfg k dst p :=
  ⟨hslot, fun _ _ hrun => (h.runs hrun fun _ _ => trivial).1⟩

theorem finishTransfer_staysInSlot (hslot : slotOf cfg k = slotOf cfg dst) (s : Session)
    (c : ClientCmd) (delSrc replace : Bool) :
    StaysInSlot cfg k dst (finishTransfer cfg s c k dst delSrc replace) := by
  refine staysInSlot_of_sends (Q := fun _ => True) hslot ((transferKey_local hslot delSrc replace).bind ?_)
  intro r _
  cases r with
  | error e => exact Sends.any (finish_sends trivial)
  | ok n => exact Sends.any (finish_sends trivial)

theorem cmdMove_staysInSlot {name db : Slice}
    (hargv : c.argv = [name, k, db]) (hdb : parseDBIndex db cfg.maxDatabases = .ok n)
    (hslot : slotOf cfg (prefixKey s.db k) = slotOf cfg (prefixKey n k)) :
    StaysInSlot cfg (prefixKey s.db k) (prefixKey n k) (cmdMove cfg s c) := by
  rw [cmdMove, hargv]
  dsimp only
  rw [hdb]
  dsimp only
  split
  · exact staysInSlot_of_sends hslot (finish_sends trivial)
  · exact finishTransfer_staysInSlot hslot s c true false

theorem cmdCopy_staysInSlot {name : Slice} {opts : Argv}
    {replace : Bool} (hargv : c.argv = name :: k :: dst :: opts)
    (hopts : copyArgs cfg opts s.db false = .ok (n, replace))
    (hslot : slotOf cfg (prefixKey s.db k) = slotOf cfg (prefixKey n dst)) :
    StaysInSlot cfg (prefixKey s.db k) (prefixKey n dst) (cmdCopy cfg s c) := by
  rw [cmdCopy, hargv]
  dsimp only
  rw [hopts]
  exact finishTransfer_staysInSlot hslot s c false replace

/-- **Hash tags.** `HashTag` returns the tag of a key that has one, and the whole key otherwise,
for any delimiters. With braces, a key keeps its tag and its slot in every database; keys with one
tag are in one slot, whatever their databases; and `MOVE` and `COPY` of a tagged key to its own
name stay in it. -/
theorem hashTag_across_databases (key : Bytes) (openTag closeTag : UInt8) :
    (∀ t, Tagged key openTag closeTag t → hashTagLoop key openTag closeTag = t) ∧
      ((∀ t, ¬ Tagged key openTag closeTag t) → hashTagLoop key openTag closeTag = key) ∧
      ∀ cfg, Braces cfg → ∀ (k : Slice) t, Tagged k.bytes 123 125 t →
        (∀ db, hashTagLoop (prefixKey db k).bytes 123 125 = t ∧
          slotOf cfg (prefixKey db k) = slotOf cfg k) ∧
        (∀ (k' : Slice) i j, Tagged k'.bytes 123 125 t →
          slotOf cfg (prefixKey i k) = slotOf cfg (prefixKey j k')) ∧
        (∀ s c name db n, c.argv = [name, k, db] → parseDBIndex db cfg.maxDatabases = .ok n →
          StaysInSlot cfg (prefixKey s.db k) (prefixKey n k) (cmdMove cfg s c)) ∧
        ∀ s c name dst opts n replace, c.argv = name :: k :: dst :: opts →
          dst.bytes = k.bytes → copyArgs cfg opts s.db false = .ok (n, replace) →
          StaysInSlot cfg (prefixKey s.db k) (prefixKey n dst) (cmdCopy cfg s c) := by
  refine ⟨fun t => hashTagLoop_of_tagged, hashTagLoop_of_untagged, fun cfg hcfg k t ht => ?_⟩
  refine ⟨fun db => ⟨?_, ?_⟩, fun k' i j ht' => slotOf_prefixKey hcfg ht ht' i j, ?_, ?_⟩
  · exact hashTagLoop_of_tagged ((tagged_prefixKey_iff db).2 ht)
  · exact slotOf_prefixKey hcfg ht ht db 0
  · intro s c name db n hargv hdb
    exact cmdMove_staysInSlot hargv hdb (slotOf_prefixKey hcfg ht ht s.db n)
  · intro s c name dst opts n replace hargv hdst hopts
    have ht' : Tagged dst.bytes 123 125 t := hdst ▸ ht
    exact cmdCopy_staysInSlot hargv hopts (slotOf_prefixKey hcfg ht ht' s.db n)

end RespProxy.Proxy
