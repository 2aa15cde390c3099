import Mathlib.Data.List.Forall2
import RespProxy.Command.Prefixes
import RespProxy.Proxy.Handle

/-! # Key names a client is shown

Replies that echo key names lose the prefix of the database. The names are cut out and
copied, and the copy of an empty slice is nil, which `BulkString` turns into a null: a
client that has a key with the empty name is told a null in its place.

On database 0 `RANDOMKEY` shows the key the backend picked unless it looks like a key of
another database. The look does not mind the number, so `db0:x`, a key of database 0, is
not shown either.

* `encode_stripReplyKeys_iff`: the reply is the one without prefixes if no name is empty;
* `randomKey_hides_iff`: what is hidden belongs to another database unless misnumbered.
-/

namespace RespProxy.Proxy

open Cluster Command Resp

variable {name : String} {ks : List Bytes} {ns : List Value} {k : Bytes}

/-! ## Names in replies -/

/-- What a backend says with a reply that echoes key names. -/
inductive Echo where
  /-- an error or a null: no names -/
  | nothing (v : Value)
  /-- `KEYS` -/
  | names (ks : List Bytes)
  /-- `SCAN`: the cursor, a page of names, and what follows -/
  | page (cursor : Value) (ks : List Bytes) (rest : List Value)
  /-- a pop: the name of the list or set, and what was popped -/
  | popped (k : Bytes) (rest : List Value)
  /-- `XREAD`: the streams with their names -/
  | streams (ss : List (Bytes × List Value))

def popNames : List String :=
  ["BLPOP", "BRPOP", "BZPOPMIN", "BZPOPMAX", "LMPOP", "BLMPOP", "ZMPOP", "BZMPOP"]

def streamNames : List String := ["XREAD", "XREADGROUP"]

/-- The commands that are answered this way. -/
def Echo.commands : Echo → List String
  | .nothing _ => ["KEYS", "SCAN"] ++ popNames ++ streamNames
  | .names _ => ["KEYS"]
  | .page _ _ _ => ["SCAN"]
  | .popped _ _ => popNames
  | .streams _ => streamNames

/-- The key names in the reply. -/
def Echo.keys : Echo → List Bytes
  | .nothing _ => []
  | .names ks | .page _ ks _ => ks
  | .popped k _ => [k]
  | .streams ss => ss.map Prod.fst

/-- The reply with each name written by `name`. -/
def Echo.told (name : Bytes → Value) : Echo → Value
  | .nothing v => v
  | .names ks => array (ks.map name)
  | .page cursor ks rest => array (cursor :: array (ks.map name) :: rest)
  | .popped k rest => array (name k :: rest)
  | .streams ss => array (ss.map fun s => array (name s.1 :: s.2))

/-- An array that is not null, whatever wire bytes it carries. -/
def IsArray (v : Value) (values : List Value) : Prop :=
  v.type = .array ∧ v.null = false ∧ v.values = values

/-- The bulk string carries the name `k` of a key of database `db`. -/
def NameIn (db : Nat) (k : Bytes) (v : Value) : Prop :=
  v.type = .bulkString ∧ v.null = false ∧ v.str.bytes = (prefixKey db (.mk k)).bytes

/-- The backend reply `v` carries the names with the prefix of database `db`. -/
def Echo.CarriedBy (db : Nat) (v : Value) : Echo → Prop
  | .nothing w => v = w ∧ (w.isError = true ∨ w.null = true)
  | .names ks => ∃ ns, IsArray v ns ∧ List.Forall₂ (NameIn db) ks ns
  | .page cursor ks rest => ∃ w ns, IsArray v (cursor :: w :: rest) ∧ IsArray w ns ∧
      List.Forall₂ (NameIn db) ks ns
  | .popped k rest => ∃ n, IsArray v (n :: rest) ∧ NameIn db k n
  | .streams ss => ∃ ws, IsArray v ws ∧
      List.Forall₂ (fun s w => ∃ n, IsArray w (n :: s.2) ∧ NameIn db s.1 n) ss ws

section

variable {db : Nat} {v : Value} {e : Echo}

theorem stripBulk_nameIn (hdb : db ≠ 0) (h : NameIn db k v) :
    stripBulk db v = bulkString (Slice.ofAppend k) := by
  obtain ⟨htype, hnull, hstr⟩ := h
  rw [bytes_prefixKey] at hstr
  rw [stripBulk, if_neg (by simp [htype, hnull]), stripKey_append hdb hstr]
  rfl

theorem map_stripBulk (hdb : db ≠ 0) (h : List.Forall₂ (NameIn db) ks ns) :
    ns.map (stripBulk db) = ks.map fun k => bulkString (Slice.ofAppend k) := by
  induction h with
  | nil => rfl
  | cons hk _ ih => rw [List.map_cons, List.map_cons, stripBulk_nameIn hdb hk, ih]

theorem stripArrayOfKeys_isArray (hdb : db ≠ 0)
    (hv : IsArray v ns) (h : List.Forall₂ (NameIn db) ks ns) :
    stripArrayOfKeys db v = array (ks.map fun k => bulkString (Slice.ofAppend k)) := by
  rw [stripArrayOfKeys, if_neg (by simp [hv.1, hv.2.1]), hv.2.2, map_stripBulk hdb h]

theorem stripStream_isArray (hdb : db ≠ 0) {n : Value} {rest : List Value}
    (hv : IsArray v (n :: rest)) (hn : NameIn db k n) :
    stripStream db v = array (bulkString (Slice.ofAppend k) :: rest) := by
  simp only [stripStream, hv.2.2, if_pos hv.1, stripBulk_nameIn hdb hn]

theorem map_stripStream (hdb : db ≠ 0) {ss : List (Bytes × List Value)} {ws : List Value}
    (h : List.Forall₂ (fun s w => ∃ n, IsArray w (n :: s.2) ∧ NameIn db s.1 n) ss ws) :
    ws.map (stripStream db) = ss.map fun s => array (bulkString (Slice.ofAppend s.1) :: s.2) := by
  induction h with
  | nil => rfl
  | cons hs _ ih =>
    obtain ⟨n, hw, hn⟩ := hs
    rw [List.map_cons, List.map_cons, stripStream_isArray hdb hw hn, ih]

theorem stripReplyKeys_pop (hname : name ∈ popNames)
    (h : ¬ (db = 0 ∨ v.isError = true ∨ v.null = true)) :
    stripReplyKeys name db v = stripFirstArrayKey db v := by
  rw [stripReplyKeys, if_neg h]
  simp only [popNames, List.mem_cons, List.not_mem_nil, or_false] at hname
  rcases hname with rfl | rfl | rfl | rfl | rfl | rfl | rfl | rfl <;> rfl

theorem stripReplyKeys_xread (hname : name ∈ streamNames)
    (h : ¬ (db = 0 ∨ v.isError = true ∨ v.null = true)) :
    stripReplyKeys name db v = stripXRead db v := by
  rw [stripReplyKeys, if_neg h]
  simp only [streamNames, List.mem_cons, List.not_mem_nil, or_false] at hname
  rcases hname with rfl | rfl <;> rfl

theorem IsArray.not_error {values : List Value} (h : IsArray v values) :
    ¬ (db = 0 ∨ v.isError = true ∨ v.null = true) ↔ db ≠ 0 := by
  simp [Value.isError, h.1, h.2.1]

/-- The names come out as copies of what is behind the prefix. -/
theorem stripReplyKeys_told (hdb : db ≠ 0) (hname : name ∈ e.commands) (h : e.CarriedBy db v) :
    stripReplyKeys name db v = e.told fun k => bulkString (Slice.ofAppend k) := by
  cases e with
  -- errors and nulls pass unchanged; every other reply has its names at one place
  | nothing w =>
    obtain ⟨rfl, hw⟩ := h
    exact if_pos (.inr hw)
  | names ks =>
    obtain ⟨ns, hv, hns⟩ := h
    obtain rfl := List.mem_singleton.1 hname
    rw [stripReplyKeys, if_neg (hv.not_error.2 hdb), if_pos rfl]
    exact stripArrayOfKeys_isArray hdb hv hns
  | page cursor ks rest =>
    obtain ⟨w, ns, hv, hw, hns⟩ := h
    obtain rfl := List.mem_singleton.1 hname
    rw [stripReplyKeys, if_neg (hv.not_error.2 hdb), if_neg (by decide), if_pos rfl]
    simp only [hv.2.2, if_pos hv.1, stripArrayOfKeys_isArray hdb hw hns]
    rfl
  | popped k rest =>
    obtain ⟨n, hv, hn⟩ := h
    rw [stripReplyKeys_pop hname (hv.not_error.2 hdb), stripFirstArrayKey,
      if_neg (by simp [hv.1, hv.2.1])]
    simp only [hv.2.2, stripBulk_nameIn hdb hn]
    rfl
  | streams ss =>
    obtain ⟨ws, hv, hws⟩ := h
    rw [stripReplyKeys_xread hname (hv.not_error.2 hdb), stripXRead,
      if_neg (by simp [hv.1, hv.2.1]), hv.2.2, map_stripStream hdb hws]
    rfl

/-! ## Their bytes -/

theorem length_encode_array (vs : List Value) :
    (encode (array vs)).length = 3 + (Decimal.ofNat vs.length).length + (encodeAll vs).length := by
  simp only [array, encode, ne_eq, not_true_eq_false, if_false, Bool.false_eq_true, crlf,
    List.cons_append, List.length_cons, List.length_append, List.length_nil]
  omega

/-- A null is one byte shorter than the empty string. -/
theorem length_encode_copy (k : Bytes) :
    (encode (bulkString (Slice.ofAppend k))).length + [k].count [] =
      (encode (bulkString (.mk k))).length := by
  by_cases hk : k = []
  · subst hk
    decide
  · rw [Slice.ofAppend, if_neg hk, List.count_singleton]
    simp [hk]

theorem length_encodeAll_copies (ks : List Bytes) :
    (encodeAll (ks.map fun k => bulkString (Slice.ofAppend k))).length + ks.count [] =
      (encodeAll (ks.map fun k => bulkString (.mk k))).length := by
  induction ks with
  | nil => rfl
  | cons k ks ih =>
    have hk := length_encode_copy k
    rw [List.count_singleton] at hk
    rw [List.map_cons, List.map_cons, encodeAll, encodeAll, List.length_append, List.length_append,
      List.count_cons, ← ih, ← hk]
    omega

theorem length_encodeAll_streams (ss : List (Bytes × List Value)) :
    (encodeAll (ss.map fun s => array (bulkString (Slice.ofAppend s.1) :: s.2))).length +
        (ss.map Prod.fst).count [] =
      (encodeAll (ss.map fun s => array (bulkString (.mk s.1) :: s.2))).length := by
  induction ss with
  | nil => rfl
  | cons s ss ih =>
    have hk := length_encode_copy s.1
    rw [List.count_singleton] at hk
    simp only [List.map_cons, encodeAll, List.length_append, List.count_cons, length_encode_array,
      List.length_cons] at ih ⊢
    omega

/-- Each empty name costs a byte. -/
theorem length_encode_told (e : Echo) :
    (encode (e.told fun k => bulkString (Slice.ofAppend k))).length + e.keys.count [] =
      (encode (e.told fun k => bulkString (.mk k))).length := by
  cases e with
  | nothing v => rfl
  | names ks =>
    have hks := length_encodeAll_copies ks
    simp only [Echo.told, Echo.keys, length_encode_array, List.length_map]
    omega
  | page cursor ks rest =>
    have hks := length_encodeAll_copies ks
    simp only [Echo.told, Echo.keys, length_encode_array, List.length_map, List.length_cons,
      encodeAll, List.length_append]
    omega
  | popped k rest =>
    have hk := length_encode_copy k
    simp only [Echo.told, Echo.keys, length_encode_array, List.length_cons, encodeAll,
      List.length_append]
    omega
  | streams ss =>
    have hss := length_encodeAll_streams ss
    simp only [Echo.told, Echo.keys, length_encode_array, List.length_map]
    omega

theorem told_congr {f g : Bytes → Value} (e : Echo) (h : ∀ k ∈ e.keys, f k = g k) :
    e.told f = e.told g := by
  cases e with
  | nothing v => rfl
  | names ks =>
    have hks : ks.map f = ks.map g := List.map_congr_left h
    rw [Echo.told, Echo.told, hks]
  | page cursor ks rest =>
    have hks : ks.map f = ks.map g := List.map_congr_left h
    rw [Echo.told, Echo.told, hks]
  | popped k rest => rw [Echo.told, Echo.told, h k List.mem_cons_self]
  | streams ss =>
    have hss : ∀ s ∈ ss, array (f s.1 :: s.2) = array (g s.1 :: s.2) := by
      intro s hs
      rw [h s.1 (List.mem_map_of_mem hs)]
    rw [Echo.told, Echo.told, List.map_congr_left hss]

/-- The client gets the bytes of the reply without prefixes unless a name is empty. -/
theorem encode_stripReplyKeys_iff (hdb : 0 < db) {name : String} (hname : name ∈ e.commands)
    (h : e.CarriedBy db v) :
    encode (stripReplyKeys name db v) = encode (e.told fun k => bulkString (.mk k)) ↔
      [] ∉ e.keys := by
  rw [stripReplyKeys_told (by omega) hname h]
  constructor
  · intro heq hmem
    have hlen := length_encode_told e
    have hcount : 0 < e.keys.count [] := List.count_pos_iff.2 hmem
    rw [heq] at hlen
    omega
  · intro hmem
    refine congrArg encode (told_congr e fun k hk => ?_)
    rw [Slice.ofAppend, if_neg (ne_of_mem_of_not_mem hk hmem)]

end

/-- A page of two names of database 3. -/
theorem encode_stripReplyKeys_page :
    encode (stripReplyKeys "SCAN" 3 (array [bulkString (arg "0"),
        array [bulkString (arg "db3:a"), bulkString (arg "db3:db3:b")]])) =
      encode (array [bulkString (arg "0"),
        array [bulkString (arg "a"), bulkString (arg "db3:b")]]) :=
  (encode_stripReplyKeys_iff (e := .page (bulkString (arg "0")) [lit "a", lit "db3:b"] [])
    (by decide) (by decide)
    ⟨_, _, ⟨rfl, rfl, rfl⟩, ⟨rfl, rfl, rfl⟩,
      .cons ⟨rfl, rfl, by decide⟩ (.cons ⟨rfl, rfl, by decide⟩ .nil)⟩).2 (by decide)

/-- `KEYS` in a database with a key of the empty name: a null is told. -/
theorem keys_empty_name :
    encode (stripReplyKeys "KEYS" 3 (array [bulkString (prefixKey 3 (arg ""))])) =
        lit "*1" ++ crlf ++ lit "$-1" ++ crlf ∧
      encode (array [bulkString (arg "")]) = lit "*1" ++ crlf ++ lit "$0" ++ crlf ++ crlf := by
  decide

/-! ## `RANDOMKEY` on database 0 -/

/-- What `RANDOMKEY` tells the client of the answer to its own. -/
def randomKeyReply : Except Err Value → Value
  | .error e => errOf e
  | .ok v => if v.null = false ∧ hasVirtualDBPrefix v.str.bytes then nullBulk else v

/-- The backend picks `key` and the client is told that there is none. -/
def HiddenKey (key : Bytes) : Prop := randomKeyReply (.ok (bulkString (.mk key))) = nullBulk

theorem hiddenKey_iff (key : Bytes) : HiddenKey key ↔ hasVirtualDBPrefix key = true := by
  have hreply : randomKeyReply (.ok (bulkString (.mk key))) =
      if false = false ∧ hasVirtualDBPrefix key = true then nullBulk
      else bulkString (.mk key) := rfl
  rw [HiddenKey, hreply]
  constructor
  · intro h
    by_contra hkey
    rw [if_neg (fun hboth => hkey hboth.2)] at h
    cases h
  · intro hkey
    exact if_pos ⟨rfl, hkey⟩

/-- The recogniser accepts a key, and `RANDOMKEY` hides it, just if it belongs to a
virtual database, for the keys that are not misnumbered and for no others. -/
theorem randomKey_hides_iff (key : Bytes) :
    ((hasVirtualDBPrefix key = true ↔ OfVirtualDB key) ∧ (HiddenKey key ↔ OfVirtualDB key)) ↔
      ¬ Misnumbered key := by
  rw [hiddenKey_iff, and_self]
  exact hasVirtualDBPrefix_right_iff key

/-- A key of database 0 that `RANDOMKEY` does not show. -/
theorem randomKey_hides_own_key :
    hasVirtualDBPrefix (lit "db0:x") = true ∧ HiddenKey (lit "db0:x") ∧
      ¬ OfVirtualDB (lit "db0:x") := by
  have hrec : hasVirtualDBPrefix (lit "db0:x") = true := by decide
  refine ⟨hrec, (hiddenKey_iff _).2 hrec, ?_⟩
  rw [ofVirtualDB_iff]
  rintro ⟨ds, hnum, hzero, -⟩
  have hnum' : Numbered (lit "0") (lit "db0:x") :=
    ⟨by decide, by decide +kernel, lit "x", by decide⟩
  rw [hnum.unique hnum'] at hzero
  exact hzero rfl

end RespProxy.Proxy
