import Mathlib.Data.List.TakeWhile
import RespProxy.Command.Db

/-! # Prefixes of virtual databases (`internal/command/db.go`)

`dbN:` is a code: the digits end at the first byte that is none, so no prefix
of one database starts a key of another, and a key is recovered from its
prefixed form. `hasVirtualDBPrefix` reads the same shape without looking at
the number, so it also accepts numbers that no database has.
-/

namespace RespProxy.Command

open Resp

/-! ## The code -/

theorem dbPrefix_of_ne_zero {db : Nat} (hdb : db ≠ 0) :
    dbPrefix db = lit "db" ++ Decimal.ofNat db ++ lit ":" := if_neg hdb

/-- The key starts with `db`, these digits and a colon. -/
def Numbered (ds key : Bytes) : Prop :=
  ds ≠ [] ∧ (∀ b ∈ ds, Decimal.isDigit b = true) ∧ ∃ rest, key = lit "db" ++ ds ++ 58 :: rest

/-- The digits of a key end at the colon. -/
theorem digits_unique {ds ds' rest rest' : Bytes} (hds : ∀ b ∈ ds, Decimal.isDigit b = true)
    (hds' : ∀ b ∈ ds', Decimal.isDigit b = true)
    (h : lit "db" ++ ds ++ 58 :: rest = lit "db" ++ ds' ++ 58 :: rest') :
    ds = ds' ∧ rest = rest' := by
  rw [List.append_assoc, List.append_assoc] at h
  have htail : ds ++ 58 :: rest = ds' ++ 58 :: rest' := List.append_cancel_left h
  have heq : ds = ds' := by
    rw [← Decimal.takeWhile_digits hds (by decide : Decimal.isDigit 58 = false), htail,
      Decimal.takeWhile_digits hds' (by decide)]
  rw [heq] at htail
  exact ⟨heq, (List.cons.inj (List.append_cancel_left htail)).2⟩

theorem Numbered.unique {ds ds' key : Bytes} (h : Numbered ds key) (h' : Numbered ds' key) :
    ds = ds' := by
  obtain ⟨-, hds, rest, rfl⟩ := h
  obtain ⟨-, hds', rest', hkey⟩ := h'
  exact (digits_unique hds hds' hkey).1

theorem dbPrefix_append {db : Nat} (hdb : db ≠ 0) (k : Bytes) :
    dbPrefix db ++ k = lit "db" ++ Decimal.ofNat db ++ 58 :: k := by
  rw [dbPrefix_of_ne_zero hdb, List.append_assoc]
  rfl

theorem numbered_dbPrefix {db : Nat} (hdb : db ≠ 0) (k : Bytes) :
    Numbered (Decimal.ofNat db) (dbPrefix db ++ k) :=
  ⟨Decimal.ofNat_ne_nil db, fun _ => Decimal.isDigit_of_mem_ofNat, k, dbPrefix_append hdb k⟩

theorem dbPrefix_append_inj {i j : Nat} (hi : i ≠ 0) (hj : j ≠ 0) {x y : Bytes}
    (h : dbPrefix i ++ x = dbPrefix j ++ y) : i = j ∧ x = y := by
  rw [dbPrefix_append hi, dbPrefix_append hj] at h
  obtain ⟨hd, hxy⟩ := digits_unique (fun _ => Decimal.isDigit_of_mem_ofNat)
    (fun _ => Decimal.isDigit_of_mem_ofNat) h
  exact ⟨Decimal.ofNat_injective hd, hxy⟩

theorem eq_of_dbPrefix_isPrefix {i j : Nat} (hi : i ≠ 0) (hj : j ≠ 0) {k : Bytes}
    (h : dbPrefix i <+: dbPrefix j ++ k) : i = j := by
  obtain ⟨t, ht⟩ := h
  exact (dbPrefix_append_inj hi hj ht).1

theorem stripKey_append {db : Nat} (hdb : db ≠ 0) {a : Slice} {k : Bytes}
    (ha : a.bytes = dbPrefix db ++ k) : stripKey db a = .mk k := by
  have hpre : (dbPrefix db).isPrefixOf a.bytes = true :=
    List.isPrefixOf_iff_prefix.2 (ha ▸ List.prefix_append _ _)
  rw [stripKey, if_neg (by simp [hdb, hpre]), ha, List.drop_left]

/-- The key spaces of two databases are apart, and a database gets its own keys back. -/
theorem key_spaces_apart {i j : Nat} (hi : 0 < i) (hj : 0 < j) (a b : Slice) :
    ((prefixKey i a).bytes = (prefixKey j b).bytes → i = j ∧ a.bytes = b.bytes) ∧
    (stripKey i (prefixKey i a)).bytes = a.bytes ∧
    (i ≠ j → stripKey i (prefixKey j a) = prefixKey j a ∧
      ¬ dbPrefix i <+: (prefixKey j a).bytes) := by
  have hi0 : i ≠ 0 := by omega
  have hj0 : j ≠ 0 := by omega
  refine ⟨?_, ?_, ?_⟩
  · intro h
    rw [bytes_prefixKey, bytes_prefixKey] at h
    exact dbPrefix_append_inj hi0 hj0 h
  · rw [stripKey_append hi0 (bytes_prefixKey i a)]
    rfl
  · intro hij
    have hpre : ¬ dbPrefix i <+: (prefixKey j a).bytes := by
      rw [bytes_prefixKey]
      exact fun h => hij (eq_of_dbPrefix_isPrefix hi0 hj0 h)
    refine ⟨?_, hpre⟩
    rw [stripKey, if_pos (.inr fun h => hpre (List.isPrefixOf_iff_prefix.1 h))]

/-- Databases 1 and 12, with a key that itself looks prefixed. -/
theorem key_spaces_apart_one_twelve :
    (0 < 1 ∧ 0 < 12 ∧ 1 ≠ 12) ∧
      (stripKey 1 (prefixKey 1 (arg "db12:k"))).bytes = lit "db12:k" ∧
      stripKey 1 (prefixKey 12 (arg "db12:k")) = prefixKey 12 (arg "db12:k") ∧
      ¬ dbPrefix 1 <+: (prefixKey 12 (arg "db12:k")).bytes := by
  obtain ⟨-, hstrip, hother⟩ := key_spaces_apart (i := 1) (j := 12) (by decide) (by decide)
    (arg "db12:k") (arg "k")
  exact ⟨by decide, hstrip, hother (by decide)⟩

/-! ## The recogniser -/

/-- The keys of the virtual databases; the index of a database is an `int`. -/
def OfVirtualDB (key : Bytes) : Prop :=
  ∃ (N : Nat) (k : Slice), 1 ≤ N ∧ N < 2 ^ 63 ∧ key = (prefixKey N k).bytes

/-- The number behind `db` has a leading zero or is too large for an index. -/
def Misnumbered (key : Bytes) : Prop :=
  ∃ ds, Numbered ds key ∧ (ds.head? = some 48 ∨ 2 ^ 63 ≤ Decimal.value ds)

theorem hasVirtualDBPrefix_iff (key : Bytes) :
    hasVirtualDBPrefix key = true ↔ ∃ ds, Numbered ds key := by
  constructor
  · intro h
    simp only [hasVirtualDBPrefix, Bool.and_eq_true, decide_eq_true_eq] at h
    obtain ⟨⟨hdb, hne⟩, hcolon⟩ := h
    obtain ⟨rest, hrest⟩ := List.head?_eq_some_iff.1 hcolon
    refine ⟨_, hne, fun b hb => List.mem_takeWhile_imp hb, rest, ?_⟩
    rw [← hdb, ← hrest, List.append_assoc, List.takeWhile_append_dropWhile, List.take_append_drop]
  · rintro ⟨ds, hne, hds, rest, rfl⟩
    have htail : (lit "db" ++ ds ++ 58 :: rest).drop 2 = ds ++ 58 :: rest := by
      rw [List.append_assoc]
      rfl
    rw [hasVirtualDBPrefix, htail, Decimal.takeWhile_digits hds (by decide),
      Decimal.dropWhile_digits hds (by decide)]
    simp only [hne, ne_eq, not_false_eq_true, decide_true, Bool.and_true, List.head?_cons,
      decide_eq_true_eq]
    rw [List.append_assoc]
    rfl

theorem ofVirtualDB_iff (key : Bytes) :
    OfVirtualDB key ↔
      ∃ ds, Numbered ds key ∧ ds.head? ≠ some 48 ∧ Decimal.value ds < 2 ^ 63 := by
  constructor
  · rintro ⟨N, k, hN, hlt, rfl⟩
    have hN0 : N ≠ 0 := by omega
    rw [bytes_prefixKey]
    exact ⟨Decimal.ofNat N, numbered_dbPrefix hN0 _, Decimal.head_ofNat_ne hN0,
      by rwa [Decimal.value_ofNat]⟩
  · rintro ⟨ds, ⟨hne, hds, rest, rfl⟩, hzero, hlt⟩
    obtain ⟨hpos, hform⟩ := Decimal.ofNat_value hne hds hzero
    refine ⟨Decimal.value ds, .mk rest, hpos, hlt, ?_⟩
    rw [bytes_prefixKey, dbPrefix_append (by omega), hform]
    rfl

/-- The recogniser is right about a key unless the key is misnumbered. -/
theorem hasVirtualDBPrefix_right_iff (key : Bytes) :
    (hasVirtualDBPrefix key = true ↔ OfVirtualDB key) ↔ ¬ Misnumbered key := by
  rw [hasVirtualDBPrefix_iff, ofVirtualDB_iff]
  constructor
  · rintro h ⟨ds, hnum, hbad⟩
    obtain ⟨ds', hnum', hzero, hlt⟩ := h.1 ⟨ds, hnum⟩
    rw [hnum.unique hnum'] at hbad
    rcases hbad with hbad | hbad
    · exact hzero hbad
    · omega
  · intro h
    constructor
    · rintro ⟨ds, hnum⟩
      refine ⟨ds, hnum, fun hzero => h ⟨ds, hnum, .inl hzero⟩, ?_⟩
      exact Nat.lt_of_not_le fun hge => h ⟨ds, hnum, .inr hge⟩
    · rintro ⟨ds, hnum, -⟩
      exact ⟨ds, hnum⟩

end RespProxy.Command
