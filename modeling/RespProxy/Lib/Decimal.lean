import Mathlib.Algebra.Group.Int.Defs
import Mathlib.Algebra.Group.Nat.Defs
import Mathlib.Data.List.Basic
import Mathlib.Data.List.Induction

/-! # Decimal numbers as ASCII bytes

The printed form of a natural number, its value, and the signed 64-bit reader
that accepts an optional sign. Printing and reading are inverse on the plain
form; the reader also accepts a sign and leading zeros.
-/

namespace Decimal

variable {ds : List UInt8} {b : UInt8}

/-- The byte is one of `0` … `9`. -/
def isDigit (b : UInt8) : Bool := decide (48 ≤ b.toNat ∧ b.toNat ≤ 57)

/-- The plain decimal form: no sign and no leading zero. -/
def ofNat (n : Nat) : List UInt8 := (Nat.toDigits 10 n).map Char.toUInt8

/-- The plain decimal form with a minus sign for negative numbers. -/
def ofInt : Int → List UInt8
  | .ofNat n => ofNat n
  | .negSucc n => 45 :: ofNat (n + 1)

/-- Positional value of a string of digits. -/
def value (ds : List UInt8) : Nat := ds.foldl (fun n d => 10 * n + (d.toNat - 48)) 0

/-- A non-empty string of digits, read as a number. -/
def parseNat (ds : List UInt8) : Option Nat :=
  if ds ≠ [] ∧ ds.all isDigit = true then some (value ds) else none

/-- The signed 64-bit reader: one optional sign, then digits, in range. -/
def parseInt64 : List UInt8 → Option Int
  | [] => none
  | c :: ds =>
    if c = 45 then
      (parseNat ds).bind fun n => if n ≤ 2 ^ 63 then some (-(n : Int)) else none
    else
      (parseNat (if c = 43 then ds else c :: ds)).bind fun n =>
        if n < 2 ^ 63 then some (n : Int) else none

/-- The 64-bit two's complement value of an integer. -/
def wrap64 (n : Int) : Int := n.bmod (2 ^ 64)

theorem wrap64_of_small {n : Int} (h : -(2 ^ 63) ≤ n) (h' : n < 2 ^ 63) : wrap64 n = n := by
  unfold wrap64
  rw [Int.bmod_eq_of_le] <;> omega

theorem ofNat_ne_nil (n : Nat) : ofNat n ≠ [] := by
  simp [ofNat, Nat.toDigits_ne_nil]

/-- The byte of a decimal digit character. -/
theorem toNat_toUInt8 {c : Char} (h : c.isDigit = true) :
    c.toUInt8.toNat = c.toNat ∧ 48 ≤ c.toNat ∧ c.toNat ≤ 57 := by
  have hc : 48 ≤ c.toNat ∧ c.toNat ≤ 57 := by
    simp only [Char.isDigit, Bool.and_eq_true, decide_eq_true_eq] at h
    exact ⟨UInt32.le_iff_toNat_le.1 h.1, UInt32.le_iff_toNat_le.1 h.2⟩
  refine ⟨?_, hc⟩
  show c.val.toUInt8.toNat = c.val.toNat
  rw [UInt32.toNat_toUInt8]
  exact Nat.mod_eq_of_lt (Nat.lt_of_le_of_lt hc.2 (by decide))

theorem isDigit_of_mem_ofNat {n : Nat} (h : b ∈ ofNat n) : isDigit b = true := by
  obtain ⟨c, hc, rfl⟩ := List.mem_map.1 h
  have hd := toNat_toUInt8 (Nat.isDigit_of_mem_toDigits (by decide) (by decide) hc)
  simp only [isDigit, decide_eq_true_eq]
  omega

@[simp] theorem value_ofNat (n : Nat) : value (ofNat n) = n := by
  -- the fold over bytes is the fold over characters: both subtract the digit zero
  have key : ∀ (l : List Char) (m : Nat), (∀ c ∈ l, c.isDigit = true) →
      (l.map Char.toUInt8).foldl (fun n d => 10 * n + (d.toNat - 48)) m =
        Nat.ofDigitChars 10 l m := by
    intro l
    induction l with
    | nil =>
      intro m _
      simp
    | cons c l ih =>
      intro m hl
      have hc := toNat_toUInt8 (hl c List.mem_cons_self)
      rw [List.map_cons, List.foldl_cons, ih _ fun d hd => hl d (List.mem_cons_of_mem _ hd),
        Nat.ofDigitChars_cons, hc.1]
      rfl
  have hdig : ∀ c ∈ Nat.toDigits 10 n, c.isDigit = true :=
    fun c hc => Nat.isDigit_of_mem_toDigits (by decide) (by decide) hc
  rw [value, ofNat, key _ _ hdig, Nat.ofDigitChars_ten_toDigits]

theorem ofNat_injective {m n : Nat} (h : ofNat m = ofNat n) : m = n := by
  have := congrArg value h
  rwa [value_ofNat, value_ofNat] at this

@[simp] theorem parseNat_ofNat (n : Nat) : parseNat (ofNat n) = some n := by
  rw [parseNat, if_pos ⟨ofNat_ne_nil n, List.all_eq_true.2 fun _ => isDigit_of_mem_ofNat⟩, value_ofNat]

/-- A byte that is not a digit does not occur in the decimal form. -/
theorem not_mem_ofNat (h : isDigit b = false) (n : Nat) : b ∉ ofNat n := by
  intro hb
  rw [isDigit_of_mem_ofNat hb] at h
  cases h

theorem parseInt64_ofNat {n : Nat} (h : n < 2 ^ 63) : parseInt64 (ofNat n) = some (n : Int) := by
  cases hds : ofNat n with
  | nil => exact absurd hds (ofNat_ne_nil n)
  | cons c ds =>
    have hc : isDigit c = true := isDigit_of_mem_ofNat (by rw [hds]; exact List.mem_cons_self)
    have h45 : c ≠ 45 := by
      rintro rfl
      exact absurd hc (by decide)
    have h43 : c ≠ 43 := by
      rintro rfl
      exact absurd hc (by decide)
    rw [parseInt64, if_neg h45, if_neg h43, ← hds, parseNat_ofNat]
    exact if_pos h

/-- Every 64-bit number is read back from its decimal form. -/
theorem parseInt64_ofInt {n : Int} (h : -(2 ^ 63) ≤ n) (h' : n < 2 ^ 63) :
    parseInt64 (ofInt n) = some n := by
  cases n with
  | ofNat n =>
    rw [Int.ofNat_eq_natCast] at h'
    exact parseInt64_ofNat (by omega)
  | negSucc n =>
    have hle : n + 1 ≤ 2 ^ 63 := by omega
    rw [ofInt, parseInt64, if_pos rfl, parseNat_ofNat, Option.bind_some, if_pos hle]
    rfl

/-- What the reader accepts lies in the 64-bit range. -/
theorem parseInt64_range {b : List UInt8} {n : Int} (h : parseInt64 b = some n) :
    -(2 ^ 63) ≤ n ∧ n < 2 ^ 63 := by
  cases b with
  | nil => cases h
  | cons c ds =>
    simp only [parseInt64] at h
    split at h
    · obtain ⟨m, -, hm⟩ := Option.bind_eq_some_iff.1 h
      split at hm
      · cases hm
        omega
      · cases hm
    · obtain ⟨m, -, hm⟩ := Option.bind_eq_some_iff.1 h
      split at hm
      · cases hm
        omega
      · cases hm

theorem isDigit_of_parseNat {n : Nat} (h : parseNat ds = some n) (hb : b ∈ ds) : isDigit b = true := by
  unfold parseNat at h
  split at h
  · next hds => exact List.all_eq_true.1 hds.2 b hb
  · cases h

/-- What the reader accepts consists of digits and a sign. -/
theorem not_mem_of_parseInt64 {n : Int} (h : parseInt64 ds = some n)
    (hd : isDigit b = false) (hm : b ≠ 45) (hp : b ≠ 43) : b ∉ ds := by
  intro hb
  cases ds with
  | nil => cases hb
  | cons c ds =>
    simp only [parseInt64] at h
    split at h
    · next hc =>
      obtain ⟨m, hm', -⟩ := Option.bind_eq_some_iff.1 h
      rcases List.mem_cons.1 hb with rfl | hb
      · exact hm hc
      · rw [isDigit_of_parseNat hm' hb] at hd
        cases hd
    · obtain ⟨m, hm', -⟩ := Option.bind_eq_some_iff.1 h
      have hb' : b ∈ (if c = 43 then ds else c :: ds) := by
        split
        · next hc =>
          rcases List.mem_cons.1 hb with rfl | hb
          · exact absurd hc hp
          · exact hb
        · exact hb
      rw [isDigit_of_parseNat hm' hb'] at hd
      cases hd

/-! ## The plain form among all strings of digits -/

theorem ofNat_append_ofNat {m d : Nat} (hm : 0 < m) (hd : d < 10) :
    ofNat m ++ ofNat d = ofNat (10 * m + d) := by
  rw [ofNat, ofNat, ofNat, ← List.map_append, Nat.toDigits_append_toDigits (by decide) hm hd]

/-- Every digit is the plain form of its value. -/
theorem ofNat_digit (hb : isDigit b = true) : ofNat (b.toNat - 48) = [b] := by
  have hall : ∀ n < 256, isDigit (UInt8.ofNat n) = true →
      ofNat ((UInt8.ofNat n).toNat - 48) = [UInt8.ofNat n] := by
    decide +kernel
  have hn := hall b.toNat b.toNat_lt
  rw [UInt8.ofNat_toNat] at hn
  exact hn hb

theorem value_concat (ds : List UInt8) (b : UInt8) :
    value (ds ++ [b]) = 10 * value ds + (b.toNat - 48) := by
  rw [value, List.foldl_append]
  rfl

theorem digit_lt_ten (hb : isDigit b = true) : b.toNat - 48 < 10 := by
  simp only [isDigit, decide_eq_true_eq] at hb
  omega

/-- A string of digits that does not start with a zero is the plain form of
its value. -/
theorem ofNat_value (hne : ds ≠ []) (hds : ∀ b ∈ ds, isDigit b = true)
    (hzero : ds.head? ≠ some 48) : 0 < value ds ∧ ofNat (value ds) = ds := by
  -- from the last digit: the digits in front of it are such a string, or there are none
  induction ds using List.reverseRecOn with
  | nil => exact absurd rfl hne
  | append_singleton ds b ih =>
    have hb : isDigit b = true := hds b (by simp)
    rw [value_concat]
    cases ds with
    | nil =>
      have hb48 : b.toNat ≠ 48 := by
        intro h
        exact hzero (by rw [List.nil_append, List.head?_cons, ← UInt8.ofNat_toNat (x := b), h]; rfl)
      simp only [isDigit, decide_eq_true_eq] at hb
      refine ⟨by omega, ?_⟩
      rw [List.nil_append, ← ofNat_digit (b := b) (by simpa [isDigit] using hb)]
      simp [value]
    | cons d ds =>
      obtain ⟨hpos, hform⟩ := ih (by simp) (fun c hc => hds c (List.mem_append_left _ hc)) hzero
      refine ⟨by omega, ?_⟩
      rw [← ofNat_append_ofNat hpos (digit_lt_ten hb), hform, ofNat_digit hb]

/-- The plain form of a positive number does not start with a zero. -/
theorem head_ofNat_ne {n : Nat} (hn : n ≠ 0) : (ofNat n).head? ≠ some 48 := by
  induction n using Nat.strongRecOn with
  | ind n ih =>
    rcases Nat.lt_or_ge n 10 with hlt | hge
    · have hall : ∀ m < 10, m ≠ 0 → (ofNat m).head? ≠ some 48 := by decide
      exact hall n hlt hn
    · have hq : 0 < n / 10 := by omega
      have hsplit := ofNat_append_ofNat hq (Nat.mod_lt n (by decide : 0 < 10))
      rw [Nat.div_add_mod] at hsplit
      rw [← hsplit, List.head?_append_of_ne_nil _ (ofNat_ne_nil _)]
      exact ih (n / 10) (by omega) (by omega)

/-- The digits in front of a byte that is none are read off whole. -/
theorem takeWhile_digits {rest : List UInt8} (hds : ∀ d ∈ ds, isDigit d = true)
    (hb : isDigit b = false) : (ds ++ b :: rest).takeWhile isDigit = ds := by
  rw [List.takeWhile_append_of_pos hds, List.takeWhile_cons_of_neg (by simp [hb]), List.append_nil]

theorem dropWhile_digits {rest : List UInt8} (hds : ∀ d ∈ ds, isDigit d = true)
    (hb : isDigit b = false) : (ds ++ b :: rest).dropWhile isDigit = b :: rest := by
  rw [List.dropWhile_append_of_pos hds, List.dropWhile_cons_of_neg (by simp [hb])]

end Decimal
