import Mathlib.Data.BitVec

/-! # Cyclic redundancy checks

The check of a byte string, bit by bit: a byte is added at the top of the
register, which is then shifted left eight times, and each one that falls out
adds the polynomial. A step is linear in exclusive or, so eight of them can be
looked up by the byte at the top of the register.

* `bitwise`: the check, bit by bit, without reflection and final xor;
* `entry`: the remainders that such a table holds;
* `byteStep_eq_entry`: a byte at a time from the table.
-/

namespace Crc

variable {w : Nat} (poly : BitVec w)

/-- One shift of the register. -/
def bitStep (crc : BitVec w) : BitVec w :=
  if crc.msb then (crc <<< 1) ^^^ poly else crc <<< 1

/-- That many shifts. -/
def shifts : Nat → BitVec w → BitVec w
  | 0, crc => crc
  | n + 1, crc => shifts n (bitStep poly crc)

/-- The byte at the top of a register. -/
def atTop (w : Nat) (b : BitVec 8) : BitVec w := b.setWidth w <<< (w - 8)

/-- The register after one more byte. -/
def byteStep (crc : BitVec w) (b : BitVec 8) : BitVec w := shifts poly 8 (crc ^^^ atTop w b)

/-- The check of a byte string. -/
def bitwise (init : BitVec w) (bs : List (BitVec 8)) : BitVec w := bs.foldl (byteStep poly) init

/-- The remainder of a byte. -/
def entry (b : BitVec 8) : BitVec w := shifts poly 8 (atTop w b)

/-! ## Linearity -/

theorem bitStep_xor (x y : BitVec w) :
    bitStep poly (x ^^^ y) = bitStep poly x ^^^ bitStep poly y := by
  have hcancel : ∀ a b : BitVec w, a ^^^ b = (a ^^^ poly) ^^^ (b ^^^ poly) := by
    intro a b
    rw [BitVec.xor_assoc, BitVec.xor_comm b, ← BitVec.xor_assoc poly, BitVec.xor_self,
      BitVec.zero_xor]
  unfold bitStep
  rw [BitVec.msb_xor, BitVec.shiftLeft_xor_distrib]
  -- a bit that falls out of both adds the polynomial twice
  cases hx : x.msb <;> cases hy : y.msb
  · rfl
  · exact BitVec.xor_assoc _ _ _
  · show (x <<< 1 ^^^ y <<< 1) ^^^ poly = (x <<< 1 ^^^ poly) ^^^ y <<< 1
    rw [BitVec.xor_assoc, BitVec.xor_comm (y <<< 1), ← BitVec.xor_assoc]
  · exact hcancel _ _

theorem shifts_xor (n : Nat) (x y : BitVec w) :
    shifts poly n (x ^^^ y) = shifts poly n x ^^^ shifts poly n y := by
  induction n generalizing x y with
  | zero => rfl
  | succ n ih => rw [shifts, shifts, shifts, bitStep_xor, ih]

/-- A register whose top bits are clear is only shifted. -/
theorem shifts_of_clear {n : Nat} {x : BitVec w} (h : ∀ i, w ≤ i + n → x.getLsbD i = false) :
    shifts poly n x = x <<< n := by
  induction n generalizing x with
  | zero => simp [shifts]
  | succ n ih =>
    have hmsb : x.msb = false := by
      rw [BitVec.msb_eq_getLsbD_last]
      rcases Nat.eq_zero_or_pos w with rfl | hw
      · exact BitVec.getLsbD_of_ge _ _ (Nat.zero_le _)
      · exact h _ (by omega)
    have hstep : bitStep poly x = x <<< 1 := by
      rw [bitStep, hmsb]
      rfl
    rw [shifts, hstep, ih, ← BitVec.shiftLeft_add, Nat.add_comm]
    intro i hi
    rw [BitVec.getLsbD_shiftLeft]
    by_cases hzero : i < 1
    · simp [hzero]
    · rw [h (i - 1) (by omega), Bool.and_false]

/-! ## The table -/

/-- The register is its top byte and the rest. -/
theorem top_xor_rest (crc : BitVec w) (hw : 8 ≤ w) :
    crc = atTop w ((crc >>> (w - 8)).setWidth 8) ^^^ (crc &&& BitVec.allOnes w >>> 8) := by
  refine BitVec.eq_of_getLsbD_eq fun i hi => ?_
  rw [atTop, BitVec.getLsbD_xor, BitVec.getLsbD_and, BitVec.getLsbD_shiftLeft,
    BitVec.getLsbD_setWidth, BitVec.getLsbD_setWidth, BitVec.getLsbD_ushiftRight,
    BitVec.getLsbD_ushiftRight, BitVec.getLsbD_allOnes]
  by_cases htop : i < w - 8
  · have hlow : 8 + i < w := by omega
    simp [htop, hlow]
  · have hrest : ¬ 8 + i < w := by omega
    have hindex : w - 8 + (i - (w - 8)) = i := by omega
    have hbyte : i - (w - 8) < 8 := by omega
    simp [htop, hrest, hindex, hbyte, hi]
    omega

theorem atTop_xor (w : Nat) (a b : BitVec 8) : atTop w (a ^^^ b) = atTop w a ^^^ atTop w b := by
  rw [atTop, BitVec.setWidth_xor, BitVec.shiftLeft_xor_distrib]
  rfl

/-- **A byte at a time.** Eight shifts of the register with the next byte are the table's entry
for the byte at the top, and the rest of the register moved up by a byte. -/
theorem byteStep_eq_entry (hw : 8 ≤ w) (crc : BitVec w) (b : BitVec 8) :
    byteStep poly crc b = (crc <<< 8) ^^^ entry poly ((crc >>> (w - 8)).setWidth 8 ^^^ b) := by
  have hclear : ∀ i, w ≤ i + 8 → (crc &&& BitVec.allOnes w >>> 8).getLsbD i = false := by
    intro i hi
    rw [BitVec.getLsbD_and, BitVec.getLsbD_ushiftRight, BitVec.getLsbD_allOnes,
      decide_eq_false (by omega), Bool.and_false]
  have hshift : (crc &&& BitVec.allOnes w >>> 8) <<< 8 = crc <<< 8 := by
    refine BitVec.eq_of_getLsbD_eq fun i hi => ?_
    rw [BitVec.getLsbD_shiftLeft, BitVec.getLsbD_shiftLeft, BitVec.getLsbD_and,
      BitVec.getLsbD_ushiftRight, BitVec.getLsbD_allOnes]
    by_cases hlow : i < 8
    · simp [hlow]
    · simp [show 8 + (i - 8) < w by omega]
  calc byteStep poly crc b
      = shifts poly 8 ((crc &&& BitVec.allOnes w >>> 8) ^^^
          atTop w ((crc >>> (w - 8)).setWidth 8 ^^^ b)) := by
        rw [byteStep, atTop_xor, ← BitVec.xor_assoc,
          BitVec.xor_comm (crc &&& BitVec.allOnes w >>> 8), ← top_xor_rest crc hw]
    _ = (crc <<< 8) ^^^ entry poly ((crc >>> (w - 8)).setWidth 8 ^^^ b) := by
        rw [shifts_xor, shifts_of_clear poly hclear, hshift]
        rfl

end Crc
