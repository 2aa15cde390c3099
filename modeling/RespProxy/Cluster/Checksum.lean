import RespProxy.Cluster.Slot
import RespProxy.Lib.Crc

/-! # The checksum behind hash slots (`internal/cluster/crc16.go`)

`crc16` takes a byte at a time from a table of 256 words. The words are the
remainders of the bytes, so the result is CRC-16/XMODEM, the checksum that
Redis Cluster defines its slots with.
-/

namespace RespProxy.Cluster

open Resp

/-- The polynomial of CRC-16/XMODEM. -/
def xmodemPoly : BitVec 16 := 0x1021#16

/-- CRC-16/XMODEM, bit by bit: initial value 0, no reflection, no final xor. -/
def xmodem (b : Bytes) : BitVec 16 := Crc.bitwise xmodemPoly 0#16 (b.map UInt8.toBitVec)

/-- All words of the table. -/
theorem crc16tab_eq_entries :
    crc16tab.map UInt16.toBitVec =
      (List.range 256).map fun i => Crc.entry xmodemPoly (BitVec.ofNat 8 i) := by
  decide +kernel

theorem toBitVec_crc16tab (i : BitVec 8) :
    (crc16tab.getD i.toNat 0).toBitVec = Crc.entry xmodemPoly i := by
  have hword := congrArg (fun l : List (BitVec 16) => l[i.toNat]?) crc16tab_eq_entries
  rw [List.getElem?_map, List.getElem?_map, List.getElem?_range i.isLt, Option.map_some,
    BitVec.ofNat_toNat, BitVec.setWidth_eq] at hword
  obtain ⟨word, hat, hword⟩ := Option.map_eq_some_iff.1 hword
  rw [List.getD_eq_getElem?_getD, hat]
  exact hword

/-- The index that `crc16` computes is the byte at the top of the register and the next one. -/
theorem crc16_index (crc : UInt16) (c : UInt8) :
    (((crc >>> 8) ^^^ c.toUInt16) &&& 0x00ff).toNat =
      ((crc.toBitVec >>> 8).setWidth 8 ^^^ c.toBitVec).toNat := by
  have hmask : ∀ x : BitVec 16, (x &&& 0x00ff#16).toNat = (x.setWidth 8).toNat := by
    intro x
    rw [BitVec.toNat_and, BitVec.toNat_setWidth]
    exact Nat.and_two_pow_sub_one_eq_mod x.toNat 8
  show (((crc >>> 8) ^^^ c.toUInt16) &&& 0x00ff).toBitVec.toNat = _
  rw [UInt16.toBitVec_and, UInt16.toBitVec_xor, UInt16.toBitVec_shiftRight]
  refine (hmask _).trans ?_
  rw [BitVec.setWidth_xor, UInt8.toBitVec_toUInt16, BitVec.setWidth_setWidth_of_le _ (by decide),
    BitVec.setWidth_eq]
  rfl

/-- A round of the loop is eight shifts. -/
theorem crc16_round (crc : UInt16) (c : UInt8) :
    ((crc <<< 8) ^^^ crc16tab.getD (((crc >>> 8) ^^^ c.toUInt16) &&& 0x00ff).toNat 0).toBitVec =
      Crc.byteStep xmodemPoly crc.toBitVec c.toBitVec := by
  rw [UInt16.toBitVec_xor, crc16_index, toBitVec_crc16tab, UInt16.toBitVec_shiftLeft,
    Crc.byteStep_eq_entry xmodemPoly (by decide)]
  rfl

theorem toBitVec_crc16 (b : Bytes) : (crc16 b).toBitVec = xmodem b := by
  -- the two folds agree from any register on
  have hfold : ∀ crc : UInt16, (b.foldl (fun (crc : UInt16) c => (crc <<< 8) ^^^
      crc16tab.getD (((crc >>> 8) ^^^ c.toUInt16) &&& 0x00ff).toNat 0) crc).toBitVec =
      Crc.bitwise xmodemPoly crc.toBitVec (b.map UInt8.toBitVec) := by
    induction b with
    | nil => exact fun _ => rfl
    | cons c b ih =>
      intro crc
      rw [List.foldl_cons, ih, crc16_round]
      rfl
  exact hfold 0

/-- The low 14 bits. -/
theorem toNat_and_slotMask (crc : UInt16) : (crc &&& 0x3fff).toNat = crc.toNat % slotCount := by
  show (crc &&& 0x3fff).toBitVec.toNat = _
  rw [UInt16.toBitVec_and, BitVec.toNat_and]
  exact Nat.and_two_pow_sub_one_eq_mod crc.toNat 14

/-- **The slot of a key.** `crc16` is CRC-16/XMODEM; so the slot of a key is that checksum of its
hash tag, modulo the number of slots. -/
theorem keySlot_eq_xmodem (b key : Bytes) (openTag closeTag : UInt8) :
    (crc16 b).toBitVec = xmodem b ∧
      keySlot key openTag closeTag = (xmodem (hashTag key openTag closeTag)).toNat % slotCount ∧
      keySlot key openTag closeTag < slotCount := by
  have hslot : keySlot key openTag closeTag =
      (xmodem (hashTag key openTag closeTag)).toNat % slotCount := by
    rw [keySlot, toNat_and_slotMask, ← toBitVec_crc16]
    rfl
  refine ⟨toBitVec_crc16 b, hslot, ?_⟩
  rw [hslot]
  exact Nat.mod_lt _ (by decide)

/-- The check value of CRC-16/XMODEM. -/
example : xmodem (lit "123456789") = 0x31c3#16 := by decide +kernel

end RespProxy.Cluster
