import Cgsf.Engine.SFChecksum
import Cgsf.Proof.BaseLayer.SFFastCRC

/-!
# The two check sums
-/

namespace Cgsf.Proof.Engine.SFChecksum
open Cgsf.BaseLayer Cgsf.Engine Library Proof.BaseLayer

theorem crc32Table_eq : crc32Table = crcTable := rfl

theorem calcCrc32_eq (byte : BitVec 8) (dwCrc32 : DWORD) :
    SFChecksum.calcCrc32 byte dwCrc32 = SFFastCRC.do1 dwCrc32 byte := by
  have index : byte.setWidth 32 ^^^ (dwCrc32 &&& 0xFF) = (dwCrc32 ^^^ byte.setWidth 32) &&& 0xff := by
    apply BitVec.eq_of_getLsbD_eq
    intro i inside
    have mask : (0xFF : DWORD).getLsbD i = decide (i < 8) := getLsbD_255 inside
    simp only [BitVec.getLsbD_xor, BitVec.getLsbD_and, BitVec.getLsbD_setWidth, mask]
    by_cases low : i < 8
    · simp [low, inside, Bool.xor_comm]
    · have above : byte.getLsbD i = false := BitVec.getLsbD_of_ge _ _ (Nat.not_lt.mp low)
      simp [low, above]
  rw [SFChecksum.calcCrc32, SFFastCRC.do1, index, crc32Table_eq, BitVec.xor_comm]

theorem calcLoop_eq (dwCrc32 : DWORD) (buffer : List (BitVec 8)) (size : Nat) :
    SFChecksum.calcLoop dwCrc32 buffer size = SFFastCRC.oneByte dwCrc32 buffer size := by
  induction size generalizing dwCrc32 buffer with
  | zero => rw [SFChecksum.calcLoop, SFFastCRC.oneByte]
  | succ size ih =>
      cases buffer with
      | nil => rfl
      | cons byte rest => rw [SFChecksum.calcLoop, SFFastCRC.oneByte, calcCrc32_eq, ih]

/-- Over every buffer and for every size both give the same, and over the whole buffer the CRC-32 of
its bytes. -/
theorem getSizedCRC_eq_fromBuffer (buffer : List (BitVec 8)) :
    (∀ size, SFFastCRC.getSizedCRC buffer size = SFChecksum.fromBuffer buffer size) ∧
      SFChecksum.fromBuffer buffer buffer.length = some (crcFrom crcPolynomial 0 buffer) := by
  constructor
  · intro size
    rw [getSizedCRC_eq, SFChecksum.fromBuffer, calcLoop_eq]
  · rw [SFChecksum.fromBuffer, calcLoop_eq, oneByte_eq, if_pos (Nat.le_refl _), List.take_length,
      foldl_do1, crcFrom]
    rfl

end Cgsf.Proof.Engine.SFChecksum
