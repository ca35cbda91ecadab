import Cgsf.BaseLayer.SFFastCRC

/-!
# The table and the unrolled loop
-/

namespace Cgsf.Proof.BaseLayer
open Cgsf.BaseLayer Library

theorem crcTable_eq : ∀ i < 256, crcTable.getD i 0 = (crcBit crcPolynomial)^[8] (BitVec.ofNat 32 i) := by
  decide +kernel

theorem do1_eq (crc : DWORD) (b : BitVec 8) : SFFastCRC.do1 crc b = crcByte crcPolynomial crc b := by
  have low : ((crc ^^^ b.setWidth 32) &&& 0xff).toNat < 256 := by
    rw [BitVec.toNat_and]
    exact Nat.lt_succ_of_le Nat.and_le_right
  rw [SFFastCRC.do1, crcTable_eq _ low, BitVec.ofNat_toNat, BitVec.setWidth_eq, crcByte_table]
  rfl

theorem foldl_do1 (crc : DWORD) (bytes : List (BitVec 8)) :
    bytes.foldl SFFastCRC.do1 crc = bytes.foldl (crcByte crcPolynomial) crc :=
  congrArg (List.foldl · crc bytes) (funext fun crc => funext fun b => do1_eq crc b)

theorem simpleLoop_eq (crc : DWORD) (bytes : List (BitVec 8)) :
    SFFastCRC.simpleLoop crc bytes = bytes.foldl SFFastCRC.do1 crc := by
  induction crc, bytes using SFFastCRC.simpleLoop.induct with
  | case1 crc b₁ b₂ b₃ b₄ b₅ b₆ b₇ b₈ rest ih =>
      rw [SFFastCRC.simpleLoop, ih]
      rfl
  | case2 crc rest short =>
      rw [SFFastCRC.simpleLoop]
      exact short

theorem oneByte_eq (crc : DWORD) (bytes : List (BitVec 8)) (bufferSize : Nat) :
    SFFastCRC.oneByte crc bytes bufferSize = if bufferSize ≤ bytes.length then
      some ((bytes.take bufferSize).foldl SFFastCRC.do1 crc) else none := by
  induction bufferSize generalizing crc bytes with
  | zero => rw [SFFastCRC.oneByte, if_pos (Nat.zero_le _), List.take_zero, List.foldl_nil]
  | succ bufferSize ih =>
      cases bytes with
      | nil => rfl
      | cons b rest =>
          rw [SFFastCRC.oneByte, ih]
          simp only [List.length_cons, Nat.add_le_add_iff_right, List.take_succ_cons, List.foldl_cons]

/-- Eight bytes at a time and then one at a time is one at a time. -/
theorem eightBytes_oneByte (crc : DWORD) (bytes : List (BitVec 8)) (bufferSize : Nat) :
    ((SFFastCRC.eightBytes crc bytes bufferSize).bind fun left =>
      SFFastCRC.oneByte left.1 left.2.1 left.2.2) = SFFastCRC.oneByte crc bytes bufferSize := by
  induction crc, bytes, bufferSize using SFFastCRC.eightBytes.induct with
  | case1 crc b₁ b₂ b₃ b₄ b₅ b₆ b₇ b₈ rest bufferSize ih =>
      rw [SFFastCRC.eightBytes, ih]
      rfl
  | case2 crc rest bufferSize short large =>
      have few : ¬bufferSize ≤ rest.length := by
        intro enough
        match rest, large.trans enough with
        | b₁ :: b₂ :: b₃ :: b₄ :: b₅ :: b₆ :: b₇ :: b₈ :: rest, _ =>
            exact short _ _ _ _ _ _ _ _ rest (bufferSize - 8) rfl (Nat.sub_add_cancel large).symm
      rw [SFFastCRC.eightBytes, if_pos large, oneByte_eq, if_neg few]
      · rfl
      · exact short
  | case3 crc rest bufferSize short small =>
      rw [SFFastCRC.eightBytes, if_neg small]
      · rfl
      · exact short

theorem getSizedCRC_eq (pBuffer : List (BitVec 8)) (bufferSize : Nat) :
    SFFastCRC.getSizedCRC pBuffer bufferSize =
      (SFFastCRC.oneByte 0xffffffff pBuffer bufferSize).map fun crc => ~~~crc := by
  rw [SFFastCRC.getSizedCRC, eightBytes_oneByte]
  exact congrArg (Option.map · _) (funext fun crc => BitVec.xor_allOnes)

end Cgsf.Proof.BaseLayer
