import Mathlib.Data.BitVec
import Mathlib.Logic.Function.Iterate

/-!
# Cyclic redundancy checks

The register is shifted to the low end, one bit or, by a table, one byte at a time. A byte leads no
two registers to the same one when the polynomial has its highest bit.
-/

namespace Cgsf.Library

variable {w : Nat} (poly : BitVec w)

def crcBit (crc : BitVec w) : BitVec w :=
  if crc.getLsbD 0 then (crc >>> 1) ^^^ poly else crc >>> 1

def crcByte (crc : BitVec w) (b : BitVec 8) : BitVec w := (crcBit poly)^[8] (crc ^^^ b.setWidth w)

/-- The check value of the bytes behind those whose check value is `start`. -/
def crcFrom (start : BitVec w) (bytes : List (BitVec 8)) : BitVec w :=
  ~~~(bytes.foldl (crcByte poly) (~~~start))

variable {poly}

theorem crcBit_xor (x y : BitVec w) : crcBit poly (x ^^^ y) = crcBit poly x ^^^ crcBit poly y := by
  simp only [crcBit, BitVec.getLsbD_xor, BitVec.ushiftRight_xor_distrib]
  cases x.getLsbD 0 <;> cases y.getLsbD 0
  · rfl
  · exact BitVec.xor_assoc ..
  · simp only [Bool.xor_false, if_true, Bool.false_eq_true, if_false]
    rw [BitVec.xor_assoc, BitVec.xor_comm (y >>> 1), BitVec.xor_assoc]
  · simp only [Bool.xor_self, if_true, Bool.false_eq_true, if_false]
    rw [BitVec.xor_assoc, ← BitVec.xor_assoc poly, BitVec.xor_comm poly, BitVec.xor_assoc (y >>> 1),
      BitVec.xor_self, BitVec.xor_zero]

theorem crcBits_xor (n : Nat) (x y : BitVec w) :
    (crcBit poly)^[n] (x ^^^ y) = (crcBit poly)^[n] x ^^^ (crcBit poly)^[n] y := by
  induction n generalizing x y with
  | zero => rfl
  | succ n ih => rw [Function.iterate_succ_apply, crcBit_xor, ih]; rfl

/-- A register whose low bits are not set is only shifted. -/
theorem crcBits_high {x : BitVec w} {n : Nat} (low : ∀ i < n, x.getLsbD i = false) :
    (crcBit poly)^[n] x = x >>> n := by
  induction n with
  | zero => exact (BitVec.ushiftRight_zero x).symm
  | succ n ih =>
      have last : (x >>> n).getLsbD 0 = false := by
        rw [BitVec.getLsbD_ushiftRight, Nat.add_zero]
        exact low n (Nat.lt_succ_self n)
      rw [Function.iterate_succ_apply', ih fun i less => low i (Nat.lt_succ_of_lt less), crcBit, last]
      exact (BitVec.shiftRight_add x n 1).symm

/-- The register without its low byte, and its low byte. -/
theorem crc_split (x : BitVec w) : (x &&& ~~~255#w) ^^^ (x &&& 255#w) = x := by
  apply BitVec.eq_of_getLsbD_eq
  intro i inside
  simp only [BitVec.getLsbD_xor, BitVec.getLsbD_and, BitVec.getLsbD_not, inside, decide_true,
    Bool.true_and]
  cases x.getLsbD i <;> cases (255#w).getLsbD i <;> rfl

theorem getLsbD_255 {i : Nat} (inside : i < w) : (255#w).getLsbD i = decide (i < 8) := by
  rw [BitVec.getLsbD_ofNat, show (255 : Nat) = 2 ^ 8 - 1 from rfl, Nat.testBit_two_pow_sub_one]
  simp [inside]

/-- The table holds what eight shifts make of one byte. -/
theorem crcByte_table (crc : BitVec w) (b : BitVec 8) :
    crcByte poly crc b = (crcBit poly)^[8] ((crc ^^^ b.setWidth w) &&& 255#w) ^^^ (crc >>> 8) := by
  have high : ∀ i < 8, ((crc ^^^ b.setWidth w) &&& ~~~255#w).getLsbD i = false := by
    intro i low
    by_cases inside : i < w
    · simp [getLsbD_255 inside, low, inside]
    · exact BitVec.getLsbD_of_ge _ _ (not_lt.mp inside)
  have shifted : ((crc ^^^ b.setWidth w) &&& ~~~255#w) >>> 8 = crc >>> 8 := by
    apply BitVec.eq_of_getLsbD_eq
    intro i _
    rw [BitVec.getLsbD_ushiftRight, BitVec.getLsbD_ushiftRight]
    by_cases inside : 8 + i < w
    · have above : b.getLsbD (8 + i) = false := BitVec.getLsbD_of_ge _ _ (Nat.le_add_right 8 i)
      have kept : decide (8 + i < 8) = false := decide_eq_false (by omega)
      simp only [BitVec.getLsbD_and, BitVec.getLsbD_not, BitVec.getLsbD_xor, BitVec.getLsbD_setWidth,
        getLsbD_255 inside, above, kept, inside, decide_true, Bool.and_false, Bool.xor_false,
        Bool.not_false, Bool.and_true]
    · rw [BitVec.getLsbD_of_ge _ _ (not_lt.mp inside), BitVec.getLsbD_of_ge _ _ (not_lt.mp inside)]
  rw [crcByte, ← crc_split (crc ^^^ b.setWidth w), crcBits_xor, crcBits_high high, shifted,
    crc_split, BitVec.xor_comm]

/-! ## No two starts agree -/

theorem crcBit_injective (top : poly.msb = true) : Function.Injective (crcBit poly) := by
  intro x y same
  have wide : 0 < w := by
    by_contra none
    obtain rfl : w = 0 := by omega
    contradiction
  have msb (z : BitVec w) : (crcBit poly z).msb = z.getLsbD 0 := by
    have shifted : (z >>> 1).msb = false := by
      rw [BitVec.msb_eq_getLsbD_last, BitVec.getLsbD_ushiftRight]
      exact BitVec.getLsbD_of_ge _ _ (by omega)
    cases low : z.getLsbD 0
    · rw [crcBit, low, if_neg Bool.false_ne_true, shifted]
    · rw [crcBit, low, if_pos rfl, BitVec.msb_xor, shifted, top]
      rfl
  have lowest : x.getLsbD 0 = y.getLsbD 0 := by rw [← msb, ← msb, same]
  have rest : x >>> 1 = y >>> 1 := by
    rw [crcBit, crcBit, lowest] at same
    split at same
    · exact (BitVec.xor_left_inj poly).mp same
    · exact same
  apply BitVec.eq_of_getLsbD_eq
  intro i _
  cases i with
  | zero => exact lowest
  | succ i =>
      have bit := congrArg (BitVec.getLsbD · i) rest
      simp only [BitVec.getLsbD_ushiftRight] at bit
      rwa [Nat.add_comm] at bit

theorem crcByte_injective (top : poly.msb = true) (b : BitVec 8) :
    Function.Injective (crcByte poly · b) := by
  intro x y same
  exact (BitVec.xor_left_inj _).mp ((crcBit_injective top).iterate 8 same)

theorem crcFrom_inj (top : poly.msb = true) {start start' : BitVec w} {bytes : List (BitVec 8)} :
    crcFrom poly start bytes = crcFrom poly start' bytes ↔ start = start' := by
  have fold : ∀ x y : BitVec w, bytes.foldl (crcByte poly) x = bytes.foldl (crcByte poly) y →
      x = y := by
    induction bytes with
    | nil => exact fun _ _ same => same
    | cons b bytes ih => exact fun x y same => crcByte_injective top b (ih _ _ same)
  constructor
  · intro same
    exact BitVec.not_inj.mp (fold _ _ (BitVec.not_inj.mp same))
  · rintro rfl
    rfl

end Cgsf.Library
