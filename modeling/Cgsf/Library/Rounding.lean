import Mathlib.Data.Int.Log
import Mathlib.Data.Rat.Floor
import Mathlib.Tactic.Linarith
import Mathlib.Tactic.Positivity
import Mathlib.Tactic.FieldSimp
import Mathlib.Tactic.Ring

/-!
# Binary floating point

A positive rational is rounded to the nearest one of so many significant bits, without a bound on
the exponent. The error is relative, and what has no more bits stays as it is.
-/

namespace Cgsf.Library

/-- The nearest integer, and of two the even one. -/
def roundHalfEven (q : ℚ) : ℤ :=
  if Int.fract q < 1 / 2 then ⌊q⌋
  else if 1 / 2 < Int.fract q then ⌊q⌋ + 1
  else if ⌊q⌋ % 2 = 0 then ⌊q⌋ else ⌊q⌋ + 1

/-- The unit in the last place. -/
def ulp (precision : ℕ) (q : ℚ) : ℚ := 2 ^ (Int.log 2 q + 1 - precision)

def roundBinary (precision : ℕ) (q : ℚ) : ℚ :=
  roundHalfEven (q / ulp precision q) * ulp precision q

variable {precision : ℕ} {q : ℚ}

theorem roundHalfEven_intCast (n : ℤ) : roundHalfEven n = n := by
  rw [roundHalfEven, Int.fract_intCast, if_pos (by norm_num), Int.floor_intCast]

theorem abs_roundHalfEven_sub_le (q : ℚ) : |(roundHalfEven q : ℚ) - q| ≤ 1 / 2 := by
  have parts := Int.floor_add_fract q
  have nonneg := Int.fract_nonneg q
  have lt_one := Int.fract_lt_one q
  rw [abs_le, roundHalfEven]
  split_ifs with low high even
  · constructor <;> linarith
  · push_cast
    constructor <;> linarith
  · constructor <;> linarith
  · push_cast
    constructor <;> linarith

theorem ulp_pos (precision : ℕ) (q : ℚ) : 0 < ulp precision q := by
  exact zpow_pos (by norm_num) _

/-- Half a unit is the relative error of a number with the least significand. -/
theorem ulp_le (positive : 0 < q) : ulp precision q / 2 ≤ q / 2 ^ precision := by
  have least : (2 : ℚ) ^ Int.log 2 q ≤ q := by
    exact_mod_cast Int.zpow_log_le_self (b := 2) (by norm_num) positive
  have half : ulp precision q / 2 = 2 ^ Int.log 2 q / 2 ^ precision := by
    rw [ulp, zpow_sub₀ (by norm_num), zpow_add₀ (by norm_num), zpow_one, zpow_natCast]
    ring
  rw [half]
  gcongr

theorem abs_roundBinary_sub_le (positive : 0 < q) :
    |roundBinary precision q - q| ≤ q / 2 ^ precision := by
  have unit := ulp_pos precision q
  have scaled : q = q / ulp precision q * ulp precision q := (div_mul_cancel₀ q unit.ne').symm
  have error := abs_roundHalfEven_sub_le (q / ulp precision q)
  calc |roundBinary precision q - q|
      = |(roundHalfEven (q / ulp precision q) : ℚ) - q / ulp precision q| * ulp precision q := by
        nth_rewrite 2 [scaled]
        rw [roundBinary, ← sub_mul, abs_mul, abs_of_pos unit]
    _ ≤ 1 / 2 * ulp precision q := by gcongr
    _ = ulp precision q / 2 := by ring
    _ ≤ q / 2 ^ precision := ulp_le positive

/-- A significand that has room is not rounded. -/
theorem roundBinary_exact {n : ℕ} (positive : 0 < n) (room : n < 2 ^ precision) (k : ℤ) :
    roundBinary precision (n * 2 ^ k) = n * 2 ^ k := by
  have two : (2 : ℚ) ≠ 0 := by norm_num
  have unit : (0 : ℚ) < 2 ^ k := zpow_pos (by norm_num) k
  have above : (0 : ℚ) < n * 2 ^ k := mul_pos (Nat.cast_pos.mpr positive) unit
  have exponent : Int.log 2 ((n : ℚ) * 2 ^ k) + 1 - precision ≤ k := by
    have least : (2 : ℚ) ^ Int.log 2 ((n : ℚ) * 2 ^ k) ≤ n * 2 ^ k := by
      exact_mod_cast Int.zpow_log_le_self (b := 2) (by norm_num) above
    have most : (n : ℚ) * 2 ^ k < 2 ^ (precision + k) := by
      rw [zpow_add₀ two, zpow_natCast]
      exact mul_lt_mul_of_pos_right (mod_cast room) unit
    have := (zpow_lt_zpow_iff_right₀ (by norm_num : (1 : ℚ) < 2)).mp (least.trans_lt most)
    omega
  obtain ⟨m, shift⟩ := Int.eq_ofNat_of_zero_le (Int.sub_nonneg.mpr exponent)
  have units : (n : ℚ) * 2 ^ k / ulp precision (n * 2 ^ k) = ((n * 2 ^ m : ℤ) : ℚ) := by
    rw [ulp, mul_div_assoc, ← zpow_sub₀ two, shift]
    push_cast
    rw [zpow_natCast]
  rw [roundBinary, units, roundHalfEven_intCast, ← units, div_mul_cancel₀ _ (ulp_pos _ _).ne']

theorem roundBinary_natCast {n : ℕ} (positive : 0 < n) (room : n < 2 ^ precision) :
    roundBinary precision n = n := by
  simpa using roundBinary_exact positive room 0

/-- What is near enough to a quotient, and not below it where it is whole, has its floor. -/
theorem floor_of_near {x : ℚ} {n m : ℕ} (positive : 0 < m) (near : |x - n / m| < 1 / m)
    (whole : m ∣ n → (n : ℚ) / m ≤ x) : ⌊x⌋₊ = n / m := by
  have divisor : (0 : ℚ) < m := Nat.cast_pos.mpr positive
  have split : m * (n / m) + n % m = n := Nat.div_add_mod n m
  have quotient : (n : ℚ) / m = (n / m : ℕ) + (n % m : ℕ) / m := by
    rw [div_eq_iff divisor.ne', add_mul, div_mul_cancel₀ _ divisor.ne', mul_comm]
    exact_mod_cast split.symm
  obtain ⟨low, high⟩ := abs_lt.mp near
  have rest : ((n % m : ℕ) : ℚ) / m ≤ 1 - 1 / m := by
    have most : ((n % m : ℕ) : ℚ) ≤ m - 1 := by
      have := Nat.mod_lt n positive
      rw [le_sub_iff_add_le]
      exact_mod_cast this
    calc ((n % m : ℕ) : ℚ) / m ≤ (m - 1) / m := by gcongr
      _ = 1 - 1 / m := by rw [sub_div, div_self divisor.ne']
  have floor_le : ((n / m : ℕ) : ℚ) ≤ x := by
    rcases Nat.eq_zero_or_pos (n % m) with none | some
    · have below := whole (Nat.dvd_of_mod_eq_zero none)
      rw [quotient, none] at below
      simpa using below
    · have least : 1 / (m : ℚ) ≤ (n % m : ℕ) / m := by
        gcongr
        exact_mod_cast some
      linarith
  rw [Nat.floor_eq_iff ((Nat.cast_nonneg _).trans floor_le)]
  exact ⟨floor_le, by linarith⟩

/-- The quotient of two short numbers in single precision and a half in double precision, cut off:
the half-up quotient. -/
theorem floor_roundBinary_div {d r : ℕ} (above : 0 < d) (positive : 0 < r) (left : d < 2 ^ 22)
    (right : r < 2 ^ 22) :
    ⌊roundBinary 53 (roundBinary 24 (d / r) + 1 / 2)⌋₊ = (2 * d + r) / (2 * r) := by
  have divisor : (0 : ℚ) < r := Nat.cast_pos.mpr positive
  have quotient_pos : (0 : ℚ) < d / r := div_pos (Nat.cast_pos.mpr above) divisor
  have product : (d / r : ℚ) * r = d := div_mul_cancel₀ _ divisor.ne'
  have target : ((2 * d + r : ℕ) : ℚ) / (2 * r : ℕ) = d / r + 1 / 2 := by
    push_cast
    field_simp
  generalize (d / r : ℚ) = quotient at quotient_pos product target ⊢
  have single : |roundBinary 24 quotient - quotient| ≤ quotient / 2 ^ 24 :=
    abs_roundBinary_sub_le quotient_pos
  obtain ⟨least, most⟩ := abs_le.mp single
  have sum_pos : 0 < roundBinary 24 quotient + 1 / 2 := by linarith
  refine floor_of_near (by omega) ?_ ?_
  · have double : |roundBinary 53 (roundBinary 24 quotient + 1 / 2) -
        (roundBinary 24 quotient + 1 / 2)| ≤ (roundBinary 24 quotient + 1 / 2) / 2 ^ 53 :=
      abs_roundBinary_sub_le sum_pos
    obtain ⟨least', most'⟩ := abs_le.mp double
    have dividend_le : (d : ℚ) ≤ 2 ^ 22 := by exact_mod_cast left.le
    have divisor_le : (r : ℚ) ≤ 2 ^ 22 := by exact_mod_cast right.le
    have small : (quotient + quotient / 2 ^ 24 + 1 / 2) / 2 ^ 53 + quotient / 2 ^ 24 <
        1 / (2 * r : ℕ) := by
      rw [lt_div_iff₀ (by positivity)]
      push_cast
      calc ((quotient + quotient / 2 ^ 24 + 1 / 2) / 2 ^ 53 + quotient / 2 ^ 24) * (2 * r)
          = 2 * ((quotient * r + quotient * r / 2 ^ 24 + r / 2) / 2 ^ 53 +
              quotient * r / 2 ^ 24) := by ring
        _ < 1 := by
          rw [product]
          linarith
    rw [target, abs_lt]
    constructor <;> linarith
  · rintro ⟨k, whole⟩
    have k_pos : 0 < k := by
      by_contra zero
      obtain rfl : k = 0 := by omega
      omega
    have k_le : k ≤ d + 1 := by nlinarith
    have integral : quotient + 1 / 2 = k := by
      rw [← target, whole]
      push_cast
      field_simp
    have half : quotient = (2 * k - 1 : ℕ) * 2 ^ (-1 : ℤ) := by
      rw [Nat.cast_sub (by omega)]
      push_cast
      rw [zpow_neg_one]
      linarith
    have short : roundBinary 24 quotient = quotient := by
      rw [half]
      exact roundBinary_exact (by omega) (by omega) (-1)
    rw [target, short, integral, roundBinary_natCast k_pos (by omega)]

end Cgsf.Library
