import Cgsf.BaseLayer.BigNum
import Mathlib.Tactic.Ring

/-!
# The operators of big numbers

A limb that is exactly the base keeps it: `Normalize` looks for limbs above the base.
-/

namespace Cgsf.Proof.BaseLayer.BigNum
open Cgsf.BaseLayer Cgsf.BaseLayer.BigNum

theorem base_toNat : base.toNat = 10 ^ 8 := rfl

theorem gt_base (low : UInt64) : low > base ↔ 10 ^ 8 < low.toNat := by
  rw [gt_iff_lt, UInt64.lt_iff_toNat_lt, base_toNat]

/-- Where a limb is not the base itself, its rest stays. -/
theorem carry_stays {high low : UInt64} (ne : low.toNat ≠ 10 ^ 8) :
    (carry high low).2.toNat = low.toNat % 10 ^ 8 := by
  unfold carry
  split
  · rw [UInt64.toNat_mod, base_toNat]
  · rename_i small
    rw [gt_base] at small
    change low.toNat = _
    exact (Nat.mod_eq_of_lt (by omega)).symm

/-- Where a limb is not the base itself, its quotient goes on. -/
theorem carry_goes {high low : UInt64} (ne : low.toNat ≠ 10 ^ 8) :
    (carry high low).1.toNat = (high.toNat + low.toNat / 10 ^ 8) % 2 ^ 64 := by
  unfold carry
  split
  · rw [UInt64.toNat_add, UInt64.toNat_div, base_toNat]
  · rename_i small
    rw [gt_base] at small
    have below : low.toNat < 10 ^ 8 := by omega
    rw [Nat.div_eq_of_lt below, Nat.add_zero]
    exact (Nat.mod_eq_of_lt high.toNat_lt).symm

theorem carry_of_eq {high low : UInt64} (eq : low.toNat = 10 ^ 8) :
    (carry high low).2.toNat = 10 ^ 8 := by
  unfold carry
  rw [if_neg (by rw [gt_base]; omega)]
  exact eq

theorem normalised_iff {n : BigNum} : n.Normalised ↔
    n.a.toNat < 10 ^ 8 ∧ n.b.toNat < 10 ^ 8 ∧ n.c.toNat < 10 ^ 8 ∧ n.d.toNat < 10 ^ 8 := by
  simp only [Normalised, UInt64.lt_iff_toNat_lt, base_toNat]

/-- A limb comes to exactly the base, from which nothing is carried. -/
def Lands (n : BigNum) : Prop :=
  n.d.toNat = 10 ^ 8 ∨ n.c.toNat + n.d.toNat / 10 ^ 8 = 10 ^ 8 ∨
    n.b.toNat + (n.c.toNat + n.d.toNat / 10 ^ 8) / 10 ^ 8 = 10 ^ 8

section Normalize

variable {n : BigNum}

/-- Limbs that are far from wrapping around. -/
def Small (n : BigNum) : Prop :=
  n.a.toNat < 2 ^ 62 ∧ n.b.toNat < 2 ^ 62 ∧ n.c.toNat < 2 ^ 62 ∧ n.d.toNat < 2 ^ 62

theorem normalize_of_lands (small : Small n) (lands : Lands n) : ¬n.normalize.Normalised := by
  obtain ⟨a, b, c, d⟩ := n
  obtain ⟨_, hb, hc, hd⟩ := small
  unfold Lands at lands
  rw [normalised_iff]
  rintro ⟨-, third', second', first'⟩
  unfold BigNum.normalize at first' second' third'
  dsimp only at *
  have first : d.toNat ≠ 10 ^ 8 := by
    intro first
    rw [carry_of_eq first] at first'
    exact Nat.lt_irrefl _ first'
  have c' := @carry_goes c d first
  rw [Nat.mod_eq_of_lt (by omega)] at c'
  have second : c.toNat + d.toNat / 10 ^ 8 ≠ 10 ^ 8 := by
    intro second
    rw [carry_of_eq (c'.trans second)] at second'
    exact Nat.lt_irrefl _ second'
  have b' := @carry_goes b (carry c d).1 (by rwa [c'])
  rw [c', Nat.mod_eq_of_lt (by omega)] at b'
  rcases lands with lands | lands | lands
  · exact first lands
  · exact second lands
  · rw [carry_of_eq (b'.trans lands)] at third'
    exact Nat.lt_irrefl _ third'

theorem normalize_of_not_lands (small : Small n) (lands : ¬Lands n) :
    n.normalize.Normalised ∧ n.normalize.value = n.value % 10 ^ 32 := by
  obtain ⟨a, b, c, d⟩ := n
  obtain ⟨ha, hb, hc, hd⟩ := small
  unfold Lands at lands
  rw [normalised_iff]
  unfold value BigNum.normalize
  dsimp only at *
  obtain ⟨first, second, third⟩ : d.toNat ≠ 10 ^ 8 ∧ c.toNat + d.toNat / 10 ^ 8 ≠ 10 ^ 8 ∧
    b.toNat + (c.toNat + d.toNat / 10 ^ 8) / 10 ^ 8 ≠ 10 ^ 8 := by omega
  have c' := @carry_goes c d first
  rw [Nat.mod_eq_of_lt (by omega)] at c'
  have b' := @carry_goes b (carry c d).1 (by rwa [c'])
  rw [c', Nat.mod_eq_of_lt (by omega)] at b'
  have a' := @carry_goes a (carry b (carry c d).1).1 (by rwa [b'])
  rw [b', Nat.mod_eq_of_lt (by omega)] at a'
  have c'' := @carry_stays b (carry c d).1 (by rwa [c'])
  have b'' := @carry_stays a (carry b (carry c d).1).1 (by rwa [b'])
  rw [UInt64.toNat_mod, base_toNat, a', b'', c'', carry_stays first, b', c']
  omega

theorem normalize_of_normalised (normalised : n.Normalised) : n.normalize = n := by
  obtain ⟨a, b, c, d⟩ := n
  obtain ⟨ha, hb, hc, hd⟩ := normalised
  have stays {high low : UInt64} (below : low < base) : carry high low = (high, low) :=
    if_neg (UInt64.not_lt.mpr (UInt64.le_of_lt below))
  unfold BigNum.normalize
  dsimp only at *
  rw [stays hd]
  dsimp only
  rw [stays hc]
  dsimp only
  rw [stays hb]
  dsimp only
  congr 1
  apply UInt64.toNat_inj.mp
  rw [UInt64.toNat_mod]
  exact Nat.mod_eq_of_lt (UInt64.lt_iff_toNat_lt.mp ha)

end Normalize

section Operators

variable {m n : BigNum}

theorem value_mod (normalised : n.Normalised) : n.value % (1 * 10 ^ 8) = n.d.toNat ∧
    n.value % (10 ^ 8 * 10 ^ 8) = n.c.toNat * 10 ^ 8 + n.d.toNat ∧
    n.value % (10 ^ 16 * 10 ^ 8) = (n.b.toNat * 10 ^ 8 + n.c.toNat) * 10 ^ 8 + n.d.toNat := by
  rw [normalised_iff] at normalised
  unfold BigNum.value
  omega

theorem adds_iff (hm : m.Normalised) (hn : n.Normalised) : Adds m n ↔ ¬AddLands m n := by
  have hm' := hm
  have hn' := hn
  unfold Adds add
  rw [normalize_of_normalised hm, normalize_of_normalised hn]
  rw [normalised_iff] at hm hn
  obtain ⟨a1, b1, c1, d1⟩ := m
  obtain ⟨a2, b2, c2, d2⟩ := n
  dsimp only at *
  have plain {x y : UInt64} (hx : x.toNat < 10 ^ 8) (hy : y.toNat < 10 ^ 8) :
      (x + y).toNat = x.toNat + y.toNat ∧ corrected (x + y) y = x + y := by
    have sum : (x + y).toNat = x.toNat + y.toNat := by
      rw [UInt64.toNat_add, Nat.mod_eq_of_lt (by omega)]
    refine ⟨sum, if_neg ?_⟩
    rw [UInt64.lt_iff_toNat_lt, sum]
    omega
  obtain ⟨a, isA⟩ := plain hm.1 hn.1
  obtain ⟨b, isB⟩ := plain hm.2.1 hn.2.1
  obtain ⟨c, isC⟩ := plain hm.2.2.1 hn.2.2.1
  obtain ⟨d, -⟩ := plain hm.2.2.2 hn.2.2.2
  rw [isA, isB, isC]
  have small : Small ⟨a1 + a2, b1 + b2, c1 + c2, d1 + d2⟩ := by
    unfold Small
    dsimp only
    omega
  have value : value ⟨a1 + a2, b1 + b2, c1 + c2, d1 + d2⟩ =
      value ⟨a1, b1, c1, d1⟩ + value ⟨a2, b2, c2, d2⟩ := by
    unfold BigNum.value
    dsimp only
    omega
  have lands : Lands ⟨a1 + a2, b1 + b2, c1 + c2, d1 + d2⟩ ↔
      AddLands ⟨a1, b1, c1, d1⟩ ⟨a2, b2, c2, d2⟩ := by
    unfold Lands AddLands
    simp only [List.mem_cons, List.not_mem_nil, or_false, exists_eq_or_imp, exists_eq_left, b, c, d]
    rw [(value_mod hm').1, (value_mod hn').1, (value_mod hm').2.1, (value_mod hn').2.1,
      (value_mod hm').2.2, (value_mod hn').2.2]
    dsimp only
    refine or_congr ?_ (or_congr ?_ ?_) <;> omega
  rw [← value, ← lands]
  constructor
  · exact fun adds there => normalize_of_lands small there adds.2
  · exact fun none => (normalize_of_not_lands small none).symm

/-- A product of two limbs. -/
theorem toNat_limbs_mul {x y : UInt64} (hx : x.toNat < 10 ^ 8) (hy : y.toNat < 10 ^ 8) :
    (x * y).toNat = x.toNat * y.toNat ∧ x.toNat * y.toNat < 10 ^ 16 := by
  have small : x.toNat * y.toNat < 10 ^ 8 * 10 ^ 8 := Nat.mul_lt_mul'' hx hy
  refine ⟨?_, small⟩
  rw [UInt64.toNat_mul, Nat.mod_eq_of_lt (by omega)]

theorem multiplies_iff (hm : m.Normalised) (hn : n.Normalised) : Multiplies m n ↔
    n.b.toNat * m.d.toNat = n.d.toNat * m.b.toNat ∧ ¬MulLands m n := by
  unfold Multiplies mul
  rw [normalize_of_normalised hm, normalize_of_normalised hn]
  rw [normalised_iff] at hm hn
  obtain ⟨a1, b1, c1, d1⟩ := m
  obtain ⟨a2, b2, c2, d2⟩ := n
  dsimp only at *
  obtain ⟨ha1, hb1, hc1, hd1⟩ := hm
  obtain ⟨ha2, hb2, hc2, hd2⟩ := hn
  obtain ⟨dd, dd'⟩ := toNat_limbs_mul hd2 hd1
  obtain ⟨cd, cd'⟩ := toNat_limbs_mul hc2 hd1
  obtain ⟨dc, dc'⟩ := toNat_limbs_mul hd2 hc1
  obtain ⟨bd, bd'⟩ := toNat_limbs_mul hb2 hd1
  obtain ⟨cc, cc'⟩ := toNat_limbs_mul hc2 hc1
  obtain ⟨ad, ad'⟩ := toNat_limbs_mul ha2 hd1
  obtain ⟨bc, bc'⟩ := toNat_limbs_mul hb2 hc1
  obtain ⟨cb, cb'⟩ := toNat_limbs_mul hc2 hb1
  obtain ⟨da, da'⟩ := toNat_limbs_mul hd2 ha1
  obtain ⟨-, db'⟩ := toNat_limbs_mul hd2 hb1
  have c : (c2 * d1 + d2 * c1).toNat = c2.toNat * d1.toNat + d2.toNat * c1.toNat := by
    rw [UInt64.toNat_add, cd, dc, Nat.mod_eq_of_lt (by omega)]
  have b : (b2 * d1 + c2 * c1 + b2 * d1).toNat =
      2 * (b2.toNat * d1.toNat) + c2.toNat * c1.toNat := by
    rw [UInt64.toNat_add, UInt64.toNat_add, bd, cc, Nat.mod_eq_of_lt (by omega),
      Nat.mod_eq_of_lt (by omega)]
    omega
  have a : (a2 * d1 + b2 * c1 + c2 * b1 + d2 * a1).toNat =
      a2.toNat * d1.toNat + b2.toNat * c1.toNat + c2.toNat * b1.toNat + d2.toNat * a1.toNat := by
    rw [UInt64.toNat_add, UInt64.toNat_add, UInt64.toNat_add, ad, bc, cb, da,
      Nat.mod_eq_of_lt (by omega), Nat.mod_eq_of_lt (by omega), Nat.mod_eq_of_lt (by omega)]
  generalize isLimbs : (⟨a2 * d1 + b2 * c1 + c2 * b1 + d2 * a1, b2 * d1 + c2 * c1 + b2 * d1,
    c2 * d1 + d2 * c1, d2 * d1⟩ : BigNum) = limbs
  have lands : Lands limbs ↔ MulLands ⟨a1, b1, c1, d1⟩ ⟨a2, b2, c2, d2⟩ := by
    subst isLimbs
    unfold Lands MulLands
    dsimp only
    rw [b, c, dd, Nat.mul_comm d2.toNat, Nat.mul_comm c2.toNat, Nat.mul_comm d2.toNat,
      Nat.mul_comm b2.toNat, Nat.mul_comm c2.toNat]
  have small : Small limbs := by
    subst isLimbs
    unfold Small
    dsimp only
    rw [a, b, c, dd]
    omega
  -- the whole product, but for what the third limb of the result has twice and what it lacks
  have sums : limbs.value + d2.toNat * b1.toNat * 10 ^ 16 + 10 ^ 32 *
      (a1.toNat * a2.toNat * 10 ^ 16 + (a1.toNat * b2.toNat + b1.toNat * a2.toNat) * 10 ^ 8 +
        (a1.toNat * c2.toNat + b1.toNat * b2.toNat + c1.toNat * a2.toNat)) =
      value ⟨a1, b1, c1, d1⟩ * value ⟨a2, b2, c2, d2⟩ + b2.toNat * d1.toNat * 10 ^ 16 := by
    subst isLimbs
    unfold BigNum.value
    dsimp only
    rw [a, b, c, dd]
    ring
  rw [← lands]
  generalize a1.toNat * a2.toNat * 10 ^ 16 + _ + _ = high at sums
  generalize value ⟨a1, b1, c1, d1⟩ * value ⟨a2, b2, c2, d2⟩ = product at *
  generalize d2.toNat * b1.toNat = right at *
  generalize b2.toNat * d1.toNat = left at *
  clear lands isLimbs a b c
  constructor
  · rintro ⟨value, normalised⟩
    have none : ¬Lands limbs := fun there => normalize_of_lands small there normalised
    refine ⟨?_, none⟩
    rw [(normalize_of_not_lands small none).2] at value
    omega
  · rintro ⟨same, none⟩
    obtain ⟨normalised, value⟩ := normalize_of_not_lands small none
    refine ⟨?_, normalised⟩
    rw [value]
    omega

/-- What is left of a limb after the second loop, wrapped around if it is negative. -/
theorem toNat_borrowed {x y : UInt64} (hx : x.toNat < 10 ^ 8) (hy : y.toNat < 10 ^ 8) :
    ((borrowed (x - y) y).toNat : Int) = left x.toNat y.toNat +
      if left x.toNat y.toNat < 0 then 2 ^ 64 else 0 := by
  have difference : (x - y).toNat = (2 ^ 64 - y.toNat + x.toNat) % 2 ^ 64 := UInt64.toNat_sub x y
  unfold borrowed left
  split
  · rename_i less
    rw [UInt64.lt_iff_toNat_lt] at less
    rw [UInt64.toNat_sub, UInt64.toNat_one]
    split <;> split <;> omega
  · rename_i less
    rw [UInt64.lt_iff_toNat_lt] at less
    split <;> split <;> omega

/-- The limbs before they are normalised. -/
theorem toNat_difference (x y : UInt64) : (x - y).toNat =
    if y.toNat ≤ x.toNat then x.toNat - y.toNat else 2 ^ 64 + x.toNat - y.toNat := by
  have low := x.toNat_lt
  have low' := y.toNat_lt
  rw [UInt64.toNat_sub]
  split <;> omega

theorem sub_normalised_iff (hm : m.Normalised) (hn : n.Normalised) :
    (m.sub n).Normalised ↔ ¬SubLands m n := by
  unfold sub
  rw [normalize_of_normalised hm, normalize_of_normalised hn]
  rw [normalised_iff] at hm hn
  unfold SubLands
  rw [UInt64.lt_iff_toNat_lt]
  obtain ⟨a1, b1, c1, d1⟩ := m
  obtain ⟨a2, b2, c2, d2⟩ := n
  dsimp only at *
  obtain ⟨ha1, hb1, hc1, hd1⟩ := hm
  obtain ⟨ha2, hb2, hc2, hd2⟩ := hn
  have low := toNat_difference d1 d2
  have middle := toNat_borrowed hc1 hc2
  have high := toNat_borrowed hb1 hb2
  have middle_le : left c1.toNat c2.toNat < 10 ^ 8 ∧ -10 ^ 8 ≤ left c1.toNat c2.toNat := by
    unfold left
    split <;> omega
  have high_le : left b1.toNat b2.toNat < 10 ^ 8 ∧ -10 ^ 8 ≤ left b1.toNat b2.toNat := by
    unfold left
    split <;> omega
  generalize left c1.toNat c2.toNat = middle' at *
  generalize left b1.toNat b2.toNat = high' at *
  generalize borrowed (c1 - c2) c2 = c at *
  generalize borrowed (b1 - b2) b2 = b at *
  generalize borrowed (a1 - a2) a2 = a at *
  generalize d1 - d2 = d at *
  rw [normalised_iff]
  unfold BigNum.normalize
  dsimp only
  have d' : d.toNat ≠ 10 ^ 8 := by
    split at low <;> omega
  have goes := @carry_goes c d d'
  have c' : (carry c d).1.toNat ≠ 10 ^ 8 := by
    rw [goes]
    split at low <;> split at middle <;> omega
  have goes' := @carry_goes b (carry c d).1 c'
  rw [UInt64.toNat_mod, base_toNat, carry_stays d', carry_stays c']
  rw [goes] at goes'
  have lands : (carry b (carry c d).1).1.toNat = 10 ^ 8 ↔ d1.toNat < d2.toNat ∧
      high' + (middle' + (2 ^ 64 + d1.toNat - d2.toNat) / 10 ^ 8) / 10 ^ 8 = 10 ^ 8 := by
    rw [goes']
    split at low <;> split at middle <;> split at high <;> omega
  rw [← lands]
  constructor
  · rintro ⟨_, third, _⟩ eq
    rw [carry_of_eq eq] at third
    exact Nat.lt_irrefl _ third
  · intro ne
    rw [carry_stays ne]
    omega

/-- A limb of the difference is right only if nothing was borrowed for it and nothing taken off. -/
theorem ample_of_rest {x y : UInt64} (hx : x.toNat < 10 ^ 8) (hy : y.toNat < 10 ^ 8)
    (rest : (borrowed (x - y) y).toNat % 10 ^ 8 = (10 ^ 8 + x.toNat - y.toNat) % 10 ^ 8) :
    2 * y.toNat ≤ x.toNat := by
  have is := toNat_borrowed hx hy
  unfold left at is
  split at is <;> split at is <;> omega

theorem borrowed_of_ample {x y : UInt64} (hx : x.toNat < 10 ^ 8) (ample : 2 * y.toNat ≤ x.toNat) :
    (borrowed (x - y) y).toNat = x.toNat - y.toNat := by
  have is := toNat_borrowed hx (show y.toNat < 10 ^ 8 by omega)
  unfold left at is
  split at is <;> split at is <;> omega

theorem borrowed_ne {x y : UInt64} (hx : x.toNat < 10 ^ 8) (hy : y.toNat < 10 ^ 8) :
    (borrowed (x - y) y).toNat ≠ 10 ^ 8 := by
  have is := toNat_borrowed hx hy
  unfold left at is
  split at is <;> split at is <;> omega

theorem sub_value_iff (hm : m.Normalised) (hn : n.Normalised) (le : n.value ≤ m.value) :
    (m.sub n).value = m.value - n.value ∧ (m.sub n).Normalised ↔ Ample m n := by
  unfold sub Ample
  rw [normalize_of_normalised hm, normalize_of_normalised hn]
  rw [normalised_iff] at hm hn
  obtain ⟨a1, b1, c1, d1⟩ := m
  obtain ⟨a2, b2, c2, d2⟩ := n
  dsimp only at *
  obtain ⟨ha1, hb1, hc1, hd1⟩ := hm
  obtain ⟨ha2, hb2, hc2, hd2⟩ := hn
  have low := toNat_difference d1 d2
  have first := @ample_of_rest a1 a2 ha1 ha2
  have second := @ample_of_rest b1 b2 hb1 hb2
  have third := @ample_of_rest c1 c2 hc1 hc2
  have first' := @borrowed_of_ample a1 a2 ha1
  have second' := @borrowed_of_ample b1 b2 hb1
  have third' := @borrowed_of_ample c1 c2 hc1
  have c_ne := borrowed_ne hc1 hc2
  have b_ne := borrowed_ne hb1 hb2
  generalize borrowed (c1 - c2) c2 = c at *
  generalize borrowed (b1 - b2) b2 = b at *
  generalize borrowed (a1 - a2) a2 = a at *
  generalize d1 - d2 = d at *
  have d' : d.toNat ≠ 10 ^ 8 := by
    split at low <;> omega
  constructor
  · rintro ⟨is, normalised⟩
    rw [normalised_iff] at normalised
    unfold BigNum.normalize value at *
    dsimp only at *
    have enough : d2.toNat ≤ d1.toNat := by
      rw [carry_stays d'] at is
      split at low
      · assumption
      · omega
    rw [if_pos enough] at low
    have goes := @carry_goes c d d'
    rw [low, Nat.div_eq_of_lt (by omega), Nat.add_zero, Nat.mod_eq_of_lt c.toNat_lt] at goes
    rw [UInt64.toNat_inj.mp goes, carry_stays d'] at is normalised
    rw [UInt64.toNat_mod, base_toNat] at is
    have enough' := third (by rw [carry_stays c_ne] at is; omega)
    have goes' := @carry_goes b c c_ne
    rw [third' enough', Nat.div_eq_of_lt (by omega), Nat.add_zero,
      Nat.mod_eq_of_lt b.toNat_lt] at goes'
    rw [UInt64.toNat_inj.mp goes', carry_stays c_ne, third' enough'] at is normalised
    have enough'' := second (by rw [carry_stays b_ne] at is; omega)
    have goes'' := @carry_goes a b b_ne
    rw [second' enough'', Nat.div_eq_of_lt (by omega), Nat.add_zero,
      Nat.mod_eq_of_lt a.toNat_lt] at goes''
    rw [UInt64.toNat_inj.mp goes'', carry_stays b_ne, second' enough''] at is
    exact ⟨first (by omega), enough'', enough', enough⟩
  · rintro ⟨ha, hb, hc, enough⟩
    rw [if_pos enough] at low
    have small : Small ⟨a, b, c, d⟩ := by
      unfold Small
      dsimp only
      omega
    have none : ¬Lands ⟨a, b, c, d⟩ := by
      unfold Lands
      dsimp only
      omega
    obtain ⟨normalised, is⟩ := normalize_of_not_lands small none
    refine ⟨?_, normalised⟩
    rw [is]
    unfold BigNum.value
    dsimp only
    omega

theorem subtracts_iff (hm : m.Normalised) (hn : n.Normalised) :
    Subtracts m n ↔ (n.value ≤ m.value → Ample m n) ∧ ¬SubLands m n := by
  unfold Subtracts
  rw [← sub_normalised_iff hm hn]
  constructor
  · rintro ⟨is, normalised⟩
    exact ⟨fun le => (sub_value_iff hm hn le).mp ⟨is le, normalised⟩, normalised⟩
  · rintro ⟨ample, normalised⟩
    exact ⟨fun le => ((sub_value_iff hm hn le).mpr (ample le)).1, normalised⟩

/-- The three operators give what they should exactly where no limb comes to the base itself, where
the middle limbs of a product do not notice the slip, and where nothing has to be borrowed. -/
theorem arithmetic_iff (hm : m.Normalised) (hn : n.Normalised) :
    (Adds m n ↔ ¬AddLands m n) ∧
      (Multiplies m n ↔ n.b.toNat * m.d.toNat = n.d.toNat * m.b.toNat ∧ ¬MulLands m n) ∧
        (Subtracts m n ↔ (n.value ≤ m.value → Ample m n) ∧ ¬SubLands m n) :=
  ⟨adds_iff hm hn, multiplies_iff hm hn, subtracts_iff hm hn⟩

end Operators

theorem smallNumbers_arithmetic :
    Adds { d := 5 } { d := 3 } ∧ Multiplies { d := 5 } { d := 3 } ∧
      Subtracts { d := 5 } { d := 3 } := by
  obtain ⟨adds, multiplies, subtracts⟩ :=
    arithmetic_iff (m := { d := 5 }) (n := { d := 3 }) (by decide) (by decide)
  refine ⟨adds.mpr ?_, multiplies.mpr ⟨by decide, ?_⟩, subtracts.mpr ⟨fun _ => ?_, ?_⟩⟩
  · unfold AddLands
    decide
  · unfold MulLands
    decide
  · unfold Ample
    decide
  · unfold SubLands
    decide

/-- A carry is lost, 5 - 3 is 1 in the third limb, and the second limb of a product is 0. -/
theorem operators_fail :
    (∀ n ∈ [{ d := 99999999 }, { d := 1 }, { c := 5 }, { c := 3 }, { b := 1 }], Normalised n) ∧
      ¬Adds { d := 99999999 } { d := 1 } ∧ ¬Subtracts { c := 5 } { c := 3 } ∧
        ¬Multiplies { b := 1 } { d := 1 } := by
  have sum : ¬(BigNum.add { d := 99999999 } { d := 1 }).Normalised := by decide
  have difference : (BigNum.sub { c := 5 } { c := 3 }).value = 10 ^ 8 := by decide
  have product : (BigNum.mul { b := 1 } { d := 1 }).value = 0 := by decide
  refine ⟨by decide, fun right => sum right.2, ?_, ?_⟩
  · rintro ⟨right, _⟩
    have two := right (by decide)
    rw [difference] at two
    revert two
    decide
  · rintro ⟨right, _⟩
    rw [product] at right
    revert right
    decide

end Cgsf.Proof.BaseLayer.BigNum
