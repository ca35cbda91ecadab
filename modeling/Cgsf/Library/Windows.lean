import Cgsf.Library.Bits

/-!
# Windows of positions

The positions from one place to another where a predicate holds, and those of the bits of whole bytes.
-/

namespace Cgsf.Library

variable {p q : Nat → Bool} {s m e n : Nat}

def stretch (p : Nat → Bool) (s e : Nat) : List Nat := (List.range' s (e - s)).filter p

theorem mem_stretch : n ∈ stretch p s e ↔ s ≤ n ∧ n < e ∧ p n = true := by
  rw [stretch, List.mem_filter, List.mem_range'_1, and_assoc]
  constructor
  · rintro ⟨low, high, holds⟩
    exact ⟨low, by omega, holds⟩
  · rintro ⟨low, high, holds⟩
    exact ⟨low, by omega, holds⟩

theorem stretch_append (p : Nat → Bool) (low : s ≤ m) (high : m ≤ e) :
    stretch p s m ++ stretch p m e = stretch p s e := by
  have size : e - s = (m - s) + (e - m) := by omega
  have place : m = s + (m - s) := by omega
  unfold stretch
  rw [size, ← List.range'_append_1, List.filter_append, ← place]

theorem stretch_of_le (none : e ≤ s) : stretch p s e = [] := by
  unfold stretch
  rw [Nat.sub_eq_zero_of_le none]
  rfl

theorem stretch_congr (same : ∀ n, s ≤ n → n < e → p n = q n) : stretch p s e = stretch q s e := by
  apply List.filter_congr
  intro n member
  have place := List.mem_range'_1.mp member
  apply same n <;> omega

theorem stretch_eq_nil_iff : stretch p s e = [] ↔ ∀ n, s ≤ n → n < e → p n = false := by
  rw [List.eq_nil_iff_forall_not_mem]
  apply forall_congr'
  intro n
  rw [mem_stretch]
  simp

theorem stretch_nil_mono {s' e' : Nat} (none : stretch p s e = []) (low : s ≤ s') (high : e' ≤ e) :
    stretch p s' e' = [] := by
  rw [stretch_eq_nil_iff] at none ⊢
  intro n above below
  exact none n (by omega) (by omega)

/-- A stretch of fewer positions has fewer of them. -/
theorem length_stretch_eq_iff (less : ∀ n, s ≤ n → n < e → p n = true → q n = true) :
    (stretch p s e).length = (stretch q s e).length ↔
      ∀ n, s ≤ n → n < e → q n = true → p n = true := by
  have whole : stretch p s e = stretch (fun n => p n && q n) s e := by
    apply stretch_congr
    intro n low high
    cases holds : p n
    · rfl
    · rw [less n low high holds]
      rfl
  have sub : List.Sublist (stretch p s e) (stretch q s e) := by
    rw [whole]
    apply List.monotone_filter_right
    intro n both
    simp at both
    exact both.2
  constructor
  · intro same n low high holds
    have member : n ∈ stretch q s e := mem_stretch.mpr ⟨low, high, holds⟩
    rw [← sub.eq_of_length same] at member
    exact (mem_stretch.mp member).2.2
  · intro more
    congr 1
    apply stretch_congr
    intro n low high
    rw [Bool.eq_iff_iff]
    exact ⟨less n low high, more n low high⟩

/-! ## Bytes -/

variable {bytes : List (BitVec 8)} {k : Nat}

theorem bitAt_byte {i : Nat} (low : i < 8) :
    bitAt bytes (8 * k + i) = (bytes.getD k 0).getLsbD i := by
  unfold bitAt
  rw [Nat.mul_add_div (by decide), Nat.mul_add_mod, Nat.div_eq_of_lt low, Nat.mod_eq_of_lt low,
    Nat.add_zero]

theorem stretch_byte (bytes : List (BitVec 8)) (k : Nat) :
    stretch (bitAt bytes) (8 * k) (8 * (k + 1)) =
      (List.range' (8 * k) 8).filter fun n => (bytes.getD k 0).getLsbD (n - 8 * k) := by
  unfold stretch
  rw [show 8 * (k + 1) - 8 * k = 8 by omega]
  apply List.filter_congr
  intro n member
  have place := List.mem_range'_1.mp member
  rw [← bitAt_byte (by omega), Nat.add_sub_of_le place.1]

theorem length_stretch_byte (bytes : List (BitVec 8)) (k : Nat) :
    (stretch (bitAt bytes) (8 * k) (8 * (k + 1))).length = popCount (bytes.getD k 0) := by
  rw [stretch_byte, ← List.countP_eq_length_filter, List.range'_eq_map_range, List.countP_map, popCount]
  apply List.countP_congr
  intro i _
  rw [Function.comp_apply, Nat.add_sub_cancel_left]

theorem stretch_bytes_succ (p : Nat → Bool) (k n : Nat) : stretch p (8 * k) (8 * (k + (n + 1))) =
    stretch p (8 * k) (8 * (k + 1)) ++ stretch p (8 * (k + 1)) (8 * (k + 1 + n)) := by
  rw [stretch_append p (by omega) (by omega), Nat.add_assoc, Nat.add_comm 1 n]

end Cgsf.Library
