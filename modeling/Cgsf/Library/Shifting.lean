import Mathlib.Data.List.Range
import Mathlib.Logic.Function.Basic

/-!
# Shifting bits in place

A sequence of bits as a function. The set bits are moved up one after another from the last one on,
or down from the first one on.
-/

namespace Cgsf.Library

variable {p : Nat → Bool} {c k m n s : Nat}

/-- A set bit is moved up. -/
def raise (c k : Nat) (p : Nat → Bool) : Nat → Bool :=
  if p k then Function.update (Function.update p k false) (k + c) true else p

/-- A bit is moved down. -/
def lower (c : Nat) (p : Nat → Bool) (k : Nat) : Nat → Bool :=
  if p k then Function.update (Function.update p k false) (k - c) true
  else Function.update p (k - c) false

theorem raise_iff (c k : Nat) (p : Nat → Bool) (m : Nat) :
    raise c k p m = true ↔ (m = k + c ∧ p k = true) ∨ (p m = true ∧ (m ≠ k ∨ c = 0)) := by
  unfold raise
  cases set : p k
  · simp only [Bool.false_eq_true, if_false, and_false, false_or]
    constructor
    · intro here
      refine ⟨here, .inl ?_⟩
      rintro rfl
      rw [set] at here
      cases here
    · exact And.left
  · simp only [if_true, Function.update_apply]
    by_cases moved : m = k + c
    · simp [moved]
    · by_cases same : m = k
      · have more : c ≠ 0 := by omega
        simp [same, more]
      · simp [moved, same]

/-- From the last bit on, none is met twice. -/
theorem foldr_raise (c s n : Nat) (p : Nat → Bool) (m : Nat) :
    (List.range' s n).foldr (raise c) p m = true ↔
      (s + c ≤ m ∧ m < s + n + c ∧ p (m - c) = true) ∨ ((m < s ∨ s + n ≤ m) ∧ p m = true) := by
  induction n generalizing s m with
  | zero =>
      simp only [List.range'_zero, List.foldr_nil, Nat.add_zero]
      constructor
      · intro here
        exact .inr ⟨Nat.lt_or_ge m s, here⟩
      · rintro (⟨low, high, _⟩ | ⟨_, here⟩)
        · omega
        · exact here
  | succ n ih =>
      have first : (List.range' (s + 1) n).foldr (raise c) p s = true ↔ p s = true := by
        rw [ih]
        grind
      rw [List.range'_succ, List.foldr_cons, raise_iff, first, ih]
      clear ih first
      rcases eq_or_ne m (s + c) with rfl | other
      · rw [Nat.add_sub_cancel]
        grind
      · grind

/-- From the first bit on, when the bits before it are clear. -/
theorem foldl_lower (low : c ≤ s) (positive : 0 < c) (clear : ∀ m, s - c ≤ m → m < s → p m = false) :
    (List.range' s n).foldl (lower c) p m =
      if m < s - c then p m else if m < s + n - c then p (m + c) else if m < s + n then false else p m := by
  induction n generalizing s p with
  | zero =>
      simp only [List.range'_zero, List.foldl_nil, Nat.add_zero]
      split_ifs with before here
      · rfl
      · exact clear m (not_lt.mp before) here
      · rfl
  | succ n ih =>
      have step (m : Nat) : lower c p s m =
          if m = s - c then p s else if m = s then false else p m := by
        unfold lower
        cases set : p s
        · simp only [Bool.false_eq_true, if_false, Function.update_apply]
          split_ifs with here there
          · rfl
          · rw [there, set]
          · rfl
        · simp [Function.update_apply]
      rw [List.range'_succ, List.foldl_cons, ih (by omega)]
      · simp only [step]
        grind
      · intro m above below
        rw [step]
        split_ifs
        · omega
        · rfl
        · exact clear m (by omega) (by omega)

end Cgsf.Library
