import Cgsf.Library.Windows

/-!
# Rank and select

How many numbers with a property come before one, the numbers with the property in order, and every
`seg`-th element of a list.
-/

namespace Cgsf.Library

variable {p q : Nat → Bool} {s e k b n : Nat}

theorem nodup_stretch (p : Nat → Bool) (s e : Nat) : (stretch p s e).Nodup :=
  List.Nodup.filter p List.nodup_range'

theorem stretch_cons (holds : p s = true) (inside : s < e) :
    stretch p s e = s :: stretch p (s + 1) e := by
  unfold stretch
  rw [show e - s = e - (s + 1) + 1 by omega, List.range'_succ, List.filter_cons, if_pos holds]

theorem length_stretch_le (less : ∀ n, p n = true → q n = true) (s e : Nat) :
    (stretch p s e).length ≤ (stretch q s e).length :=
  (List.monotone_filter_right _ less).length_le

def rank (p : Nat → Bool) (n : Nat) : Nat := (stretch p 0 n).length

theorem rank_add (p : Nat → Bool) (low : s ≤ n) : rank p n = rank p s + (stretch p s n).length := by
  unfold rank
  rw [← List.length_append, stretch_append p (Nat.zero_le s) low]

theorem rank_succ (p : Nat → Bool) (n : Nat) : rank p (n + 1) = rank p n + if p n then 1 else 0 := by
  rw [rank_add p (Nat.le_succ n)]
  congr 1
  cases holds : p n <;> simp [stretch, holds]

theorem select_rank (holds : p b = true) (inside : b < e) : (stretch p 0 e)[rank p b]? = some b := by
  rw [← stretch_append p (Nat.zero_le b) inside.le, rank, List.getElem?_append_right (Nat.le_refl _),
    Nat.sub_self, stretch_cons holds inside]
  rfl

theorem rank_select (place : (stretch p 0 e)[k]? = some b) : rank p b = k := by
  have ⟨_, inside, holds⟩ := mem_stretch.mp (List.mem_of_getElem? place)
  have same := select_rank holds inside
  exact (List.getElem?_inj (List.getElem?_eq_some_iff.mp same).1 (nodup_stretch p 0 e)).mp
    (same.trans place.symm)

theorem drop_select (place : (stretch p 0 e)[k]? = some b) :
    (stretch p 0 e).drop k = stretch p b e := by
  have ⟨_, inside, _⟩ := mem_stretch.mp (List.mem_of_getElem? place)
  have count := rank_select place
  rw [← stretch_append p (Nat.zero_le b) inside.le]
  exact List.drop_left' count

theorem countP_stretch (p : Nat → Bool) (e n : Nat) :
    (stretch p 0 e).countP (fun m => decide (m < n)) = rank p (min e n) := by
  rw [← stretch_append p (Nat.zero_le _) (min_le_left e n), List.countP_append, rank]
  have before : (stretch p 0 (min e n)).countP (fun m => decide (m < n)) = (stretch p 0 (min e n)).length := by
    apply List.countP_eq_length.mpr
    intro m member
    have ⟨_, high, _⟩ := mem_stretch.mp member
    exact decide_eq_true (by omega)
  have behind : (stretch p (min e n) e).countP (fun m => decide (m < n)) = 0 := by
    apply List.countP_eq_zero.mpr
    intro m member
    have ⟨low, high, _⟩ := mem_stretch.mp member
    rw [decide_eq_true_eq]
    omega
  rw [before, behind, Nat.add_zero]

/-! ## Every `seg`-th element -/

variable {α : Type} {seg : Nat} {ns xs : List α} {x : α}

def Samples (seg : Nat) (ns xs : List α) : Prop := ∀ j : Nat, xs[j]? = ns[j * seg]?

theorem Samples.lt_length_iff (samples : Samples seg ns xs) {j : Nat} :
    j < xs.length ↔ j * seg < ns.length := by
  have same := samples j
  rw [← not_le, ← not_le, ← List.getElem?_eq_none_iff, ← List.getElem?_eq_none_iff, same]

theorem Samples.length_le_iff (samples : Samples seg ns xs) {size : Nat} :
    xs.length ≤ size ↔ ns.length ≤ size * seg := by
  rw [← not_lt, ← not_lt, samples.lt_length_iff]

theorem Samples.nil (seg : Nat) : Samples seg ([] : List α) [] := fun _ => rfl

theorem Samples.take (samples : Samples seg ns xs) (whole : ns.length % seg = 0)
    (positive : 0 < seg) : Samples seg (ns ++ [x]) (xs ++ [x]) := by
  obtain ⟨k, size⟩ := Nat.dvd_of_mod_eq_zero whole
  rw [Nat.mul_comm] at size
  have count : xs.length = k := by
    apply Nat.le_antisymm
    · exact samples.length_le_iff.mpr size.le
    · by_contra less
      have all := samples.length_le_iff.mp (Nat.le_refl xs.length)
      have := Nat.mul_lt_mul_of_pos_right (not_le.mp less) positive
      omega
  intro j
  rcases Nat.lt_trichotomy j k with low | rfl | high
  · have inside : j * seg < ns.length := size ▸ Nat.mul_lt_mul_of_pos_right low positive
    rw [List.getElem?_append_left (count ▸ low), List.getElem?_append_left inside]
    exact samples j
  · rw [List.getElem?_append_right count.le, List.getElem?_append_right size.le, count, size,
      Nat.sub_self, Nat.sub_self]
  · have outside : ns.length < j * seg := size ▸ Nat.mul_lt_mul_of_pos_right high positive
    rw [List.getElem?_eq_none, List.getElem?_eq_none]
    · rw [List.length_append, List.length_singleton]
      exact outside
    · rw [List.length_append, List.length_singleton, count]
      exact high

theorem Samples.skip (samples : Samples seg ns xs) (inside : ns.length % seg ≠ 0) :
    Samples seg (ns ++ [x]) xs := by
  intro j
  rw [samples j]
  rcases Nat.lt_trichotomy (j * seg) ns.length with low | here | high
  · rw [List.getElem?_append_left low]
  · rw [← here, Nat.mul_mod_left] at inside
    exact absurd rfl inside
  · rw [List.getElem?_eq_none high.le, List.getElem?_eq_none]
    rw [List.length_append, List.length_singleton]
    exact high

end Cgsf.Library
