import Mathlib.Data.List.Rotate

/-!
# Cyclic buffers

A list read as a ring. `window buf head n` is the `n` cells from `head` on, with wrap-around;
`splice` overwrites a range that does not wrap.
-/

namespace Cgsf.Library

variable {α : Type*}

def splice (buf : List α) (offset : Nat) (xs : List α) : List α :=
  buf.take offset ++ xs ++ buf.drop (offset + xs.length)

/-- A copy of `xs` into `buf` at `offset`; `none` where the copy would leave the buffer. -/
def write? (buf : List α) (offset : Nat) (xs : List α) : Option (List α) :=
  if offset + xs.length ≤ buf.length then some (splice buf offset xs) else none

/-- A copy of `n` cells out of `buf`; `none` where it would read past the end. -/
def read? (buf : List α) (offset n : Nat) : Option (List α) :=
  if offset + n ≤ buf.length then some ((buf.drop offset).take n) else none

def window (buf : List α) (head n : Nat) : List α := (buf.rotate head).take n

theorem splice_length (buf : List α) (offset : Nat) (xs : List α)
    (inside : offset + xs.length ≤ buf.length) : (splice buf offset xs).length = buf.length := by
  simp only [splice, List.length_append, List.length_take, List.length_drop]
  omega

theorem write?_fits (buf : List α) (offset : Nat) (xs : List α)
    (le : offset + xs.length ≤ buf.length) :
    ∃ buf', write? buf offset xs = some buf' ∧ buf'.length = buf.length :=
  ⟨_, if_pos le, splice_length buf offset xs le⟩

theorem write?_eq_some {buf buf' : List α} {offset : Nat} {xs : List α} :
    write? buf offset xs = some buf' ↔
      offset + xs.length ≤ buf.length ∧ splice buf offset xs = buf' := by
  unfold write?
  split
  · simp [*]
  · simp [*]

theorem splice_middle (front mid rest xs : List α) (same : mid.length = xs.length) :
    splice (front ++ (mid ++ rest)) front.length xs = front ++ (xs ++ rest) := by
  rw [splice, List.take_left, ← same, ← List.append_assoc front mid rest,
    List.drop_left' List.length_append, List.append_assoc]

theorem splice_getElem?_outside (buf : List α) (offset : Nat) (xs : List α) (j : Nat)
    (inside : offset + xs.length ≤ buf.length) (outside : j < offset ∨ offset + xs.length ≤ j) :
    (splice buf offset xs)[j]? = buf[j]? := by
  have front : (buf.take offset).length = offset := by rw [List.length_take]; omega
  rcases outside with before | after
  · rw [splice, List.append_assoc, List.getElem?_append_left (by omega),
      List.getElem?_take_of_lt before]
  · rw [splice, List.getElem?_append_right (by rw [List.length_append]; omega),
      List.getElem?_drop, List.length_append, front]
    congr 1
    omega

/-- A copy out of a buffer depends on the cells that it covers. -/
theorem read?_congr {buf buf' : List α} {offset n : Nat} (length : buf'.length = buf.length)
    (same : ∀ j, offset ≤ j → j < offset + n → buf'[j]? = buf[j]?) :
    read? buf' offset n = read? buf offset n := by
  unfold read?
  rw [length]
  split
  · apply congrArg some
    apply List.ext_getElem?
    intro i
    simp only [List.getElem?_take, List.getElem?_drop]
    split
    · exact same (offset + i) (Nat.le_add_right _ _) (by omega)
    · rfl
  · rfl

theorem read?_splice_self (buf : List α) (offset : Nat) (xs : List α)
    (inside : offset + xs.length ≤ buf.length) :
    read? (splice buf offset xs) offset xs.length = some xs := by
  have size := splice_length buf offset xs inside
  have front : (buf.take offset).length = offset := by rw [List.length_take]; omega
  rw [read?, if_pos (by omega), splice, List.append_assoc, List.drop_left' front, List.take_left]

theorem read?_take {buf xs : List α} {offset n : Nat} (read : read? buf offset n = some xs)
    (m : Nat) (le : m ≤ n) : read? buf offset m = some (xs.take m) := by
  rw [read?] at read ⊢
  split at read
  · rw [if_pos (by omega), ← Option.some.inj read, List.take_take, Nat.min_eq_left le]
  · cases read

theorem read?_drop {buf xs : List α} {offset n : Nat} (read : read? buf offset n = some xs)
    (m : Nat) (le : m ≤ n) : read? buf (offset + m) (n - m) = some (xs.drop m) := by
  rw [read?] at read ⊢
  split at read
  · rw [if_pos (by omega), ← Option.some.inj read, List.drop_take, List.drop_drop]
  · cases read

/-- What is written right behind a range is read together with it. -/
theorem read?_splice {buf xs : List α} {offset n : Nat} (read : read? buf offset n = some xs)
    (ys : List α) (inside : offset + n + ys.length ≤ buf.length) :
    read? (splice buf (offset + n) ys) offset (n + ys.length) = some (xs ++ ys) := by
  have size := splice_length buf (offset + n) ys inside
  rw [read?, if_pos (by omega)] at read
  obtain rfl := Option.some.inj read
  have front : (buf.take (offset + n)).length = offset + n := by rw [List.length_take]; omega
  have middle : ((buf.drop offset).take n).length = n := by
    rw [List.length_take, List.length_drop]
    omega
  rw [read?, if_pos (by omega), splice, List.append_assoc,
    List.drop_append_of_le_length (by omega), List.drop_take, Nat.add_sub_cancel_left,
    ← List.append_assoc, List.take_left' (by rw [List.length_append, middle])]

@[simp] theorem window_zero (buf : List α) (head : Nat) : window buf head 0 = [] := rfl

theorem window_length (buf : List α) (head n : Nat) (le : n ≤ buf.length) :
    (window buf head n).length = n := by
  simp [window, le]

theorem window_getElem? (buf : List α) (head n i : Nat) (lt : i < n) (le : n ≤ buf.length) :
    (window buf head n)[i]? = buf[(head + i) % buf.length]? := by
  rw [window, List.getElem?_take_of_lt lt, List.getElem?_rotate (by omega), Nat.add_comm]

/-- A window of at most the whole ring that starts inside it indexes with at most one wrap. -/
theorem cyclic_index (size head i : Nat) (start : head < size) (lt : i < size) :
    (head + i) % size = if head + i < size then head + i else head + i - size := by
  split
  · exact Nat.mod_eq_of_lt ‹_›
  · rw [Nat.mod_eq_sub_mod (by omega), Nat.mod_eq_of_lt (by omega)]

theorem wrap_once (size a : Nat) (lt : a < 2 * size) :
    (if a ≥ size then a - size else a) = a % size := by
  split
  · rw [Nat.mod_eq_sub_mod ‹_›, Nat.mod_eq_of_lt (by omega)]
  · rw [Nat.mod_eq_of_lt (by omega)]

theorem window_add (buf : List α) (head n m : Nat) (le : n + m ≤ buf.length) :
    window buf head (n + m) = window buf head n ++ window buf ((head + n) % buf.length) m := by
  have turn : buf.rotate ((head + n) % buf.length) = (buf.rotate head).rotate n := by
    rw [List.rotate_mod, List.rotate_rotate]
  have long : n ≤ (buf.rotate head).length := by simp; omega
  rw [window, window, window, turn, List.rotate_eq_drop_append_take long, List.take_add,
    List.take_append_of_le_length (by simp; omega)]

theorem window_take (buf : List α) (head n m : Nat) (le : n ≤ m) :
    (window buf head m).take n = window buf head n := by
  rw [window, window, List.take_take, Nat.min_eq_left le]

theorem window_drop (buf : List α) (head n m : Nat) (le : n + m ≤ buf.length) :
    (window buf head (n + m)).drop n = window buf ((head + n) % buf.length) m := by
  have size := window_length buf head n (by omega)
  rw [window_add buf head n m le, List.drop_left' size]

theorem window_of_le (buf : List α) (head n : Nat) (le : head + n ≤ buf.length) :
    window buf head n = (buf.drop head).take n := by
  rw [window, List.rotate_eq_drop_append_take (by omega),
    List.take_append_of_le_length (by rw [List.length_drop]; omega)]

theorem window_of_wrap (buf : List α) (head n : Nat) (start : head ≤ buf.length)
    (wrap : buf.length ≤ head + n) (le : n ≤ buf.length) :
    window buf head n = buf.drop head ++ buf.take (head + n - buf.length) := by
  rw [window, List.rotate_eq_drop_append_take start, List.take_append, List.take_take,
    List.take_of_length_le (by rw [List.length_drop]; omega), List.length_drop,
    Nat.min_eq_left (by omega)]
  congr 2
  omega

theorem window_splice_self (buf : List α) (offset : Nat) (xs : List α)
    (inside : offset + xs.length ≤ buf.length) :
    window (splice buf offset xs) offset xs.length = xs := by
  have size := splice_length buf offset xs inside
  have front : (buf.take offset).length = offset := by rw [List.length_take]; omega
  rw [window_of_le _ _ _ (by omega), splice, List.append_assoc, List.drop_left' front,
    List.take_left]

/-- Overwriting cells that a window does not cover leaves the window as it was. -/
theorem window_splice_outside (buf : List α) (head n offset : Nat) (xs : List α)
    (le : n ≤ buf.length) (inside : offset + xs.length ≤ buf.length)
    (apart : ∀ i < n, (head + i) % buf.length < offset ∨
      offset + xs.length ≤ (head + i) % buf.length) :
    window (splice buf offset xs) head n = window buf head n := by
  have size := splice_length buf offset xs inside
  apply List.ext_getElem?
  intro i
  by_cases lt : i < n
  · rw [window_getElem? _ _ _ _ lt (by omega), window_getElem? _ _ _ _ lt le, size,
      splice_getElem?_outside buf offset xs _ inside (apart i lt)]
  · rw [List.getElem?_eq_none, List.getElem?_eq_none]
    · rw [window_length _ _ _ le]; omega
    · rw [window_length _ _ _ (by omega)]; omega

end Cgsf.Library
