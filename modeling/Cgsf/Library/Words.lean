import Mathlib.Tactic.Ring
import Mathlib.Data.List.Basic

/-! # Words in bytes -/

namespace Cgsf.Library

/-- Two numbers that fit a byte are the same if they are the same byte. -/
theorem byte_inj {i j : Nat} (left : i < 256) (right : j < 256)
    (same : UInt8.ofNat i = UInt8.ofNat j) : i = j := by
  have equal := congrArg UInt8.toNat same
  rwa [UInt8.toNat_ofNat_of_lt' left, UInt8.toNat_ofNat_of_lt' right] at equal

/-- The `width` low bytes of `n`, lowest first. -/
def leBytes : Nat → Nat → List UInt8
  | 0, _ => []
  | width + 1, n => UInt8.ofNat n :: leBytes width (n / 256)

def leValue : List UInt8 → Nat
  | [] => 0
  | b :: bs => b.toNat + 256 * leValue bs

@[simp] theorem leBytes_length (width n : Nat) : (leBytes width n).length = width := by
  induction width generalizing n with
  | zero => rfl
  | succ width ih => simp [leBytes, ih]

theorem leValue_lt (bs : List UInt8) : leValue bs < 256 ^ bs.length := by
  induction bs with
  | nil => simp [leValue]
  | cons b bs ih =>
      have low := b.toNat_lt
      simp only [leValue, List.length_cons, Nat.pow_succ]
      omega

theorem leValue_leBytes (width n : Nat) : leValue (leBytes width n) = n % 256 ^ width := by
  induction width generalizing n with
  | zero => simp [leBytes, leValue, Nat.mod_one]
  | succ width ih =>
      have byte : (UInt8.ofNat n).toNat = n % 256 := UInt8.toNat_ofNat'
      rw [leBytes, leValue, ih, byte, Nat.pow_succ', Nat.mod_mul]

theorem leBytes_leValue (bs : List UInt8) : leBytes bs.length (leValue bs) = bs := by
  induction bs with
  | nil => rfl
  | cons b bs ih =>
      have low := b.toNat_lt
      have rest : (b.toNat + 256 * leValue bs) / 256 = leValue bs := by omega
      have head : UInt8.ofNat (b.toNat + 256 * leValue bs) = b := by
        apply UInt8.toNat_inj.mp
        simp only [UInt8.toNat_ofNat']
        omega
      simp only [List.length_cons, leBytes, leValue, head, rest, ih]

theorem leBytes_leValue_word (bs : List UInt8) (width : Nat) (length : bs.length = width) :
    leBytes width (leValue bs) = bs := by
  rw [← length, leBytes_leValue]

theorem leValue_leBytes_of_lt (width n : Nat) (lt : n < 256 ^ width) :
    leValue (leBytes width n) = n := by
  rw [leValue_leBytes, Nat.mod_eq_of_lt lt]

/-- The highest byte first. -/
def beBytes (width n : Nat) : List UInt8 := (leBytes width n).reverse

def beValue (bs : List UInt8) : Nat := leValue bs.reverse

@[simp] theorem beBytes_length (width n : Nat) : (beBytes width n).length = width := by
  simp [beBytes]

theorem beValue_beBytes_of_lt (width n : Nat) (lt : n < 256 ^ width) :
    beValue (beBytes width n) = n := by
  rw [beValue, beBytes, List.reverse_reverse, leValue_leBytes_of_lt width n lt]

/-- A field between what precedes it and what follows it. -/
theorem field_of_append {α : Type*} (front field rest : List α) (offset size : Nat)
    (before : front.length = offset) (within : field.length = size) :
    ((front ++ (field ++ rest)).drop offset).take size = field := by
  rw [List.drop_left' before, List.take_left' within]

/-- Rows of one width behind each other start at the multiples of the width. -/
theorem drop_flatMap {α β : Type*} {f : α → List β} {width : Nat} (rows : List α)
    (length : ∀ row ∈ rows, (f row).length = width) (i : Nat) :
    (rows.flatMap f).drop (width * i) = (rows.drop i).flatMap f := by
  induction i generalizing rows with
  | zero => rfl
  | succ i ih =>
      cases rows with
      | nil => simp
      | cons row rows =>
          obtain ⟨first, later⟩ := List.forall_mem_cons.mp length
          rw [List.flatMap_cons, Nat.mul_succ, Nat.add_comm, ← List.drop_drop,
            List.drop_left' first, ih rows later, List.drop_succ_cons]

theorem append_field {α : Type*} (bs : List α) (offset size next : Nat)
    (eq : offset + size = next) : (bs.drop offset).take size ++ bs.drop next = bs.drop offset := by
  rw [← eq, ← List.drop_drop, List.take_append_drop]

end Cgsf.Library
