import Cgsf.Library.Words
import Mathlib.Data.List.GetD

/-!
# Reading memory

A reader asks for one byte of memory after another, at positions that may depend on what it has
read, and answers. One whose positions all lie in a region answers the same whatever else memory
holds.
-/

namespace Cgsf.Library

inductive Reader (α : Type) where
  | done (answer : α)
  | read (position : Nat) (next : UInt8 → Reader α)

namespace Reader

variable {α β : Type}

def bind : Reader α → (α → Reader β) → Reader β
  | done answer, f => f answer
  | read position next, f => read position fun b => (next b).bind f

def run (memory : Nat → UInt8) : Reader α → α
  | done answer => answer
  | read position next => (next (memory position)).run memory

def positions (memory : Nat → UInt8) : Reader α → List Nat
  | done _ => []
  | read position next => position :: (next (memory position)).positions memory

/-- Every position that the reader asks for in this memory lies below `size`. -/
def Within (memory : Nat → UInt8) (size : Nat) (r : Reader α) : Prop :=
  ∀ i ∈ r.positions memory, i < size

@[simp] theorem run_done (memory : Nat → UInt8) (answer : α) :
    (done answer).run memory = answer := rfl

@[simp] theorem run_read (memory : Nat → UInt8) (position : Nat) (next : UInt8 → Reader α) :
    (read position next).run memory = (next (memory position)).run memory := rfl

theorem run_bind (memory : Nat → UInt8) (r : Reader α) (f : α → Reader β) :
    (r.bind f).run memory = (f (r.run memory)).run memory := by
  induction r with
  | done answer => rfl
  | read position next ih => exact ih (memory position)

@[simp] theorem within_done (memory : Nat → UInt8) (size : Nat) (answer : α) :
    (done answer).Within memory size := nofun

@[simp] theorem within_read (memory : Nat → UInt8) (size position : Nat)
    (next : UInt8 → Reader α) : (read position next).Within memory size ↔
      position < size ∧ (next (memory position)).Within memory size :=
  List.forall_mem_cons

theorem within_bind (memory : Nat → UInt8) (size : Nat) (r : Reader α) (f : α → Reader β) :
    (r.bind f).Within memory size ↔
      r.Within memory size ∧ (f (r.run memory)).Within memory size := by
  induction r with
  | done answer => exact (and_iff_right (within_done memory size answer)).symm
  | read position next ih =>
      rw [bind, within_read, within_read, ih, and_assoc]
      rfl

/-- What lies outside the region has no influence on the answer, nor on the positions. -/
theorem run_congr {memory memory' : Nat → UInt8} {size : Nat}
    (same : ∀ i < size, memory i = memory' i) (r : Reader α) (within : r.Within memory size) :
    r.run memory = r.run memory' ∧ r.positions memory = r.positions memory' := by
  induction r with
  | done answer => exact ⟨rfl, rfl⟩
  | read position next ih =>
      obtain ⟨inside, later⟩ := (within_read memory size position next).mp within
      obtain ⟨answers, asks⟩ := ih (memory position) later
      rw [run_read, run_read, positions, positions, ← same position inside]
      exact ⟨answers, congrArg _ asks⟩

/-- A run of bytes, as a copy reads it. -/
def bytes (position : Nat) : Nat → Reader (List UInt8)
  | 0 => done []
  | count + 1 => read position fun b => (bytes (position + 1) count).bind fun bs => done (b :: bs)

theorem run_bytes (memory : Nat → UInt8) (position count : Nat) :
    (bytes position count).run memory = (List.range' position count).map memory := by
  induction count generalizing position with
  | zero => rfl
  | succ count ih => rw [bytes, run_read, run_bind, ih, List.range'_succ, List.map_cons, run_done]

theorem within_bytes (memory : Nat → UInt8) (size position count : Nat) :
    (bytes position count).Within memory size ↔ count = 0 ∨ position + count ≤ size := by
  induction count generalizing position with
  | zero => simp [bytes]
  | succ count ih =>
      simp only [bytes, within_read, within_bind, ih, within_done, and_true]
      omega

end Reader

/-- The region at the start of memory holds these bytes. -/
def Holds (memory : Nat → UInt8) (bs : List UInt8) : Prop :=
  ∀ i < bs.length, memory i = bs.getD i 0

theorem holds_over (memory : Nat → UInt8) (bs : List UInt8) :
    Holds (fun i => bs.getD i (memory i)) bs := by
  intro i lt
  dsimp only
  rw [List.getD_eq_getElem _ _ lt, List.getD_eq_getElem _ _ lt]

theorem Holds.field {memory : Nat → UInt8} {bs : List UInt8} (holds : Holds memory bs)
    (position count : Nat) (inside : position + count ≤ bs.length) :
    (List.range' position count).map memory = (bs.drop position).take count := by
  refine List.ext_getElem (by simp; omega) fun i left right => ?_
  have small : i < count := by simpa using left
  rw [List.getElem_map, List.getElem_range', List.getElem_take, List.getElem_drop, Nat.one_mul,
    holds _ (by omega), List.getD_eq_getElem _ _ (by omega)]

theorem Holds.word {memory : Nat → UInt8} {bs : List UInt8} (holds : Holds memory bs)
    (position : Nat) (inside : position + 2 ≤ bs.length) :
    leValue [memory position, memory (position + 1)] = leValue ((bs.drop position).take 2) := by
  rw [← holds.field position 2 inside]
  rfl

end Cgsf.Library
