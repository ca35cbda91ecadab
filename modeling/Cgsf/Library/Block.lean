import Mathlib.Algebra.Order.BigOperators.Group.List
import Mathlib.Algebra.Order.Monoid.Unbundled.Pow
import Mathlib.Data.List.Basic
import Mathlib.Order.Bounds.Basic

/-!
# Lines and counted loops

Code without branches: lines of type `α`, and loops whose number of turns is told by a `ν`. Where each
line moves a cursor and writes behind it, so does the code.
-/

namespace Cgsf.Library

theorem mem_of_mapM_eq_some {α β : Type*} {f : α → Option β} {xs : List α} {ys : List β} {y : β}
    (each : xs.mapM f = some ys) (member : y ∈ ys) : ∃ x ∈ xs, f x = some y := by
  induction xs generalizing ys with
  | nil =>
      cases each
      contradiction
  | cons x xs ih =>
      rw [List.mapM_cons] at each
      obtain ⟨first, one, each⟩ := Option.bind_eq_some_iff.mp each
      obtain ⟨rest, two, same⟩ := Option.bind_eq_some_iff.mp each
      cases same
      cases member with
      | head => exact ⟨x, List.mem_cons_self, one⟩
      | tail _ member =>
          obtain ⟨x', mem, is⟩ := ih two member
          exact ⟨x', List.mem_cons_of_mem _ mem, is⟩

inductive Block (α ν : Type) where
  | skip
  | line (a : α)
  | seq (first rest : Block α ν)
  | loop (count : ν) (body : Block α ν)

namespace Block

variable {α β ν μ : Type} {f : Bool → α → Option β} {g : ν → Option μ}

/-- Every line and every count replaced, if each of them can be; `f` is told whether its line stands
in a loop. -/
def replace (f : Bool → α → Option β) (g : ν → Option μ) : Bool → Block α ν → Option (Block β μ)
  | _, skip => some skip
  | inLoop, line a => (f inLoop a).map line
  | inLoop, seq first rest =>
      (replace f g inLoop first).bind fun first => (replace f g inLoop rest).map (seq first)
  | _, loop count body => (g count).bind fun count => (replace f g true body).map (loop count)

/-- The lines in the order of their turns, each with the index of the innermost loop. -/
def unroll (turns : ν → Option Nat) : Nat → Block α ν → Option (List (Nat × α))
  | _, skip => some []
  | i, line a => some [(i, a)]
  | i, seq first rest =>
      (unroll turns i first).bind fun first => (unroll turns i rest).map (first ++ ·)
  | _, loop count body =>
      (turns count).bind fun n => ((List.range n).mapM fun i => unroll turns i body).map List.flatten

theorem replace_line {inLoop : Bool} {a : α} {b : Block β μ} :
    replace f g inLoop (line a) = some b ↔ ∃ a', f inLoop a = some a' ∧ line a' = b :=
  Option.map_eq_some_iff

theorem replace_seq {inLoop : Bool} {first rest : Block α ν} {b : Block β μ} :
    replace f g inLoop (seq first rest) = some b ↔ ∃ first' rest',
      replace f g inLoop first = some first' ∧ replace f g inLoop rest = some rest' ∧
        seq first' rest' = b := by
  simp only [replace, Option.bind_eq_some_iff, Option.map_eq_some_iff]
  constructor
  · rintro ⟨first', one, rest', two, rfl⟩
    exact ⟨first', rest', one, two, rfl⟩
  · rintro ⟨first', rest', one, two, rfl⟩
    exact ⟨first', one, rest', two, rfl⟩

theorem replace_loop {inLoop : Bool} {count : ν} {body : Block α ν} {b : Block β μ} :
    replace f g inLoop (loop count body) = some b ↔ ∃ count' body',
      g count = some count' ∧ replace f g true body = some body' ∧ loop count' body' = b := by
  simp only [replace, Option.bind_eq_some_iff, Option.map_eq_some_iff]
  constructor
  · rintro ⟨count', one, body', two, rfl⟩
    exact ⟨count', body', one, two, rfl⟩
  · rintro ⟨count', body', one, two, rfl⟩
    exact ⟨count', one, body', two, rfl⟩

/-- What holds of every line. -/
def Lines (p : α → Prop) : Block α ν → Prop
  | skip => True
  | line a => p a
  | seq first rest => Lines p first ∧ Lines p rest
  | loop _ body => Lines p body

theorem unroll_lines {p : α → Prop} {turns : ν → Option Nat} {b : Block α ν} (lines : Lines p b)
    {i : Nat} {items : List (Nat × α)} (unrolled : unroll turns i b = some items) :
    ∀ item ∈ items, p item.2 := by
  induction b generalizing i items with
  | skip =>
      cases unrolled
      simp
  | line a =>
      cases unrolled
      rintro item member
      cases List.mem_singleton.mp member
      exact lines
  | seq first rest one two =>
      obtain ⟨items₁, is, more⟩ := Option.bind_eq_some_iff.mp unrolled
      obtain ⟨items₂, is', rfl⟩ := Option.map_eq_some_iff.mp more
      intro item member
      rcases List.mem_append.mp member with member | member
      · exact one lines.1 is item member
      · exact two lines.2 is' item member
  | loop count body ih =>
      obtain ⟨n, -, more⟩ := Option.bind_eq_some_iff.mp unrolled
      obtain ⟨turns', each, rfl⟩ := Option.map_eq_some_iff.mp more
      intro item member
      obtain ⟨turn, mem, member⟩ := List.mem_flatten.mp member
      obtain ⟨i, -, is⟩ := mem_of_mapM_eq_some each mem
      exact ih lines is item member

end Block

/-! ## Writing behind a cursor -/

/-- How far the cursor moves, and the room behind its first place that this and the writing need. -/
@[ext] structure Extent where
  moved : Nat
  reach : Nat
  inside : moved ≤ reach
  deriving DecidableEq

namespace Extent

/-- One behind the other. -/
instance : Mul Extent where
  mul a b := ⟨a.moved + b.moved, max a.reach (a.moved + b.reach),
    le_max_of_le_right (Nat.add_le_add_left b.inside _)⟩

instance : One Extent where
  one := ⟨0, 0, le_rfl⟩

@[simp] theorem moved_mul (a b : Extent) : (a * b).moved = a.moved + b.moved := rfl

@[simp] theorem reach_mul (a b : Extent) : (a * b).reach = max a.reach (a.moved + b.reach) := rfl

@[simp] theorem moved_one : (1 : Extent).moved = 0 := rfl

@[simp] theorem reach_one : (1 : Extent).reach = 0 := rfl

instance : Monoid Extent where
  mul_assoc a b c := by
    ext
    · exact Nat.add_assoc _ _ _
    · simp only [moved_mul, reach_mul]
      omega
  one_mul a := by
    ext
    · exact Nat.zero_add _
    · simp
  mul_one a := by
    ext
    · rfl
    · exact max_eq_left a.inside

instance : PartialOrder Extent where
  le a b := a.moved ≤ b.moved ∧ a.reach ≤ b.reach
  le_refl a := ⟨le_rfl, le_rfl⟩
  le_trans a b c first second := ⟨first.1.trans second.1, first.2.trans second.2⟩
  le_antisymm a b first second := Extent.ext (first.1.antisymm second.1) (first.2.antisymm second.2)

theorem le_def {a b : Extent} : a ≤ b ↔ a.moved ≤ b.moved ∧ a.reach ≤ b.reach := Iff.rfl

theorem one_le (a : Extent) : 1 ≤ a := ⟨Nat.zero_le _, Nat.zero_le _⟩

instance : MulLeftMono Extent where
  elim a b c le := by
    change b ≤ c at le
    change a * b ≤ a * c
    rw [le_def] at le ⊢
    simp only [moved_mul, reach_mul]
    omega

instance : MulRightMono Extent where
  elim a b c le := by
    change b ≤ c at le
    change b * a ≤ c * a
    rw [le_def] at le ⊢
    simp only [moved_mul, reach_mul]
    omega

end Extent

namespace Block

variable {α : Type} {line : α → Extent → Prop} {most : α → Extent}

/-- What code can write when a loop has at most as many turns as it says. -/
def Writes (line : α → Extent → Prop) : Block α Nat → Extent → Prop
  | skip, e => e = 1
  | .line a, e => line a e
  | seq first rest, e => ∃ e₁ e₂, Writes line first e₁ ∧ Writes line rest e₂ ∧ e = e₁ * e₂
  | loop bound body, e =>
      ∃ turns : List Extent, turns.length ≤ bound ∧ (∀ turn ∈ turns, Writes line body turn) ∧
        e = turns.prod

/-- All loops to their last turn. -/
def extent (most : α → Extent) : Block α Nat → Extent
  | skip => 1
  | .line a => most a
  | seq first rest => extent most first * extent most rest
  | loop bound body => extent most body ^ bound

theorem isGreatest_extent (lines : ∀ a, IsGreatest {e | line a e} (most a)) (b : Block α Nat) :
    IsGreatest {e | Writes line b e} (extent most b) := by
  induction b with
  | skip => exact ⟨rfl, fun e is => le_of_eq is⟩
  | line a => exact lines a
  | seq first rest one two =>
      refine ⟨⟨_, _, one.1, two.1, rfl⟩, ?_⟩
      rintro e ⟨e₁, e₂, is₁, is₂, rfl⟩
      exact mul_le_mul' (one.2 is₁) (two.2 is₂)
  | loop bound body ih =>
      refine ⟨⟨List.replicate bound (extent most body), by simp, ?_, by simp [extent]⟩, ?_⟩
      · intro turn member
        rw [List.eq_of_mem_replicate member]
        exact ih.1
      · rintro e ⟨turns, le, each, rfl⟩
        calc turns.prod ≤ extent most body ^ turns.length :=
              List.prod_le_pow_card _ _ fun turn member => ih.2 (each turn member)
          _ ≤ extent most body ^ bound := pow_le_pow_right' (Extent.one_le _) le

end Block

end Cgsf.Library
