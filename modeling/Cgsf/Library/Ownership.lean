import Mathlib.Data.List.Nodup
import Mathlib.Logic.Function.Basic

/-!
# Objects and their places

An allocator knows the objects that exist. They are owned by a list of places if each of them is in
one place, and each place holds one that exists.
-/

namespace Cgsf.Library

variable {A C : Type*} {objects : A → Option C} {places places' : List A} {a : A}

structure Owned (objects : A → Option C) (places : List A) : Prop where
  nodup : places.Nodup
  held : ∀ a, objects a ≠ none ↔ a ∈ places

namespace Owned

theorem perm (owned : Owned objects places) (same : places.Perm places') :
    Owned objects places' where
  nodup := same.nodup_iff.mp owned.nodup
  held := fun a => (owned.held a).trans same.mem_iff

theorem not_mem (owned : Owned objects places) (free : objects a = none) : a ∉ places :=
  fun here => (owned.held a).mpr here free

theorem alive (owned : Owned objects places) (here : a ∈ places) : ∃ c, objects a = some c :=
  Option.ne_none_iff_exists'.mp ((owned.held a).mpr here)

variable [DecidableEq A]

theorem new (owned : Owned objects places) (free : objects a = none) (c : C) :
    Owned (Function.update objects a (some c)) (a :: places) where
  nodup := List.nodup_cons.mpr ⟨owned.not_mem free, owned.nodup⟩
  held := fun b => by
    by_cases same : b = a
    · subst same
      simp
    · rw [Function.update_of_ne same, owned.held, List.mem_cons, or_iff_right same]

/-- A write leaves the object where it is. -/
theorem write (owned : Owned objects places) (here : a ∈ places) (c : C) :
    Owned (Function.update objects a (some c)) places where
  nodup := owned.nodup
  held := fun b => by
    by_cases same : b = a
    · subst same
      simp [here]
    · rw [Function.update_of_ne same, owned.held]

theorem delete (owned : Owned objects (a :: places)) :
    Owned (Function.update objects a none) places where
  nodup := (List.nodup_cons.mp owned.nodup).2
  held := fun b => by
    by_cases same : b = a
    · subst same
      simp [(List.nodup_cons.mp owned.nodup).1]
    · rw [Function.update_of_ne same, owned.held, List.mem_cons, or_iff_right same]

end Owned

end Cgsf.Library
