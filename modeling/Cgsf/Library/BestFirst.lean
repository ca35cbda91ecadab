import Mathlib.Algebra.Order.Monoid.Defs
import Mathlib.Algebra.Order.Monoid.Unbundled.Basic
import Mathlib.Data.List.MinMax

/-!
# Best-first search

A search that always expands the open vertex for which the way there and the estimate of the way on
are together least. Where no estimate falls by more than a move costs, no vertex is expanded on a
detour, whatever the order among equals.
-/

namespace Cgsf.Library

/-- A queue with a top that precedes no other element. Which of several it is remains open. -/
structure PriorityQueue (α Q : Type*) (less : α → α → Prop) where
  empty : Q
  push : Q → α → Q
  top : Q → Option α
  pop : Q → Q
  elements : Q → List α
  elements_empty : elements empty = []
  elements_push : ∀ q a, (elements (push q a)).Perm (a :: elements q)
  top_eq_none : ∀ q, top q = none ↔ elements q = []
  elements_top : ∀ q a, top q = some a → (elements q).Perm (a :: elements (pop q))
  top_first : ∀ q a, top q = some a → ∀ b ∈ elements q, ¬less a b

namespace PriorityQueue

variable {α Q : Type*} {less : α → α → Prop} (queue : PriorityQueue α Q less)

theorem mem_push {q : Q} {a b : α} :
    b ∈ queue.elements (queue.push q a) ↔ b = a ∨ b ∈ queue.elements q := by
  rw [(queue.elements_push q a).mem_iff, List.mem_cons]

theorem mem_top {q : Q} {a b : α} (top : queue.top q = some a) :
    b ∈ queue.elements q ↔ b = a ∨ b ∈ queue.elements (queue.pop q) := by
  rw [(queue.elements_top q a top).mem_iff, List.mem_cons]

theorem length_push (q : Q) (a : α) :
    (queue.elements (queue.push q a)).length = (queue.elements q).length + 1 := by
  rw [(queue.elements_push q a).length_eq, List.length_cons]

theorem length_pop {q : Q} {a : α} (top : queue.top q = some a) :
    (queue.elements q).length = (queue.elements (queue.pop q)).length + 1 := by
  rw [(queue.elements_top q a top).length_eq, List.length_cons]

/-- A list as a queue: of several first elements the one that came first is the top. -/
def ofList {β : Type*} [DecidableEq α] [LinearOrder β] (key : α → β) :
    PriorityQueue α (List α) fun a b => key b < key a where
  empty := []
  push q a := q ++ [a]
  top q := q.argmin key
  pop q := ((q.argmin key).map q.erase).getD []
  elements := id
  elements_empty := rfl
  elements_push _ _ := List.perm_append_singleton _ _
  top_eq_none _ := List.argmin_eq_none
  elements_top q a top := by
    rw [top]
    exact List.perm_cons_erase (List.argmin_mem top)
  top_first _ _ top _ member := List.not_lt_of_mem_argmin member top

end PriorityQueue

/-- Moves with their costs, and for each vertex an estimate of the way that is left. -/
structure GuidedGraph (V C : Type*) [AddCommMonoid C] [PartialOrder C] where
  Moves : V → V → Prop
  cost : V → V → C
  estimate : V → C
  cost_nonneg : ∀ u v, Moves u v → 0 ≤ cost u v
  consistent : ∀ u v, Moves u v → estimate u ≤ cost u v + estimate v

namespace GuidedGraph

variable {V C : Type*} [AddCommMonoid C] [PartialOrder C] (graph : GuidedGraph V C)

/-- The vertices behind `start`, the last one and the cost of all moves. -/
inductive Walk (start : V) : List V → V → C → Prop where
  | start : Walk start [] start 0
  | move {path : List V} {u v : V} {c : C} (before : Walk start path u c) (moves : graph.Moves u v) :
      Walk start (path ++ [v]) v (c + graph.cost u v)

/-- What is known of the ways from `start` of a cost up to `limit`: of the closed vertices the least
cost, of those next to them a bound. -/
structure Explored (start : V) (limit : C) (closed opened : V → Prop) (g : V → C) : Prop where
  origin : ¬closed start → opened start ∧ g start ≤ 0
  least : ∀ v, closed v → ∀ path c, graph.Walk start path v c → c ≤ limit → g v ≤ c
  frontier : ∀ u v, closed u → graph.Moves u v → g u + graph.cost u v ≤ limit → ¬closed v →
    opened v ∧ g v ≤ g u + graph.cost u v

variable {graph} [IsOrderedCancelAddMonoid C] {start : V} {limit : C} {closed opened : V → Prop}
variable {g : V → C}

theorem Walk.nonneg {path : List V} {v : V} {c : C} (walk : graph.Walk start path v c) : 0 ≤ c := by
  induction walk with
  | start => exact le_rfl
  | move _ moves ih => exact add_nonneg ih (graph.cost_nonneg _ _ moves)

/-- Where a walk leaves the closed vertices there is an open one that promises no more than the
whole walk costs. -/
theorem Explored.ahead (explored : graph.Explored start limit closed opened g) {path : List V}
    {v : V} {c : C} (walk : graph.Walk start path v c) (within : c ≤ limit) (new : ¬closed v) :
    ∃ w, opened w ∧ g w + graph.estimate w ≤ c + graph.estimate v := by
  induction walk with
  | start =>
      obtain ⟨there, none⟩ := explored.origin new
      exact ⟨start, there, by gcongr⟩
  | @move path u v c before moves ih =>
      have shorter : c ≤ c + graph.cost u v :=
        le_add_of_nonneg_right (graph.cost_nonneg u v moves)
      by_cases known : closed u
      · have least := explored.least u known path c before (shorter.trans within)
        obtain ⟨there, bound⟩ := explored.frontier u v known moves
          (le_trans (by gcongr) within) new
        exact ⟨v, there, by gcongr; exact bound.trans (by gcongr)⟩
      · obtain ⟨w, there, promise⟩ := ih (shorter.trans within) known
        refine ⟨w, there, promise.trans ?_⟩
        rw [add_assoc]
        gcongr
        exact graph.consistent u v moves

/-- No walk to the next vertex to expand is cheaper than the one that was found. -/
theorem Explored.least_of_first (explored : graph.Explored start limit closed opened g) {v : V}
    (new : ¬closed v)
    (first : ∀ w, opened w → g v + graph.estimate v ≤ g w + graph.estimate w) {path : List V}
    {c : C} (walk : graph.Walk start path v c) (within : c ≤ limit) : g v ≤ c := by
  obtain ⟨w, there, promise⟩ := explored.ahead walk within new
  exact le_of_add_le_add_right ((first w there).trans promise)

theorem Explored.closed_of_none (explored : graph.Explored start limit closed opened g)
    (none : ∀ w, ¬opened w) {path : List V} {v : V} {c : C} (walk : graph.Walk start path v c)
    (within : c ≤ limit) : closed v := by
  by_contra new
  obtain ⟨w, there, -⟩ := explored.ahead walk within new
  exact none w there

end GuidedGraph

end Cgsf.Library
