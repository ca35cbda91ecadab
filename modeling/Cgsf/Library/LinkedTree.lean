import Mathlib.Data.Tree.Basic
import Mathlib.Data.List.Nodup
import Mathlib.Order.Lattice

/-!
# Binary trees linked through memory

A node points to its two children and to its parent. A place in a tree is the path from there up to
the root: on each step a node, the side it was left on, and the subtree on its other side.
-/

namespace Cgsf.Library.LinkedTree
open BinaryTree

variable {α : Type*}

inductive Branch where
  | left
  | right
  deriving DecidableEq, Repr

def Branch.other : Branch → Branch
  | left => right
  | right => left

def inorder : BinaryTree α → List α
  | .nil => []
  | .node x l r => inorder l ++ x :: inorder r

/-- The node at the root. -/
def top : BinaryTree α → Option α
  | .nil => none
  | .node x _ _ => some x

theorem length_inorder (t : BinaryTree α) : (inorder t).length = t.numNodes := by
  induction t with
  | nil => rfl
  | node x l r ihl ihr =>
      rw [inorder, List.length_append, List.length_cons, ihl, ihr, numNodes]
      omega

theorem inorder_eq_nil {t : BinaryTree α} (empty : inorder t = []) : t = .nil := by
  cases t with
  | nil => rfl
  | node x l r => exact absurd empty (List.append_ne_nil_of_right_ne_nil _ (List.cons_ne_nil _ _))

theorem inorder_eq_singleton {t : BinaryTree α} {x : α} (single : inorder t = [x]) :
    t = .node x .nil .nil := by
  cases t with
  | nil => cases single
  | node y l r =>
      obtain ⟨less, middle⟩ | ⟨-, nothing⟩ := List.append_eq_singleton_iff.mp single
      · obtain ⟨rfl, greater⟩ := List.cons.inj middle
        rw [inorder_eq_nil less, inorder_eq_nil greater]
      · cases nothing

theorem top_mem {t : BinaryTree α} {x : α} (is : top t = some x) : x ∈ inorder t := by
  cases t with
  | nil => cases is
  | node y l r =>
      cases is
      simp [inorder]

/-! ## Places in a tree -/

structure TreeStep (α : Type*) where
  side : Branch
  node : α
  other : BinaryTree α

/-- A node with `t` on a side. -/
def TreeStep.fill (step : TreeStep α) (t : BinaryTree α) : BinaryTree α :=
  match step.side with
  | .left => .node step.node t step.other
  | .right => .node step.node step.other t

/-- The whole tree, with `t` at the end of the path. -/
def plug : List (TreeStep α) → BinaryTree α → BinaryTree α
  | [], t => t
  | step :: path, t => plug path (step.fill t)

/-- What comes before the place, and after it. -/
def before : List (TreeStep α) → List α
  | [] => []
  | ⟨.left, _, _⟩ :: path => before path
  | ⟨.right, x, l⟩ :: path => before path ++ (inorder l ++ [x])

def after : List (TreeStep α) → List α
  | [] => []
  | ⟨.left, x, r⟩ :: path => (x :: inorder r) ++ after path
  | ⟨.right, _, _⟩ :: path => after path

theorem inorder_plug (path : List (TreeStep α)) (t : BinaryTree α) :
    inorder (plug path t) = before path ++ inorder t ++ after path := by
  induction path generalizing t with
  | nil => simp [plug, before, after]
  | cons step path ih =>
      obtain ⟨side, x, other⟩ := step
      rw [plug, ih]
      cases side <;> simp [TreeStep.fill, before, after, inorder]

/-- The nodes of the path and their other subtrees. -/
def aside (path : List (TreeStep α)) : List α :=
  path.flatMap fun step => step.node :: inorder step.other

theorem aside_perm (path : List (TreeStep α)) : (before path ++ after path).Perm (aside path) := by
  induction path with
  | nil => exact .refl _
  | cons step path ih =>
      obtain ⟨side, x, other⟩ := step
      rw [aside, List.flatMap_cons, ← aside]
      cases side with
      | left =>
          rw [before, after, ← List.append_assoc]
          exact (List.perm_append_comm.append_right _).trans
            (by rw [List.append_assoc]; exact ih.append_left _)
      | right =>
          rw [before, after, List.append_assoc]
          refine (List.perm_append_comm_assoc ..).trans ?_
          exact (List.perm_append_singleton x (inorder other)).append ih

/-- The nodes of a tree are those around a place and those at it. -/
theorem inorder_plug_perm (path : List (TreeStep α)) (s : BinaryTree α) :
    (inorder (plug path s)).Perm (aside path ++ inorder s) := by
  rw [inorder_plug]
  refine (List.perm_append_comm.append_right _).trans ?_
  rw [List.append_assoc]
  exact List.perm_append_comm.trans ((aside_perm path).append_right _)

/-- What stands at a place is not around it. -/
theorem nodup_plug {path : List (TreeStep α)} {s : BinaryTree α}
    (nodup : (inorder (plug path s)).Nodup) :
    (aside path).Nodup ∧ (inorder s).Nodup ∧ ∀ y ∈ inorder s, y ∉ aside path := by
  obtain ⟨around, here, apart⟩ := List.nodup_append.mp ((inorder_plug_perm path s).nodup_iff.mp nodup)
  exact ⟨around, here, fun y member outside => apart y outside y member rfl⟩

/-! ## Pointers -/

structure TreeLinks (α : Type*) where
  child : Branch → α → Option α
  parent : α → Option α

variable {g g' : TreeLinks α}

/-- `ptr` leads to the tree, whose root points back to `p`. -/
def Rooted (g : TreeLinks α) : Option α → Option α → BinaryTree α → Prop
  | _, ptr, .nil => ptr = none
  | p, ptr, .node x l r => ptr = some x ∧ g.parent x = p ∧
      Rooted g (some x) (g.child .left x) l ∧ Rooted g (some x) (g.child .right x) r

/-- What the last step of a path hangs from. -/
def foot (p : Option α) : List (TreeStep α) → Option α
  | [] => p
  | step :: _ => some step.node

/-- `root` leads to the tree around a place, and `ptr` stands at the place. -/
def Around (g : TreeLinks α) (p root : Option α) : List (TreeStep α) → Option α → Prop
  | [], ptr => root = ptr
  | step :: path, ptr => g.child step.side step.node = ptr ∧
      Rooted g (some step.node) (g.child step.side.other step.node) step.other ∧
        g.parent step.node = foot p path ∧ Around g p root path (some step.node)

theorem Rooted.ptr_eq {p ptr : Option α} {t : BinaryTree α} (rooted : Rooted g p ptr t) :
    ptr = top t := by
  cases t with
  | nil => exact rooted
  | node x l r => exact rooted.1

theorem Rooted.congr {p ptr : Option α} {t : BinaryTree α} (rooted : Rooted g p ptr t)
    (children : ∀ y ∈ inorder t, ∀ side, g'.child side y = g.child side y)
    (parents : ∀ y ∈ inorder t, g'.parent y = g.parent y) : Rooted g' p ptr t := by
  induction t generalizing p ptr with
  | nil => exact rooted
  | node x l r ihl ihr =>
      obtain ⟨rfl, above, left, right⟩ := rooted
      have here : x ∈ inorder (.node x l r) := by simp [inorder]
      refine ⟨rfl, (parents x here).trans above, ?_, ?_⟩
      · rw [children x here]
        exact ihl left (fun y member => children y (List.mem_append_left _ member))
          fun y member => parents y (List.mem_append_left _ member)
      · rw [children x here]
        exact ihr right (fun y member => children y (by simp [inorder, member]))
          fun y member => parents y (by simp [inorder, member])

/-- The root points back to another node. -/
theorem Rooted.reparent {p p' ptr : Option α} {t : BinaryTree α} (rooted : Rooted g p ptr t)
    (nodup : (inorder t).Nodup)
    (children : ∀ y ∈ inorder t, ∀ side, g'.child side y = g.child side y)
    (parents : ∀ y ∈ inorder t, top t ≠ some y → g'.parent y = g.parent y)
    (back : ∀ y ∈ top t, g'.parent y = p') : Rooted g' p' ptr t := by
  cases t with
  | nil => exact rooted
  | node x l r =>
      obtain ⟨rfl, -, left, right⟩ := rooted
      have fresh := (List.nodup_cons.mp (List.nodup_middle.mp nodup)).1
      have notTop (y : α) (member : y ∈ inorder l ++ inorder r) : top (.node x l r) ≠ some y := by
        intro same
        cases same
        exact fresh member
      have here : x ∈ inorder (.node x l r) := by simp [inorder]
      refine ⟨rfl, back x rfl, ?_, ?_⟩
      · rw [children x here]
        refine left.congr (fun y member => children y (List.mem_append_left _ member))
          fun y member => parents y (List.mem_append_left _ member) ?_
        exact notTop y (List.mem_append_left _ member)
      · rw [children x here]
        refine right.congr (fun y member => children y (by simp [inorder, member]))
          fun y member => parents y (by simp [inorder, member]) ?_
        exact notTop y (List.mem_append_right _ member)

theorem rooted_fill {p ptr : Option α} {step : TreeStep α} {t : BinaryTree α} :
    Rooted g p ptr (step.fill t) ↔ ptr = some step.node ∧ g.parent step.node = p ∧
      Rooted g (some step.node) (g.child step.side.other step.node) step.other ∧
        Rooted g (some step.node) (g.child step.side step.node) t := by
  obtain ⟨side, x, other⟩ := step
  cases side
  · simp only [TreeStep.fill, Rooted, Branch.other]
    tauto
  · simp only [TreeStep.fill, Rooted, Branch.other]

/-- A tree is what stands at a place and what is around it. -/
theorem rooted_plug {p root : Option α} {path : List (TreeStep α)} {t : BinaryTree α} :
    Rooted g p root (plug path t) ↔
      Around g p root path (top t) ∧ Rooted g (foot p path) (top t) t := by
  induction path generalizing t with
  | nil =>
      rw [plug, Around, foot]
      constructor
      · intro rooted
        obtain rfl := rooted.ptr_eq
        exact ⟨rfl, rooted⟩
      · rintro ⟨rfl, rooted⟩
        exact rooted
  | cons step path ih =>
      have head : top (step.fill t) = some step.node := by
        obtain ⟨side, x, other⟩ := step
        cases side <;> rfl
      rw [plug, ih, rooted_fill, head, Around, foot]
      constructor
      · rintro ⟨around, -, above, other, here⟩
        have ptr := here.ptr_eq
        rw [ptr] at here
        exact ⟨⟨ptr, other, above, around⟩, here⟩
      · rintro ⟨⟨ptr, other, above, around⟩, here⟩
        rw [← ptr] at here
        exact ⟨around, rfl, above, other, here⟩

theorem Around.congr {p root ptr : Option α} {path : List (TreeStep α)}
    (around : Around g p root path ptr)
    (children : ∀ y ∈ aside path, ∀ side, g'.child side y = g.child side y)
    (parents : ∀ y ∈ aside path, g'.parent y = g.parent y) : Around g' p root path ptr := by
  induction path generalizing ptr with
  | nil => exact around
  | cons step path ih =>
      obtain ⟨ptr, other, above, around⟩ := around
      have here : step.node ∈ aside (step :: path) := List.mem_cons_self
      have beside {y : α} (member : y ∈ inorder step.other) : y ∈ aside (step :: path) :=
        List.mem_append_left _ (List.mem_cons_of_mem _ member)
      refine ⟨(children _ here _).trans ptr, ?_, (parents _ here).trans above, ?_⟩
      · rw [children _ here]
        exact other.congr (fun y member => children y (beside member))
          fun y member => parents y (beside member)
      · exact ih around (fun y member => children y (List.mem_append_right _ member))
          fun y member => parents y (List.mem_append_right _ member)

theorem Around.root_mem {p root ptr : Option α} {path : List (TreeStep α)}
    (around : Around g p root path ptr) (deep : path ≠ []) :
    ∃ step ∈ path, root = some step.node := by
  induction path generalizing ptr with
  | nil => exact absurd rfl deep
  | cons step path ih =>
      obtain ⟨-, -, -, around⟩ := around
      by_cases last : path = []
      · subst last
        exact ⟨step, List.mem_cons_self, around⟩
      · obtain ⟨outer, member, is⟩ := ih around last
        exact ⟨outer, List.mem_cons_of_mem _ member, is⟩

theorem Around.root_parent {g : TreeLinks α} {p root ptr : Option α} {path : List (TreeStep α)}
    (around : Around g p root path ptr) (deep : path ≠ []) {y : α} (is : root = some y) :
    g.parent y = p := by
  induction path generalizing ptr with
  | nil => exact absurd rfl deep
  | cons step path ih =>
      obtain ⟨-, -, above, around⟩ := around
      cases path with
      | nil =>
          obtain rfl : step.node = y := Option.some.inj (around.symm.trans is)
          exact above
      | cons outer path => exact ih around (List.cons_ne_nil outer path)

theorem node_mem_aside {path : List (TreeStep α)} {step : TreeStep α} (member : step ∈ path) :
    step.node ∈ aside path :=
  List.mem_flatMap.mpr ⟨step, member, List.mem_cons_self⟩

/-- Another tree is put at a place, and the whole is hung from another node. -/
theorem Around.redirect {p p' root root' ptr ptr' : Option α} {path : List (TreeStep α)}
    (around : Around g p root path ptr) (nodup : (aside path).Nodup)
    (children : ∀ y ∈ aside path, ∀ side,
      (∀ step ∈ path.head?, ¬(step.node = y ∧ step.side = side)) → g'.child side y = g.child side y)
    (hole : ∀ step ∈ path.head?, g'.child step.side step.node = ptr')
    (parents : ∀ y ∈ aside path, root ≠ some y → g'.parent y = g.parent y)
    (back : ∀ y ∈ aside path, root = some y → g'.parent y = p')
    (start : root' = if path = [] then ptr' else root) : Around g' p' root' path ptr' := by
  induction path generalizing ptr ptr' with
  | nil => exact start
  | cons step path ih =>
      have outermost := around.root_mem (List.cons_ne_nil step path)
      obtain ⟨-, other, above, around⟩ := around
      have here : step.node ∈ aside (step :: path) := node_mem_aside List.mem_cons_self
      have beside {y : α} (member : y ∈ inorder step.other) : y ∈ aside (step :: path) :=
        List.mem_append_left _ (List.mem_cons_of_mem _ member)
      have beyond {y : α} (member : y ∈ aside path) : y ∈ aside (step :: path) :=
        List.mem_append_right _ member
      obtain ⟨own, nodup, apart⟩ := List.nodup_append.mp nodup
      have freshOther : step.node ∉ inorder step.other := (List.nodup_cons.mp own).1
      have freshNode : step.node ∉ aside path := fun member =>
        apart _ List.mem_cons_self _ member rfl
      have inner {y : α} (member : y ∈ inorder step.other) : root ≠ some y := by
        rintro rfl
        obtain ⟨outer, outerMem, is⟩ := outermost
        cases is
        rcases List.mem_cons.mp outerMem with rfl | later
        · exact freshOther member
        · exact apart _ (List.mem_cons_of_mem _ member) _ (node_mem_aside later) rfl
      have elsewhere {y : α} (ne : y ≠ step.node) (side : Branch) (member : y ∈ aside (step :: path)) :
          g'.child side y = g.child side y := by
        refine children y member side ?_
        rintro head is ⟨rfl, -⟩
        cases is
        exact ne rfl
      refine ⟨hole step rfl, ?_, ?_, ?_⟩
      · rw [children _ here]
        · refine other.congr (fun y member side => elsewhere ?_ side (beside member))
            fun y member => parents y (beside member) (inner member)
          rintro rfl
          exact freshOther member
        · rintro head is ⟨-, same⟩
          cases is
          revert same
          cases step.side <;> decide
      · cases path with
        | nil => exact back _ here around
        | cons outer path =>
            obtain ⟨last, member, is⟩ := around.root_mem (List.cons_ne_nil outer path)
            rw [parents _ here]
            · exact above
            · rw [is]
              intro same
              exact freshNode (Option.some.inj same ▸ node_mem_aside member)
      · refine ih around nodup (fun y member side _ => elsewhere ?_ side (beyond member)) ?_
          (fun y member => parents y (beyond member)) (fun y member => back y (beyond member)) ?_
        · rintro rfl
          exact freshNode member
        · intro outer is
          have member := node_mem_aside (List.mem_of_mem_head? is)
          rw [elsewhere (fun same => freshNode (same ▸ member)) outer.side (beyond member)]
          cases path with
          | nil => cases is
          | cons _ _ =>
              cases is
              exact around.1
        · rw [start, if_neg (List.cons_ne_nil step path)]
          split
          · rename_i last
            subst last
            exact around
          · rfl

/-! ## Searching -/

section Search

variable {K : Type*} [LinearOrder K] (key : α → K) (k : K)

/-- The place where the search for a key ends: at the node that has it, or where there is none. -/
def locate : List (TreeStep α) → BinaryTree α → List (TreeStep α) × BinaryTree α
  | path, .nil => (path, .nil)
  | path, .node x l r =>
      if k = key x then (path, .node x l r)
      else if k < key x then locate (⟨.left, x, r⟩ :: path) l
      else locate (⟨.right, x, l⟩ :: path) r

/-- A place that the key `k` belongs to. -/
structure Belongs (path : List (TreeStep α)) : Prop where
  before : ∀ y ∈ before path, key y < k
  after : ∀ y ∈ after path, k < key y

variable {key k}

theorem plug_locate (key : α → K) (k : K) (path : List (TreeStep α)) (t : BinaryTree α) :
    plug (locate key k path t).1 (locate key k path t).2 = plug path t := by
  induction t generalizing path with
  | nil => rfl
  | node x l r ihl ihr =>
      rw [locate]
      split_ifs
      · rfl
      · exact ihl _
      · exact ihr _

theorem locate_belongs {path : List (TreeStep α)} {t : BinaryTree α} (belongs : Belongs key k path)
    (sorted : (inorder t).Pairwise fun x y => key x < key y) :
    Belongs key k (locate key k path t).1 := by
  induction t generalizing path with
  | nil => exact belongs
  | node x l r ihl ihr =>
      rw [inorder, List.pairwise_append, List.pairwise_cons] at sorted
      obtain ⟨left, ⟨less, right⟩, across⟩ := sorted
      rw [locate]
      split_ifs with same low
      · exact belongs
      · refine ihl ⟨belongs.before, fun y member => ?_⟩ left
        rcases List.mem_append.mp member with here | beyond
        · rcases List.mem_cons.mp here with rfl | greater
          · exact low
          · exact low.trans (less y greater)
        · exact belongs.after y beyond
      · have high : key x < k := lt_of_le_of_ne (not_lt.mp low) (Ne.symm same)
        refine ihr ⟨fun y member => ?_, belongs.after⟩ right
        rcases List.mem_append.mp member with beyond | here
        · exact belongs.before y beyond
        · rcases List.mem_append.mp here with smaller | is
          · exact (across y smaller x List.mem_cons_self).trans high
          · obtain rfl := List.mem_singleton.mp is
            exact high

/-- The key stands where the search ended, or nowhere. -/
theorem locate_key {path path' : List (TreeStep α)} {t l r : BinaryTree α} {x : α}
    (ends : locate key k path t = (path', .node x l r)) : key x = k := by
  induction t generalizing path with
  | nil => cases ends
  | node y l' r' ihl ihr =>
      rw [locate] at ends
      split_ifs at ends with same
      · cases ends
        exact same.symm
      · exact ihl ends
      · exact ihr ends

end Search

/-! ## The node that comes first -/

/-- The place of the first node in a tree, from the place where the tree is. -/
def leftmost : List (TreeStep α) → BinaryTree α → List (TreeStep α) × BinaryTree α
  | path, .nil => (path, .nil)
  | path, .node x .nil r => (path, .node x .nil r)
  | path, .node x (.node y l r') r => leftmost (⟨.left, x, r⟩ :: path) (.node y l r')

theorem plug_leftmost (path : List (TreeStep α)) (t : BinaryTree α) :
    plug (leftmost path t).1 (leftmost path t).2 = plug path t := by
  induction path, t using leftmost.induct with
  | case1 path => rfl
  | case2 path x r => rfl
  | case3 path x y l r' r ih =>
      rw [leftmost]
      exact ih

theorem before_leftmost (path : List (TreeStep α)) (t : BinaryTree α) :
    before (leftmost path t).1 = before path := by
  induction path, t using leftmost.induct with
  | case1 path => rfl
  | case2 path x r => rfl
  | case3 path x y l r' r ih =>
      rw [leftmost]
      exact ih

theorem leftmost_left {path : List (TreeStep α)} {t : BinaryTree α}
    (left : ∀ step ∈ path, step.side = .left) :
    ∀ step ∈ (leftmost path t).1, step.side = .left := by
  induction path, t using leftmost.induct with
  | case1 path => exact left
  | case2 path x r => exact left
  | case3 path x y l r' r ih =>
      rw [leftmost]
      exact ih (List.forall_mem_cons.mpr ⟨rfl, left⟩)

/-- A tree that is not empty has a first node, which has nothing on its left. -/
theorem leftmost_node (path : List (TreeStep α)) (x : α) (l r : BinaryTree α) :
    ∃ path' m c, leftmost path (.node x l r) = (path', .node m .nil c) := by
  induction l generalizing path x r with
  | nil => exact ⟨path, x, r, rfl⟩
  | node y l' r' ih _ =>
      rw [leftmost]
      exact ih _ y r'

end Cgsf.Library.LinkedTree
