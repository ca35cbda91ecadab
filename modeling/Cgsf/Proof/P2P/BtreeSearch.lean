import Cgsf.P2P.CBtree

/-!
# The loops of the tree and its threads
-/

namespace Cgsf.Proof.P2P
open Cgsf.P2P Library LinkedTree

variable {K : Type} [LinearOrder K] {key : Nat → K} {compareTo : Nat → Nat → Int} {t : CBtree}

/-- The links form a tree of this shape, and the threads follow it. -/
structure Shaped (t : CBtree) (shape : BinaryTree Nat) : Prop where
  rooted : Rooted t.links none t.pcRoot shape
  threaded : Threaded t.next t.prev none (inorder shape) none
  first : t.pcFirst = (inorder shape).head?
  last : t.pcLast = (inorder shape).getLast?

/-! ## The searches -/

/-- What `Add` does where its search ends. -/
def added (t : CBtree) (n : Nat) : List (TreeStep Nat) × BinaryTree Nat → Bool × CBtree
  | (⟨.right, pcExp, _⟩ :: _, .nil) => (true, t.linkRight n pcExp)
  | (⟨.left, pcExp, _⟩ :: _, .nil) => (true, t.linkLeft n pcExp)
  | _ => (false, t)

theorem added_node (t : CBtree) (n x : Nat) (path : List (TreeStep Nat)) (l r : BinaryTree Nat) :
    added t n (path, .node x l r) = (false, t) := by
  cases path with
  | nil => rfl
  | cons step path =>
      obtain ⟨side, e, other⟩ := step
      cases side <;> rfl

/-- The search reads the links of nodes with other keys only. -/
theorem addLoop_eq (compares : Compares key compareTo) {g : TreeLinks Nat} {n fuel x : Nat}
    {p : Option Nat} (path : List (TreeStep Nat)) {s : BinaryTree Nat}
    (rooted : Rooted g p (some x) s)
    (same : ∀ y ∈ inorder s, key y ≠ key n → ∀ side, t.links.child side y = g.child side y)
    (enough : s.numNodes ≤ fuel) :
    CBtree.addLoop compareTo fuel t n x = some (added t n (locate key (key n) path s)) := by
  induction s generalizing path fuel x p with
  | nil => cases rooted
  | node y l r ihl ihr =>
      obtain ⟨is, -, left, right⟩ := rooted
      cases is
      cases fuel with
      | zero => exact absurd enough (by rw [BinaryTree.numNodes]; omega)
      | succ fuel =>
          rw [BinaryTree.numNodes] at enough
          have here : y ∈ inorder (.node y l r) := by simp [inorder]
          rw [CBtree.addLoop, locate]
          simp only [compares.equal, gt_iff_lt, compares.greater]
          by_cases equal : key n = key y
          · rw [if_pos equal.symm, if_pos equal, added_node]
          · have other : key y ≠ key n := fun is => equal is.symm
            rw [if_neg other, if_neg equal]
            by_cases less : key y < key n
            · rw [if_pos less, if_neg (not_lt.mpr less.le)]
              have ptr : t.right y = top r := (same y here other .right).trans right.ptr_eq
              rw [ptr]
              cases r with
              | nil => rfl
              | node z rl rr =>
                  rw [right.ptr_eq] at right
                  exact ihr _ right (fun w member => same w (by simp [inorder] at member ⊢; tauto))
                    (by omega)
            · have more : key n < key y := lt_of_le_of_ne (not_lt.mp less) equal
              rw [if_neg less, if_pos more]
              have ptr : t.left y = top l := (same y here other .left).trans left.ptr_eq
              rw [ptr]
              cases l with
              | nil => rfl
              | node z ll lr =>
                  rw [left.ptr_eq] at left
                  exact ihl _ left (fun w member => same w (List.mem_append_left _ member)) (by omega)

theorem findLoop_eq (compares : Compares key compareTo) {n fuel x : Nat} {p : Option Nat}
    {path : List (TreeStep Nat)} {s : BinaryTree Nat} (rooted : Rooted t.links p (some x) s)
    (enough : s.numNodes ≤ fuel) :
    CBtree.findLoop compareTo t n fuel x = some (top (locate key (key n) path s).2) := by
  induction s generalizing path fuel x p with
  | nil => cases rooted
  | node y l r ihl ihr =>
      obtain ⟨is, -, left, right⟩ := rooted
      cases is
      cases fuel with
      | zero => exact absurd enough (by rw [BinaryTree.numNodes]; omega)
      | succ fuel =>
          rw [BinaryTree.numNodes] at enough
          rw [CBtree.findLoop, locate]
          simp only [compares.equal, gt_iff_lt, compares.greater]
          by_cases equal : key n = key y
          · rw [if_pos equal.symm, if_pos equal]
            rfl
          · rw [if_neg (Ne.symm equal), if_neg equal]
            by_cases less : key y < key n
            · rw [if_pos less, if_neg (not_lt.mpr less.le)]
              have ptr : t.right y = top r := right.ptr_eq
              rw [ptr]
              cases r with
              | nil => rfl
              | node z rl rr =>
                  rw [right.ptr_eq] at right
                  exact ihr right (by omega)
            · have more : key n < key y := lt_of_le_of_ne (not_lt.mp less) equal
              rw [if_neg less, if_pos more]
              have ptr : t.left y = top l := left.ptr_eq
              rw [ptr]
              cases l with
              | nil => rfl
              | node z ll lr =>
                  rw [left.ptr_eq] at left
                  exact ihl left (by omega)

theorem find_eq (compares : Compares key compareTo) {n fuel : Nat} {shape : BinaryTree Nat}
    (rooted : Rooted t.links none t.pcRoot shape) (enough : shape.numNodes ≤ fuel) :
    t.find compareTo fuel n = some (top (locate key (key n) [] shape).2) := by
  rw [CBtree.find]
  cases shape with
  | nil =>
      rw [show t.pcRoot = none from rooted]
      rfl
  | node x l r =>
      have root := rooted.ptr_eq
      rw [root] at rooted ⊢
      exact findLoop_eq compares rooted enough

theorem getLeftEnd_eq {fuel x m : Nat} {p : Option Nat} {path path' : List (TreeStep Nat)}
    {s c : BinaryTree Nat} (rooted : Rooted t.links p (some x) s) (enough : s.numNodes ≤ fuel)
    (is : leftmost path s = (path', .node m .nil c)) : t.getLeftEnd fuel x = some m := by
  induction path, s using leftmost.induct generalizing fuel x p with
  | case1 path => cases rooted
  | case2 path y r =>
      cases is
      obtain ⟨is, -, left, -⟩ := rooted
      cases is
      cases fuel with
      | zero => exact absurd enough (by rw [BinaryTree.numNodes]; omega)
      | succ fuel =>
          rw [CBtree.getLeftEnd]
          rw [show t.left _ = none from left]
  | case3 path y z l r' r ih =>
      obtain ⟨same, -, left, -⟩ := rooted
      cases same
      cases fuel with
      | zero => exact absurd enough (by rw [BinaryTree.numNodes]; omega)
      | succ fuel =>
          rw [BinaryTree.numNodes] at enough
          have ptr : t.left y = some z := left.ptr_eq
          rw [leftmost] at is
          rw [CBtree.getLeftEnd, ptr]
          rw [left.ptr_eq] at left
          exact ih left (by omega) is

end Cgsf.Proof.P2P
