import Cgsf.Library.LinkedTree
import Cgsf.Library.Threaded
import Mathlib.Logic.Function.Basic

/-!
# The binary tree of the P2P server

Nodes are named by their addresses. Each has pointers to its children and its parent, and the nodes
are also threaded in their order.
-/

namespace Cgsf.P2P
open Library LinkedTree

/-- The members of all nodes, a function of the node each, and those of the tree. -/
structure CBtree where
  left : Nat → Option Nat := fun _ => none
  right : Nat → Option Nat := fun _ => none
  parent : Nat → Option Nat := fun _ => none
  prev : Nat → Option Nat := fun _ => none
  next : Nat → Option Nat := fun _ => none
  pcRoot : Option Nat := none
  pcFirst : Option Nat := none
  pcLast : Option Nat := none

namespace CBtree

def setLeft (t : CBtree) (node : Nat) (ptr : Option Nat) : CBtree :=
  { t with left := Function.update t.left node ptr }

def setRight (t : CBtree) (node : Nat) (ptr : Option Nat) : CBtree :=
  { t with right := Function.update t.right node ptr }

def setParent (t : CBtree) (node : Nat) (ptr : Option Nat) : CBtree :=
  { t with parent := Function.update t.parent node ptr }

def setPrev (t : CBtree) (node : Nat) (ptr : Option Nat) : CBtree :=
  { t with prev := Function.update t.prev node ptr }

def setNext (t : CBtree) (node : Nat) (ptr : Option Nat) : CBtree :=
  { t with next := Function.update t.next node ptr }

/-- `CTreeNode::Reset` -/
def reset (t : CBtree) (node : Nat) : CBtree :=
  ((((t.setParent node none).setLeft node none).setRight node none).setPrev node none).setNext node
    none

/-- The new node goes to the right of `pcExp` and is threaded behind it. -/
def linkRight (t : CBtree) (pcTreeNode pcExp : Nat) : CBtree :=
  let t := t.setParent pcTreeNode (some pcExp)
  let t := t.setRight pcExp (some pcTreeNode)
  let t := t.setPrev pcTreeNode (some pcExp)
  let t := t.setNext pcTreeNode (t.next pcExp)
  let t := match t.next pcExp with
    | some next => t.setPrev next (some pcTreeNode)
    | none => t
  t.setNext pcExp (some pcTreeNode)

/-- The new node goes to the left of `pcExp` and is threaded in front of it. -/
def linkLeft (t : CBtree) (pcTreeNode pcExp : Nat) : CBtree :=
  let t := t.setParent pcTreeNode (some pcExp)
  let t := t.setLeft pcExp (some pcTreeNode)
  let t := t.setPrev pcTreeNode (t.prev pcExp)
  let t := t.setNext pcTreeNode (some pcExp)
  let t := match t.prev pcExp with
    | some prev => t.setNext prev (some pcTreeNode)
    | none => t
  t.setPrev pcExp (some pcTreeNode)

variable (compareTo : Nat → Nat → Int)

/-- The loop of `Add` from `pcExp` on; nothing when it goes on for longer than `fuel`. -/
def addLoop : Nat → CBtree → Nat → Nat → Option (Bool × CBtree)
  | 0, _, _, _ => none
  | fuel + 1, t, pcTreeNode, pcExp =>
      let lResult := compareTo pcExp pcTreeNode
      if lResult = 0 then some (false, t)
      else if lResult > 0 then
        match t.right pcExp with
        | none => some (true, t.linkRight pcTreeNode pcExp)
        | some right => addLoop fuel t pcTreeNode right
      else
        match t.left pcExp with
        | none => some (true, t.linkLeft pcTreeNode pcExp)
        | some left => addLoop fuel t pcTreeNode left

/-- The end of `Add`: a node with nothing before it, or nothing behind it. -/
def noteEnds (t : CBtree) (bRet : Bool) (pcTreeNode : Nat) : CBtree :=
  let t := if bRet ∧ t.prev pcTreeNode = none then { t with pcFirst := some pcTreeNode } else t
  if bRet ∧ t.next pcTreeNode = none then { t with pcLast := some pcTreeNode } else t

def add (fuel : Nat) (t : CBtree) (pcTreeNode : Nat) : Option (Bool × CBtree) :=
  let t := t.reset pcTreeNode
  match t.pcRoot with
  | none =>
      some (true, { t with
        pcRoot := some pcTreeNode, pcFirst := some pcTreeNode, pcLast := some pcTreeNode })
  | some pcRoot => (addLoop compareTo fuel t pcTreeNode pcRoot).map fun (bRet, t) =>
      (bRet, t.noteEnds bRet pcTreeNode)

/-- The loop of `Find` from `pcExp` on. -/
def findLoop (t : CBtree) (pcTreeNode : Nat) : Nat → Nat → Option (Option Nat)
  | 0, _ => none
  | fuel + 1, pcExp =>
      let lResult := compareTo pcExp pcTreeNode
      if lResult = 0 then some (some pcExp)
      else if lResult > 0 then
        match t.right pcExp with
        | none => some none
        | some right => findLoop t pcTreeNode fuel right
      else
        match t.left pcExp with
        | none => some none
        | some left => findLoop t pcTreeNode fuel left

def find (fuel : Nat) (t : CBtree) (pcTreeNode : Nat) : Option (Option Nat) :=
  match t.pcRoot with
  | none => some none
  | some pcRoot => findLoop compareTo t pcTreeNode fuel pcRoot

def getLeftEnd (t : CBtree) : Nat → Nat → Option Nat
  | 0, _ => none
  | fuel + 1, pNodeLeft =>
      match t.left pNodeLeft with
      | none => some pNodeLeft
      | some left => getLeftEnd t fuel left

def delNodeAndLink (t : CBtree) (pcTreeNode : Nat) : CBtree :=
  let t := match t.next pcTreeNode with
    | some next => t.setPrev next (t.prev pcTreeNode)
    | none => t
  let t := match t.prev pcTreeNode with
    | some prev => t.setNext prev (t.next pcTreeNode)
    | none => t
  let t := if t.pcFirst = some pcTreeNode then { t with pcFirst := t.next pcTreeNode } else t
  if t.pcLast = some pcTreeNode then { t with pcLast := t.prev pcTreeNode } else t

/-- The leftmost node on the right of the deleted node takes its place. -/
def raiseLeftEnd (t : CBtree) (pcLeftEnd pcDelNodeRight : Nat)
    (pcDelNodeParent pcDelNodeLeft : Option Nat) : CBtree :=
  if pcDelNodeRight = pcLeftEnd then
    (t.setParent pcLeftEnd pcDelNodeParent).setLeft pcLeftEnd pcDelNodeLeft
  else
    let t := t.setParent pcDelNodeRight (some pcLeftEnd)
    let pcParentLeft := t.parent pcLeftEnd
    let pcChildRight := t.right pcLeftEnd
    let t := match pcChildRight with
      | some child => t.setParent child pcParentLeft
      | none => t
    let t := t.setLeft pcLeftEnd pcDelNodeLeft
    let t := t.setRight pcLeftEnd (some pcDelNodeRight)
    let t := t.setParent pcLeftEnd pcDelNodeParent
    match pcParentLeft with
    | some parent => t.setLeft parent pcChildRight
    | none => t

/-- The end of `DelWithLive`: the parent of the deleted node is given the node that replaces it. -/
def replaceChild (t : CBtree) (pcDelNode : Nat) (pcDelNodeParent pcRepNode : Option Nat) :
    Option Nat × CBtree :=
  match pcDelNodeParent with
  | some parent =>
      if t.left parent = some pcDelNode then (some pcDelNode, t.setLeft parent pcRepNode)
      else if t.right parent = some pcDelNode then (some pcDelNode, t.setRight parent pcRepNode)
      else (none, t)
  | none => (some pcDelNode, { t with pcRoot := pcRepNode })

/-- `DelWithLive` once the node is found. -/
def delFound (fuel : Nat) (t : CBtree) (pcDelNode : Nat) : Option (Option Nat × CBtree) :=
  let pcDelNodeParent := t.parent pcDelNode
  match t.left pcDelNode, t.right pcDelNode with
  | none, none =>
      if pcDelNodeParent = none then
        some (some pcDelNode, { t with pcRoot := none, pcFirst := none, pcLast := none })
      else some ((t.delNodeAndLink pcDelNode).replaceChild pcDelNode pcDelNodeParent none)
  | some left, none =>
      let t := (t.setParent left pcDelNodeParent).delNodeAndLink pcDelNode
      some (t.replaceChild pcDelNode pcDelNodeParent (some left))
  | none, some right =>
      let t := (t.setParent right pcDelNodeParent).delNodeAndLink pcDelNode
      some (t.replaceChild pcDelNode pcDelNodeParent (some right))
  | some left, some right =>
      (t.getLeftEnd fuel right).map fun pcLeftEnd =>
        let t := (t.setParent left (some pcLeftEnd)).delNodeAndLink pcDelNode
        let t := t.raiseLeftEnd pcLeftEnd right pcDelNodeParent (some left)
        t.replaceChild pcDelNode pcDelNodeParent (some pcLeftEnd)

def delWithLive (fuel : Nat) (t : CBtree) (pcTreeNode : Nat) : Option (Option Nat × CBtree) :=
  (t.find compareTo fuel pcTreeNode).bind fun
    | none => some (none, t)
    | some pcDelNode => t.delFound fuel pcDelNode

/-- `Delete`; releasing the node does not change the tree. -/
def delete (fuel : Nat) (t : CBtree) (pcTreeNode : Nat) : Option (Bool × CBtree) :=
  (t.delWithLive compareTo fuel pcTreeNode).map fun (pcDelNode, t) => (pcDelNode.isSome, t)

def links (t : CBtree) : TreeLinks Nat where
  child
    | .left => t.left
    | .right => t.right
  parent := t.parent

end CBtree

/-- `CompareTo` is positive when its argument is greater. -/
structure Compares {K : Type} [LinearOrder K] (key : Nat → K) (compareTo : Nat → Nat → Int) :
    Prop where
  equal : ∀ x y, compareTo x y = 0 ↔ key x = key y
  greater : ∀ x y, compareTo x y > 0 ↔ key x < key y

inductive TreeCall where
  | add (pcTreeNode : Nat)
  | delete (pcTreeNode : Nat)
  deriving DecidableEq, Repr

/-- A tree, and the nodes that should be stored in it. -/
structure TreeRun where
  tree : CBtree := {}
  stored : List Nat := []

namespace TreeRun

variable (compareTo : Nat → Nat → Int)

/-- A stored node compares equal. -/
def Present (r : TreeRun) (pcTreeNode : Nat) : Bool :=
  r.stored.any fun x => compareTo x pcTreeNode = 0

/-- What a call answers and leaves; nothing when one of its loops does more turns than nodes are
stored. -/
def call (r : TreeRun) : TreeCall → Option (Bool × TreeRun)
  | .add pcTreeNode => (r.tree.add compareTo r.stored.length pcTreeNode).map fun (bRet, tree) =>
      (bRet, { tree, stored :=
        if r.Present compareTo pcTreeNode then r.stored else pcTreeNode :: r.stored })
  | .delete pcTreeNode =>
      (r.tree.delete compareTo r.stored.length pcTreeNode).map fun (bRet, tree) =>
        (bRet, { tree, stored := r.stored.filter fun x => compareTo x pcTreeNode ≠ 0 })

/-- What a call should answer. -/
def answer (r : TreeRun) : TreeCall → Bool
  | .add pcTreeNode => !r.Present compareTo pcTreeNode
  | .delete pcTreeNode => r.Present compareTo pcTreeNode

def Steps (r : TreeRun) (c : TreeCall) (r' : TreeRun) : Prop :=
  ∃ bRet, r.call compareTo c = some (bRet, r')

/-- The call leaves `r'` and answers what it should. -/
def Answers (r : TreeRun) (c : TreeCall) (r' : TreeRun) : Prop :=
  r.call compareTo c = some (r.answer compareTo c, r')

/-- The links form a tree with the stored nodes in order, which the threads follow from the first to
the last, and a node is found exactly if one that compares equal is stored. -/
structure Correct (r : TreeRun) : Prop where
  ordered : ∃ shape : BinaryTree Nat,
    Rooted r.tree.links none r.tree.pcRoot shape ∧
      ((inorder shape).Pairwise fun x y => compareTo x y > 0) ∧
        Threaded r.tree.next r.tree.prev none (inorder shape) none ∧
          r.tree.pcFirst = (inorder shape).head? ∧ r.tree.pcLast = (inorder shape).getLast? ∧
            (inorder shape).Perm r.stored
  finds : ∀ pcTreeNode, r.tree.find compareTo r.stored.length pcTreeNode =
    some (r.stored.find? fun x => compareTo x pcTreeNode = 0)

/-- A node that is stored with others is not added again. -/
def Fits (r : TreeRun) : TreeCall → Prop
  | .add pcTreeNode => pcTreeNode ∈ r.stored → r.stored.length = 1
  | .delete _ => True

instance (r : TreeRun) : (c : TreeCall) → Decidable (r.Fits c)
  | .add _ => inferInstanceAs (Decidable (_ → _))
  | .delete _ => instDecidableTrue

end TreeRun

end Cgsf.P2P
