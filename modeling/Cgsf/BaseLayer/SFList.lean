import Cgsf.Library.Threaded
import Mathlib.Logic.Function.Basic

/-!
# The doubly linked list and its free list
-/

namespace Cgsf.BaseLayer
open Library

/-- The address of a node or `NULL`. -/
abbrev OPOS := Option Nat

/-- A `void*`. -/
abbrev Object := Nat

def NULL : Object := 0

structure Node where
  posNext : OPOS := none
  posPrev : OPOS := none
  object : Object := NULL
  deriving DecidableEq, Repr

/-- `newNodes` counts the nodes made so far, which is the address of the next one. -/
structure SFList where
  nodes : Nat → Node := fun _ => {}
  newNodes : Nat := 0
  posTail : OPOS := none
  posHead : OPOS := none
  posUsed : OPOS := none

namespace SFList

def next (l : SFList) (p : Nat) : OPOS := (l.nodes p).posNext

def prev (l : SFList) (p : Nat) : OPOS := (l.nodes p).posPrev

def object (l : SFList) (p : Nat) : Object := (l.nodes p).object

/-- One node is written to. -/
def edit (l : SFList) (p : Nat) (f : Node → Node) : SFList :=
  { l with nodes := Function.update l.nodes p (f (l.nodes p)) }

def setNext (l : SFList) (p : Nat) (pos : OPOS) : SFList := l.edit p ({ · with posNext := pos })

def setPrev (l : SFList) (p : Nat) (pos : OPOS) : SFList := l.edit p ({ · with posPrev := pos })

def setObject (l : SFList) (p : Nat) (object : Object) : SFList := l.edit p ({ · with object })

def newNode (l : SFList) : Nat × SFList :=
  let (node, l) :=
    match l.posUsed with
    | none => (l.newNodes, { l with newNodes := l.newNodes + 1 })
    | some node => (node, { l with posUsed := l.next node })
  (node, (l.setNext node none).setPrev node none)

def delNode (l : SFList) (node : Nat) : SFList :=
  let l := match l.prev node with
    | some before => l.setNext before (l.next node)
    | none => l
  let l := match l.next node with
    | some after => l.setPrev after (l.prev node)
    | none => l
  let l := l.setNext node l.posUsed
  { l with posUsed := some node }

def isEmpty (l : SFList) : Bool := l.posHead = none ∧ l.posTail = none

/-- The loop of `getCount`; nothing when it goes round more often than there are nodes, and so for
ever. -/
def countLoop (l : SFList) : Nat → OPOS → Nat → Option Nat
  | _, none, n => some n
  | 0, some _, _ => none
  | fuel + 1, some p, n => l.countLoop fuel (l.next p) (n + 1)

def getCount (l : SFList) : Option Nat := l.countLoop l.newNodes l.posHead 0

def insertAfter (l : SFList) (pos : OPOS) (object : Object) : OPOS × SFList :=
  match pos with
  | none => (none, l)
  | some pos =>
      let (posNew, l) := l.newNode
      let l := l.setObject posNew object
      let l := l.setPrev posNew (some pos)
      let l := l.setNext posNew (l.next pos)
      -- the source assigns to the new node what is meant for `pos`
      let l := l.setNext posNew (some posNew)
      match l.next posNew with
      | none => (some posNew, { l with posTail := some posNew })
      | some after => (some posNew, l.setPrev after (some posNew))

def insertBefore (l : SFList) (pos : OPOS) (object : Object) : OPOS × SFList :=
  match pos with
  | none => (none, l)
  | some pos =>
      let (posNew, l) := l.newNode
      let l := l.setObject posNew object
      let l := l.setNext posNew (some pos)
      let l := l.setPrev posNew (l.prev pos)
      let l := l.setPrev posNew (some posNew)
      match l.prev posNew with
      | none => (some posNew, { l with posHead := some posNew })
      | some before => (some posNew, l.setNext before (some posNew))

def removeAt (l : SFList) (pos : OPOS) : Object × SFList :=
  match pos with
  | none => (NULL, l)
  | some pos =>
      let l := if l.posHead = some pos then { l with posHead := l.next pos } else l
      let l := if l.posTail = some pos then { l with posTail := l.prev pos } else l
      (l.object pos, l.delNode pos)

def setAt (l : SFList) (pos : OPOS) (object : Object) : SFList :=
  match pos with
  | none => l
  | some pos => l.setObject pos object

def getAt (l : SFList) (pos : OPOS) : Object :=
  match pos with
  | none => NULL
  | some pos => l.object pos

def getPrev (l : SFList) (pos : OPOS) : Object × OPOS :=
  match pos with
  | none => (NULL, none)
  | some pos => (l.object pos, l.prev pos)

def getNext (l : SFList) (pos : OPOS) : Object × OPOS :=
  match pos with
  | none => (NULL, none)
  | some pos => (l.object pos, l.next pos)

def getTailPosition (l : SFList) : OPOS := l.posTail

def getHeadPosition (l : SFList) : OPOS := l.posHead

/-- The loop of `removeAll`, as `countLoop` is that of `getCount`. -/
def removeLoop (fuel : Nat) (l : SFList) : Option SFList :=
  match l.posHead, fuel with
  | none, _ => some l
  | some _, 0 => none
  | some head, fuel + 1 =>
      let pos := l.next head
      removeLoop fuel { l.delNode head with posHead := pos }

def removeAll (l : SFList) : Option SFList :=
  (removeLoop l.newNodes l).map fun l => { l with posTail := none }

def addTail (l : SFList) (object : Object) : OPOS × SFList :=
  let (posNew, l) := l.newNode
  let l := l.setPrev posNew l.posTail
  let l := l.setObject posNew object
  let l := { l with posTail := some posNew }
  match l.prev posNew with
  | none => (some posNew, { l with posHead := l.posTail })
  | some before => (some posNew, l.setNext before (some posNew))

def addHead (l : SFList) (object : Object) : OPOS × SFList :=
  let (posNew, l) := l.newNode
  let l := l.setNext posNew l.posHead
  let l := l.setObject posNew object
  let l := { l with posHead := some posNew }
  match l.next posNew with
  | none => (some posNew, { l with posTail := l.posHead })
  | some after => (some posNew, l.setPrev after (some posNew))

def removeTail (l : SFList) : Object × SFList :=
  match l.posTail with
  | none => (NULL, l)
  | some posTemp =>
      let l := { l with posTail := l.prev posTemp }
      let object := l.object posTemp
      let l := l.delNode posTemp
      (object, if l.posTail = none then { l with posHead := none } else l)

def removeHead (l : SFList) : Object × SFList :=
  match l.posHead with
  | none => (NULL, l)
  | some posTemp =>
      let l := { l with posHead := l.next posTemp }
      let object := l.object posTemp
      let l := l.delNode posTemp
      (object, if l.posHead = none then { l with posTail := none } else l)

def getTail (l : SFList) : Object :=
  match l.posTail with
  | none => NULL
  | some tail => l.object tail

def getHead (l : SFList) : Object :=
  match l.posHead with
  | none => NULL
  | some head => l.object head

end SFList

inductive ListCall where
  | addHead (object : Object)
  | addTail (object : Object)
  | insertAfter (pos : OPOS) (object : Object)
  | insertBefore (pos : OPOS) (object : Object)
  | removeAt (pos : OPOS)
  | removeHead
  | removeTail
  | setAt (pos : OPOS) (object : Object)
  | removeAll
  deriving DecidableEq, Repr

/-- What a call returns. -/
inductive ListReply where
  | position (pos : OPOS)
  | object (object : Object)
  | nothing
  deriving DecidableEq, Repr

/-- Nothing when the call does not return. -/
def SFList.call (l : SFList) : ListCall → Option (ListReply × SFList)
  | .addHead object => some ((l.addHead object).map .position id)
  | .addTail object => some ((l.addTail object).map .position id)
  | .insertAfter pos object => some ((l.insertAfter pos object).map .position id)
  | .insertBefore pos object => some ((l.insertBefore pos object).map .position id)
  | .removeAt pos => some ((l.removeAt pos).map .object id)
  | .removeHead => some (l.removeHead.map .object id)
  | .removeTail => some (l.removeTail.map .object id)
  | .setAt pos object => some (.nothing, l.setAt pos object)
  | .removeAll => l.removeAll.map (.nothing, ·)

/-- What the list stands for: its positions and their objects, in order. -/
abbrev Sequence := List (Nat × Object)

namespace Sequence

def positions (seq : Sequence) : List Nat := seq.map (·.1)

/-- The sequence after a call; a new element has the position that the call returns. -/
def after (seq : Sequence) : ListCall → ListReply → Sequence
  | .addHead object, .position (some new) => (new, object) :: seq
  | .addTail object, .position (some new) => seq ++ [(new, object)]
  | .insertAfter (some pos) object, .position (some new) =>
      seq.flatMap fun cell => if cell.1 = pos then [cell, (new, object)] else [cell]
  | .insertBefore (some pos) object, .position (some new) =>
      seq.flatMap fun cell => if cell.1 = pos then [(new, object), cell] else [cell]
  | .removeAt (some pos), _ => seq.filter (·.1 ≠ pos)
  | .removeHead, _ => seq.tail
  | .removeTail, _ => seq.dropLast
  | .setAt (some pos) object, _ => seq.map fun cell => if cell.1 = pos then (pos, object) else cell
  | .removeAll, _ => []
  | _, _ => seq

/-- What a call has to return. -/
def Answers (seq : Sequence) : ListCall → ListReply → Prop
  | .addHead _, reply | .addTail _, reply | .insertAfter (some _) _, reply
  | .insertBefore (some _) _, reply => ∃ new ∉ seq.positions, reply = .position (some new)
  | .insertAfter none _, reply | .insertBefore none _, reply => reply = .position none
  | .removeAt (some pos), reply => ∃ object, (pos, object) ∈ seq ∧ reply = .object object
  | .removeAt none, reply => reply = .object NULL
  | .removeHead, reply => reply = .object (seq.head?.elim NULL (·.2))
  | .removeTail, reply => reply = .object (seq.getLast?.elim NULL (·.2))
  | .setAt _ _, reply | .removeAll, reply => reply = .nothing

end Sequence

namespace ListCall

def pos : ListCall → OPOS
  | .insertAfter pos _ | .insertBefore pos _ | .removeAt pos | .setAt pos _ => pos
  | _ => none

/-- The position is `NULL` or one of the list. -/
def Valid (seq : Sequence) (call : ListCall) : Prop := ∀ pos ∈ call.pos, pos ∈ seq.positions

instance (seq : Sequence) (call : ListCall) : Decidable (call.Valid seq) :=
  inferInstanceAs (Decidable (∀ pos ∈ call.pos, pos ∈ seq.positions))

/-- The call is `InsertAfter` or `InsertBefore` at a position. -/
def inserts : ListCall → Bool
  | .insertAfter (some _) _ | .insertBefore (some _) _ => true
  | _ => false

end ListCall

namespace SFList

/-- The positions and objects met by `GetNext` from the head on. -/
def forward (l : SFList) : Option Sequence :=
  (walk (fun p => (l.getNext (some p)).2) l.newNodes l.getHeadPosition).map
    (·.map fun p => (p, l.getAt (some p)))

def backward (l : SFList) : Option Sequence :=
  (walk (fun p => (l.getPrev (some p)).2) l.newNodes l.getTailPosition).map
    (·.map fun p => (p, l.getAt (some p)))

def freeList (l : SFList) : Option (List Nat) := walk l.next l.newNodes l.posUsed

structure Represents (l : SFList) (seq : Sequence) : Prop where
  forward : l.forward = some seq
  backward : l.backward = some seq.reverse
  isEmpty : l.isEmpty = seq.isEmpty
  headPosition : l.getHeadPosition = seq.head?.map (·.1)
  tailPosition : l.getTailPosition = seq.getLast?.map (·.1)
  head : l.getHead = seq.head?.elim NULL (·.2)
  tail : l.getTail = seq.getLast?.elim NULL (·.2)
  count : l.getCount = some seq.length
  free : ∃ free, l.freeList = some free ∧ ∀ p ∈ seq.positions, p ∉ free

end SFList

/-- A list beside the sequence that its calls define. -/
structure ListRun where
  list : SFList := {}
  seq : Sequence := []

namespace ListRun

def step (r : ListRun) (call : ListCall) : Option ListRun :=
  if call.Valid r.seq then
    (r.list.call call).map fun (reply, list) => { list, seq := r.seq.after call reply }
  else none

def Steps (r : ListRun) (call : ListCall) (r' : ListRun) : Prop := r.step call = some r'

end ListRun

end Cgsf.BaseLayer
