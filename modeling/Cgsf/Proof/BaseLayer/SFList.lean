import Cgsf.BaseLayer.SFList
import Cgsf.Library.Transition

/-!
# The linked list is a sequence

The live nodes are threaded in the order of the sequence, the free ones chained, and the two share
out the nodes made so far. Every call but an insertion at a position keeps that.
-/

namespace Cgsf.Proof.BaseLayer
open Cgsf.BaseLayer Library

variable {l l' : SFList} {p y node : Nat} {pos : OPOS} {o : Object} {seq before after : Sequence}
  {free : List Nat} {cell : Nat × Object}

namespace SFList

theorem edit_same {α : Type} {f : Node → Node} (field : Node → α)
    (same : ∀ n, field (f n) = field n) : field ((l.edit p f).nodes y) = field (l.nodes y) := by
  simp only [SFList.edit, Function.update_apply]
  split
  · rename_i is
    rw [same, is]
  · rfl

theorem edit_apply {α : Type} {f : Node → Node} {new : α} (field : Node → α)
    (is : ∀ n, field (f n) = new) :
    field ((l.edit p f).nodes y) = if y = p then new else field (l.nodes y) := by
  simp only [SFList.edit, Function.update_apply, apply_ite field, is]

@[simp] theorem next_setNext : (l.setNext p pos).next y = if y = p then pos else l.next y :=
  edit_apply Node.posNext fun _ => rfl

@[simp] theorem prev_setNext : (l.setNext p pos).prev y = l.prev y :=
  edit_same Node.posPrev fun _ => rfl

@[simp] theorem object_setNext : (l.setNext p pos).object y = l.object y :=
  edit_same Node.object fun _ => rfl

@[simp] theorem next_setPrev : (l.setPrev p pos).next y = l.next y :=
  edit_same Node.posNext fun _ => rfl

@[simp] theorem prev_setPrev : (l.setPrev p pos).prev y = if y = p then pos else l.prev y :=
  edit_apply Node.posPrev fun _ => rfl

@[simp] theorem object_setPrev : (l.setPrev p pos).object y = l.object y :=
  edit_same Node.object fun _ => rfl

@[simp] theorem next_setObject : (l.setObject p o).next y = l.next y :=
  edit_same Node.posNext fun _ => rfl

@[simp] theorem prev_setObject : (l.setObject p o).prev y = l.prev y :=
  edit_same Node.posPrev fun _ => rfl

@[simp] theorem object_setObject :
    (l.setObject p o).object y = if y = p then o else l.object y :=
  edit_apply Node.object fun _ => rfl

@[simp] theorem ends_setNext : (l.setNext p pos).posHead = l.posHead ∧
    (l.setNext p pos).posTail = l.posTail ∧ (l.setNext p pos).posUsed = l.posUsed ∧
    (l.setNext p pos).newNodes = l.newNodes := ⟨rfl, rfl, rfl, rfl⟩

@[simp] theorem ends_setPrev : (l.setPrev p pos).posHead = l.posHead ∧
    (l.setPrev p pos).posTail = l.posTail ∧ (l.setPrev p pos).posUsed = l.posUsed ∧
    (l.setPrev p pos).newNodes = l.newNodes := ⟨rfl, rfl, rfl, rfl⟩

@[simp] theorem ends_setObject : (l.setObject p o).posHead = l.posHead ∧
    (l.setObject p o).posTail = l.posTail ∧ (l.setObject p o).posUsed = l.posUsed ∧
    (l.setObject p o).newNodes = l.newNodes := ⟨rfl, rfl, rfl, rfl⟩

@[simp] theorem nodes_with {newNodes : Nat} {posTail posHead posUsed : OPOS} :
    SFList.next ⟨l.nodes, newNodes, posTail, posHead, posUsed⟩ y = l.next y ∧
    SFList.prev ⟨l.nodes, newNodes, posTail, posHead, posUsed⟩ y = l.prev y ∧
    SFList.object ⟨l.nodes, newNodes, posTail, posHead, posUsed⟩ y = l.object y := ⟨rfl, rfl, rfl⟩

theorem next_delNode : (l.delNode node).next y =
    if y = node then l.posUsed else if l.prev node = some y then l.next node else l.next y := by
  rw [SFList.delNode]
  cases before : l.prev node <;> cases after : l.next node <;> simp [*] <;> grind

theorem prev_delNode : (l.delNode node).prev y =
    if l.next node = some y then l.prev node else l.prev y := by
  rw [SFList.delNode]
  cases before : l.prev node <;> cases after : l.next node <;> simp [*] <;> grind

theorem object_delNode : (l.delNode node).object y = l.object y := by
  rw [SFList.delNode]
  cases before : l.prev node <;> cases after : l.next node <;> simp [*]

theorem ends_delNode : (l.delNode node).posHead = l.posHead ∧
    (l.delNode node).posTail = l.posTail ∧ (l.delNode node).posUsed = some node ∧
    (l.delNode node).newNodes = l.newNodes := by
  rw [SFList.delNode]
  cases before : l.prev node <;> cases after : l.next node <;> simp [*]

theorem next_newNode :
    l.newNode.2.next y = if y = l.newNode.1 then none else l.next y := by
  rw [SFList.newNode]
  cases l.posUsed <;> simp

theorem prev_newNode :
    l.newNode.2.prev y = if y = l.newNode.1 then none else l.prev y := by
  rw [SFList.newNode]
  cases l.posUsed <;> simp

theorem object_newNode : l.newNode.2.object y = l.object y := by
  rw [SFList.newNode]
  cases l.posUsed <;> simp

theorem ends_newNode : l.newNode.2.posHead = l.posHead ∧ l.newNode.2.posTail = l.posTail := by
  rw [SFList.newNode]
  cases l.posUsed <;> simp

end SFList

/-- The live nodes are the sequence, the free list is apart. -/
structure Holds (l : SFList) (seq : Sequence) (free : List Nat) : Prop where
  threaded : Threaded l.next l.prev none seq.positions none
  head : l.posHead = seq.positions.head?
  tail : l.posTail = seq.positions.getLast?
  used : Chained l.next l.posUsed free
  objects : ∀ cell ∈ seq, l.object cell.1 = cell.2

/-- The nodes made are live or free. -/
structure Linked (l : SFList) (seq : Sequence) (free : List Nat) : Prop extends
    Holds l seq free where
  all : (seq.positions ++ free).Perm (List.range l.newNodes)

/-- One node is neither yet. -/
structure Spare (l : SFList) (seq : Sequence) (free : List Nat) (node : Nat) : Prop extends
    Holds l seq free where
  all : (node :: (seq.positions ++ free)).Perm (List.range l.newNodes)
  next : l.next node = none
  prev : l.prev node = none

@[simp] theorem positions_append :
    Sequence.positions (before ++ after) = before.positions ++ after.positions :=
  List.map_append

@[simp] theorem positions_cons : Sequence.positions (cell :: seq) = cell.1 :: seq.positions := rfl

@[simp] theorem positions_nil : Sequence.positions [] = [] := rfl

namespace Linked

theorem nodup (linked : Linked l seq free) : (seq.positions ++ free).Nodup :=
  linked.all.nodup_iff.mpr List.nodup_range

theorem fresh (linked : Linked l seq free) : ∀ p ∈ seq.positions ++ free, p ≠ l.newNodes := by
  rintro p member rfl
  exact absurd (List.mem_range.mp (linked.all.mem_iff.mp member)) (Nat.lt_irrefl _)

/-- The node comes from the free list if that is not empty. -/
theorem newNode_source (linked : Linked l seq free) : ∃ free',
    (l.newNode.1 :: (seq.positions ++ free')).Perm (List.range l.newNode.2.newNodes) ∧
      Chained l.next l.newNode.2.posUsed free' := by
  have used := linked.used
  have all := linked.all
  rw [SFList.newNode]
  cases free with
  | nil =>
      have noneLeft : l.posUsed = none := used
      rw [noneLeft]
      refine ⟨[], ?_, rfl⟩
      dsimp only
      simp only [SFList.ends_setPrev, SFList.ends_setNext, List.range_succ]
      exact (all.cons l.newNodes).trans (List.perm_append_singleton _ _).symm
  | cons node free =>
      obtain ⟨first, rest⟩ := used
      rw [first]
      exact ⟨free, List.perm_middle.symm.trans all, rest⟩

theorem newNode (linked : Linked l seq free) :
    ∃ free', Spare l.newNode.2 seq free' l.newNode.1 := by
  obtain ⟨free', all, used⟩ := linked.newNode_source
  have fresh := (List.nodup_cons.mp (all.nodup_iff.mpr List.nodup_range)).1
  have other (p : Nat) (member : p ∈ seq.positions ++ free') : p ≠ l.newNode.1 := by
    rintro rfl
    exact fresh member
  refine ⟨free', ⟨?_, ?_, ?_, ?_, ?_⟩, all, ?_, ?_⟩
  · refine linked.threaded.congr (fun p member => ?_) fun p member => ?_
    · rw [SFList.next_newNode, if_neg (other p (List.mem_append_left _ member))]
    · rw [SFList.prev_newNode, if_neg (other p (List.mem_append_left _ member))]
  · rw [SFList.ends_newNode.1, linked.head]
  · rw [SFList.ends_newNode.2, linked.tail]
  · refine used.congr fun p member => ?_
    rw [SFList.next_newNode, if_neg (other p (List.mem_append_right _ member))]
  · intro cell member
    rw [SFList.object_newNode, linked.objects cell member]
  · rw [SFList.next_newNode, if_pos rfl]
  · rw [SFList.prev_newNode, if_pos rfl]

theorem neighbours (before : Sequence) (linked : Linked l (before ++ cell :: after) free) :
    l.prev cell.1 = before.positions.getLast? ∧ l.next cell.1 = after.positions.head? := by
  have threaded := linked.threaded
  rw [positions_append, positions_cons] at threaded
  exact threaded.at_cell

theorem apart (linked : Linked l (before ++ cell :: after) free) :
    cell.1 ∉ before.positions ∧ cell.1 ∉ after.positions := by
  have nodup := (List.nodup_append.mp linked.nodup).1
  rw [positions_append, positions_cons] at nodup
  have fresh := (List.nodup_cons.mp (List.nodup_middle.mp nodup)).1
  exact ⟨fun member => fresh (List.mem_append_left _ member),
    fun member => fresh (List.mem_append_right _ member)⟩

/-- A live node goes to the free list, and the ends move. -/
theorem remove (before : Sequence) (linked : Linked l (before ++ cell :: after) free)
    (next : ∀ y, l'.next y = (l.delNode cell.1).next y)
    (prev : ∀ y, l'.prev y = (l.delNode cell.1).prev y)
    (object : ∀ y, l'.object y = l.object y)
    (used : l'.posUsed = some cell.1) (newNodes : l'.newNodes = l.newNodes)
    (head : l'.posHead = (before ++ after).positions.head?)
    (tail : l'.posTail = (before ++ after).positions.getLast?) :
    Linked l' (before ++ after) (cell.1 :: free) := by
  obtain ⟨nodup, freeNodup, apart⟩ := List.nodup_append.mp linked.nodup
  have threaded := linked.threaded
  rw [positions_append, positions_cons] at nodup threaded apart
  obtain ⟨fresh, -⟩ := List.nodup_cons.mp (List.nodup_middle.mp nodup)
  have other (p : Nat) (member : p ∈ before.positions ++ after.positions) : p ≠ cell.1 := by
    rintro rfl
    exact fresh member
  obtain ⟨prevCell, nextCell⟩ := threaded.at_cell
  refine ⟨⟨?_, head, tail, ⟨used, ?_⟩, ?_⟩, ?_⟩
  · rw [positions_append]
    refine threaded.unlink nodup (fun y last => ?_) (fun y first => ?_) (fun y member inner => ?_)
      fun y member inner => ?_
    · rw [next, SFList.next_delNode, if_neg (other y ?_), if_pos (prevCell.trans last), nextCell]
      exact List.mem_append_left _ (List.mem_of_mem_getLast? last)
    · rw [prev, SFList.prev_delNode, if_pos (nextCell.trans first), prevCell]
    · rw [next, SFList.next_delNode, if_neg (other y member), if_neg]
      exact fun is => inner (prevCell.symm.trans is)
    · rw [prev, SFList.prev_delNode, if_neg]
      exact fun is => inner (nextCell.symm.trans is)
  · rw [next, SFList.next_delNode, if_pos rfl]
    refine linked.used.congr fun y member => ?_
    have dead : y ∉ before.positions ++ cell.1 :: after.positions := fun live =>
      apart y live y member rfl
    rw [next, SFList.next_delNode, if_neg, if_neg]
    · rw [prevCell]
      exact fun last => dead (List.mem_append_left _ (List.mem_of_mem_getLast? last))
    · rintro rfl
      exact dead (List.mem_append_right _ List.mem_cons_self)
  · intro c member
    rw [object]
    refine linked.objects c ?_
    rw [List.mem_append] at member
    exact member.elim (List.mem_append_left _) fun later =>
      List.mem_append_right _ (List.mem_cons_of_mem _ later)
  · rw [newNodes]
    refine List.Perm.trans ?_ linked.all
    simp only [positions_append, positions_cons, List.append_assoc, List.cons_append]
    exact List.Perm.append_left _ List.perm_middle

end Linked

namespace Spare

theorem fresh (spare : Spare l seq free node) : node ∉ seq.positions ++ free :=
  (List.nodup_cons.mp (spare.all.nodup_iff.mpr List.nodup_range)).1

/-- The spare node becomes live, between two parts of the list. -/
theorem link (before after : Sequence) (spare : Spare l (before ++ after) free node)
    (next : ∀ y, l'.next y = if y = node then after.positions.head?
      else if before.positions.getLast? = some y then some node else l.next y)
    (prev : ∀ y, l'.prev y = if y = node then before.positions.getLast?
      else if after.positions.head? = some y then some node else l.prev y)
    (object : ∀ y, l'.object y = if y = node then o else l.object y)
    (used : l'.posUsed = l.posUsed) (newNodes : l'.newNodes = l.newNodes)
    (head : l'.posHead = (before.positions ++ node :: after.positions).head?)
    (tail : l'.posTail = (before.positions ++ node :: after.positions).getLast?) :
    Linked l' (before ++ (node, o) :: after) free := by
  have nodup := spare.all.nodup_iff.mpr List.nodup_range
  rw [positions_append] at nodup
  have live : (before.positions ++ node :: after.positions).Nodup :=
    List.nodup_middle.mpr (List.nodup_append.mp nodup).1
  have threaded := spare.threaded
  rw [positions_append] at threaded
  have fresh := (List.nodup_cons.mp nodup).1
  have other (p : Nat) (member : p ∈ before.positions ++ after.positions ++ free) : p ≠ node := by
    rintro rfl
    exact fresh member
  have prevFree (p : Nat) (member : p ∈ free) : before.positions.getLast? ≠ some p := by
    intro last
    refine (List.nodup_append.mp (List.nodup_cons.mp nodup).2).2.2 p ?_ p member rfl
    exact List.mem_append_left _ (List.mem_of_mem_getLast? last)
  refine ⟨⟨?_, ?_, ?_, ?_, ?_⟩, ?_⟩
  · rw [positions_append, positions_cons]
    refine threaded.link live ?_ ?_ (fun y last => ?_) (fun y first => ?_) (fun y member inner => ?_)
      fun y member inner => ?_
    · rw [prev, if_pos rfl]
    · rw [next, if_pos rfl]
    · have member := List.mem_append_left after.positions (List.mem_of_mem_getLast? last)
      rw [next, if_neg (other y (List.mem_append_left free member))]
      exact if_pos last
    · have member := List.mem_append_right before.positions (List.mem_of_mem_head? first)
      rw [prev, if_neg (other y (List.mem_append_left free member))]
      exact if_pos first
    · rw [next, if_neg (other y (List.mem_append_left free member))]
      exact if_neg inner
    · rw [prev, if_neg (other y (List.mem_append_left free member))]
      exact if_neg inner
  · rw [head, positions_append, positions_cons]
  · rw [tail, positions_append, positions_cons]
  · rw [used]
    refine spare.used.congr fun y member => ?_
    rw [next, if_neg (other y (List.mem_append_right _ member)), if_neg (prevFree y member)]
  · intro cell member
    rw [object]
    rcases List.mem_append.mp member with earlier | here
    · have live : cell.1 ∈ before.positions := List.mem_map_of_mem earlier
      rw [if_neg (other _ (List.mem_append_left _ (List.mem_append_left _ live)))]
      exact spare.objects cell (List.mem_append_left _ earlier)
    · rcases List.mem_cons.mp here with rfl | later
      · rw [if_pos rfl]
      · have live : cell.1 ∈ after.positions := List.mem_map_of_mem later
        rw [if_neg (other _ (List.mem_append_left _ (List.mem_append_right _ live)))]
        exact spare.objects cell (List.mem_append_right _ later)
  · rw [newNodes]
    refine List.Perm.trans ?_ spare.all
    simp only [positions_append, positions_cons, List.append_assoc, List.cons_append]
    exact List.perm_middle

end Spare

/-! ## The calls -/

theorem addHead_linked (linked : Linked l seq free) (object : Object) : ∃ new free',
    new ∉ seq.positions ∧ (l.addHead object).1 = some new ∧
      Linked (l.addHead object).2 ((new, object) :: seq) free' := by
  obtain ⟨free', spare⟩ := linked.newNode
  rcases made : l.newNode with ⟨new, m⟩
  rw [made] at spare
  have fresh := spare.fresh
  have head : m.posHead = seq.positions.head? := spare.head
  have tail : m.posTail = seq.positions.getLast? := spare.tail
  have prev : m.prev new = none := spare.prev
  refine ⟨new, free', fun member => fresh (List.mem_append_left _ member), ?_, ?_⟩
  · rw [SFList.addHead, made]
    dsimp only
    split <;> rfl
  · refine Spare.link [] _ spare (fun y => ?_) (fun y => ?_) (fun y => ?_) ?_ ?_ ?_ ?_
    all_goals cases seq <;> simp at head fresh <;> simp [SFList.addHead, made, head, tail] <;> grind

theorem addTail_linked (linked : Linked l seq free) (object : Object) : ∃ new free',
    new ∉ seq.positions ∧ (l.addTail object).1 = some new ∧
      Linked (l.addTail object).2 (seq ++ [(new, object)]) free' := by
  obtain ⟨free', spare⟩ := linked.newNode
  rcases made : l.newNode with ⟨new, m⟩
  rw [made] at spare
  have fresh := spare.fresh
  have head : m.posHead = seq.positions.head? := spare.head
  have tail : m.posTail = seq.positions.getLast? := spare.tail
  have next : m.next new = none := spare.next
  refine ⟨new, free', fun member => fresh (List.mem_append_left _ member), ?_, ?_⟩
  · rw [SFList.addTail, made]
    dsimp only
    split <;> rfl
  · rw [← List.append_nil seq] at spare
    refine Spare.link _ [] spare (fun y => ?_) (fun y => ?_) (fun y => ?_) ?_ ?_ ?_ ?_
    all_goals
      rcases List.eq_nil_or_concat seq with rfl | ⟨before, cell, rfl⟩ <;> simp at tail fresh <;>
        simp [SFList.addTail, made, head, tail] <;> grind

theorem setAt_linked (linked : Linked l seq free) (object : Object) :
    Linked (l.setAt (some p) object)
      (seq.map fun cell => if cell.1 = p then (p, object) else cell) free := by
  have positions : (Sequence.positions
      (seq.map fun cell => if cell.1 = p then (p, object) else cell)) = seq.positions := by
    rw [Sequence.positions, List.map_map]
    refine List.map_congr_left fun cell _ => ?_
    simp only [Function.comp_apply]
    split
    · exact .symm ‹_›
    · rfl
  refine ⟨⟨?_, ?_, ?_, ?_, ?_⟩, ?_⟩ <;> simp only [positions, SFList.setAt]
  · exact linked.threaded.congr (fun y _ => SFList.next_setObject) fun y _ => SFList.prev_setObject
  · exact linked.head
  · exact linked.tail
  · exact linked.used.congr fun y _ => SFList.next_setObject
  · intro cell changed
    obtain ⟨old, member, rfl⟩ := List.mem_map.mp changed
    rw [SFList.object_setObject]
    by_cases same : old.1 = p
    · simp [same]
    · simp only [if_neg same]
      exact linked.objects old member
  · exact linked.all

theorem removeAt_eq : l.removeAt (some p) =
    (l.object p, SFList.delNode { l with
      posHead := if l.posHead = some p then l.next p else l.posHead
      posTail := if l.posTail = some p then l.prev p else l.posTail } p) := by
  rw [SFList.removeAt]
  split_ifs <;> rfl

theorem removeAt_linked (linked : Linked l (before ++ cell :: after) free) :
    (l.removeAt (some cell.1)).1 = cell.2 ∧
      Linked (l.removeAt (some cell.1)).2 (before ++ after) (cell.1 :: free) := by
  have ⟨prev, next⟩ := linked.neighbours _
  have apart := linked.apart
  have head := linked.head
  have tail := linked.tail
  have object := linked.objects cell (List.mem_append_right _ List.mem_cons_self)
  rw [removeAt_eq]
  refine ⟨object, linked.remove _ (fun y => ?_) (fun y => ?_) (fun y => ?_) ?_ ?_ ?_ ?_⟩
  · simp [SFList.next_delNode]
  · simp [SFList.prev_delNode]
  · simp [SFList.object_delNode]
  · simp [SFList.ends_delNode]
  · simp [SFList.ends_delNode]
  · cases before with
    | nil => simpa [SFList.ends_delNode, head] using next
    | cons first before =>
        have other : first.1 ≠ cell.1 := fun same => apart.1 (same ▸ List.mem_cons_self)
        simp [SFList.ends_delNode, head, other]
  · rcases List.eq_nil_or_concat after with rfl | ⟨after, last, rfl⟩
    · simpa [SFList.ends_delNode, tail] using prev
    · have other : last.1 ≠ cell.1 := fun same => apart.2 (by simp [same])
      have tail : l.posTail = some last.1 := by simpa [List.getLast?_cons] using linked.tail
      simp [SFList.ends_delNode, tail, other]

theorem removeHead_linked (linked : Linked l (cell :: seq) free) :
    l.removeHead.1 = cell.2 ∧ Linked l.removeHead.2 seq (cell.1 :: free) := by
  have ⟨prev, next⟩ := Linked.neighbours [] linked
  have head : l.posHead = some cell.1 := linked.head
  have tail := linked.tail
  refine ⟨?_, Linked.remove [] linked (fun y => ?_) (fun y => ?_) (fun y => ?_) ?_ ?_ ?_ ?_⟩
  · rw [← linked.objects cell List.mem_cons_self]
    simp [SFList.removeHead, head]
  · simp only [SFList.removeHead, head]
    split <;> simp [SFList.next_delNode]
  · simp only [SFList.removeHead, head]
    split <;> simp [SFList.prev_delNode]
  · simp only [SFList.removeHead, head]
    split <;> simp [SFList.object_delNode]
  · simp only [SFList.removeHead, head]
    split <;> simp [SFList.ends_delNode]
  · simp only [SFList.removeHead, head]
    split <;> simp [SFList.ends_delNode]
  · simp only [SFList.removeHead, head]
    split <;> simp [SFList.ends_delNode, next]
  · cases seq <;> simp [SFList.removeHead, head, SFList.ends_delNode, next, tail]

theorem removeTail_linked (linked : Linked l (seq ++ [cell]) free) :
    l.removeTail.1 = cell.2 ∧ Linked l.removeTail.2 seq (cell.1 :: free) := by
  have ⟨prev, next⟩ := linked.neighbours _
  have head := linked.head
  have tail : l.posTail = some cell.1 := by simpa using linked.tail
  have removed : Linked l.removeTail.2 (seq ++ []) (cell.1 :: free) := by
    refine linked.remove _ (fun y => ?_) (fun y => ?_) (fun y => ?_) ?_ ?_ ?_ ?_
    · simp only [SFList.removeTail, tail]
      split <;> simp [SFList.next_delNode]
    · simp only [SFList.removeTail, tail]
      split <;> simp [SFList.prev_delNode]
    · simp only [SFList.removeTail, tail]
      split <;> simp [SFList.object_delNode]
    · simp only [SFList.removeTail, tail]
      split <;> simp [SFList.ends_delNode]
    · simp only [SFList.removeTail, tail]
      split <;> simp [SFList.ends_delNode]
    · rcases List.eq_nil_or_concat seq with rfl | ⟨before, last, rfl⟩ <;>
        simp [SFList.removeTail, tail, SFList.ends_delNode, prev, head]
    · simp only [SFList.removeTail, tail]
      split <;> simp [SFList.ends_delNode, prev]
  rw [List.append_nil] at removed
  refine ⟨?_, removed⟩
  rw [← linked.objects cell (List.mem_append_right _ (List.mem_singleton_self _))]
  simp [SFList.removeTail, tail]

/-- The tail is set only after the loop. -/
theorem removeLoop_linked (fuel : Nat) (enough : seq.length ≤ fuel)
    (linked : Linked { l with posTail := seq.positions.getLast? } seq free) :
    ∃ l' free', SFList.removeLoop fuel l = some l' ∧
      Linked { l' with posTail := none } [] free' := by
  induction seq generalizing fuel l free with
  | nil =>
      have head : l.posHead = none := linked.head
      refine ⟨l, free, ?_, linked⟩
      rw [SFList.removeLoop.eq_def, head]
  | cons cell seq ih =>
      have head : l.posHead = some cell.1 := linked.head
      have ⟨prev, next⟩ := Linked.neighbours [] linked
      have next : l.next cell.1 = (Sequence.positions seq).head? := next
      cases fuel with
      | zero => exact absurd enough (Nat.not_succ_le_zero _)
      | succ fuel =>
          rw [SFList.removeLoop.eq_def, head]
          refine @ih _ (cell.1 :: free) fuel (Nat.le_of_succ_le_succ enough) ?_
          refine Linked.remove [] linked (fun y => ?_) (fun y => ?_) (fun y => ?_) ?_ ?_ ?_ ?_
          · simp [SFList.next_delNode]
          · simp [SFList.prev_delNode]
          · simp [SFList.object_delNode]
          · simp [SFList.ends_delNode]
          · simp [SFList.ends_delNode]
          · simp [next]
          · simp

theorem removeAll_linked (linked : Linked l seq free) :
    ∃ l' free', l.removeAll = some l' ∧ Linked l' [] free' := by
  have enough : seq.length ≤ l.newNodes := by
    have all := linked.all.length_eq
    simp [Sequence.positions] at all
    omega
  have tail : { l with posTail := Sequence.positions seq |>.getLast? } = l := by rw [← linked.tail]
  obtain ⟨l', free', loop, empty⟩ := removeLoop_linked (l := l) l.newNodes enough (tail ▸ linked)
  refine ⟨_, free', ?_, empty⟩
  rw [SFList.removeAll, loop]
  rfl

/-- An insertion at a position writes to the new node alone, so nothing leads to it. -/
theorem Spare.unreachable (spare : Spare l seq free node)
    (next : ∀ y, y ≠ node → l'.next y = l.next y) (prev : ∀ y, y ≠ node → l'.prev y = l.prev y)
    (object : ∀ y, y ≠ node → l'.object y = l.object y) (head : l'.posHead = l.posHead)
    (tail : l'.posTail = l.posTail) (used : l'.posUsed = l.posUsed) : Holds l' seq free := by
  have other (p : Nat) (member : p ∈ seq.positions ++ free) : p ≠ node := by
    rintro rfl
    exact spare.fresh member
  refine ⟨?_, head.trans spare.head, tail.trans spare.tail, ?_, fun cell member => ?_⟩
  · exact spare.threaded.congr (fun y member => next y (other y (List.mem_append_left _ member)))
      fun y member => prev y (other y (List.mem_append_left _ member))
  · rw [used]
    exact spare.used.congr fun y member => next y (other y (List.mem_append_right _ member))
  · have live : cell.1 ∈ seq.positions := List.mem_map_of_mem member
    rw [object _ (other _ (List.mem_append_left _ live)), spare.objects cell member]

theorem insert_unreachable (linked : Linked l seq free) {call : ListCall}
    (inserts : call.inserts = true) : ∃ new free' l', new ∉ seq.positions ∧
      l.call call = some (.position (some new), l') ∧ seq.length ≤ l'.newNodes ∧
      Holds l' seq free' := by
  obtain ⟨free', spare⟩ := linked.newNode
  have size := spare.all.length_eq
  rcases made : l.newNode with ⟨new, m⟩
  rw [made] at spare size
  have fresh : new ∉ seq.positions := fun member => spare.fresh (List.mem_append_left _ member)
  have enough : seq.length ≤ m.newNodes := by
    simp [Sequence.positions] at size
    omega
  cases call
  case insertAfter pos object =>
      cases pos with
      | none => contradiction
      | some p =>
          refine ⟨new, free', (l.insertAfter (some p) object).2, fresh, ?_, ?_, ?_⟩
          · simp [SFList.call, SFList.insertAfter, made]
          · simpa [SFList.insertAfter, made] using enough
          · refine spare.unreachable (fun y other => ?_) (fun y other => ?_) (fun y other => ?_) ?_ ?_ ?_
            all_goals simp [SFList.insertAfter, *]
  case insertBefore pos object =>
      cases pos with
      | none => contradiction
      | some p =>
          refine ⟨new, free', (l.insertBefore (some p) object).2, fresh, ?_, ?_, ?_⟩
          · simp [SFList.call, SFList.insertBefore, made]
          · simpa [SFList.insertBefore, made] using enough
          · refine spare.unreachable (fun y other => ?_) (fun y other => ?_) (fun y other => ?_) ?_ ?_ ?_
            all_goals simp [SFList.insertBefore, *]
  all_goals contradiction

/-! ## What the list shows -/

theorem countLoop_eq {start : OPOS} {xs : List Nat} (chained : Chained l.next start xs) {fuel : Nat}
    (enough : xs.length ≤ fuel) (n : Nat) : l.countLoop fuel start n = some (n + xs.length) := by
  induction xs generalizing start fuel n with
  | nil =>
      obtain rfl : start = none := chained
      cases fuel <;> rfl
  | cons x xs ih =>
      obtain ⟨rfl, rest⟩ := chained
      cases fuel with
      | zero => exact absurd enough (Nat.not_succ_le_zero _)
      | succ fuel =>
          rw [SFList.countLoop, ih rest (Nat.le_of_succ_le_succ enough), List.length_cons]
          congr 1
          omega

namespace Holds

theorem restored (holds : Holds l seq free) :
    seq.positions.map (fun p => (p, l.getAt (some p))) = seq := by
  rw [Sequence.positions, List.map_map]
  refine (List.map_congr_left fun cell member => ?_).trans (List.map_id seq)
  exact Prod.ext rfl (holds.objects cell member)

theorem forward (holds : Holds l seq free) (enough : seq.length ≤ l.newNodes) :
    l.forward = some seq := by
  have chained := holds.threaded.chained
  rw [← holds.head] at chained
  have walks := chained.walk (n := l.newNodes) (by simpa [Sequence.positions] using enough)
  exact (congrArg _ walks).trans (congrArg some holds.restored)

theorem backward (holds : Holds l seq free) (enough : seq.length ≤ l.newNodes) :
    l.backward = some seq.reverse := by
  have chained := holds.threaded.reverse.chained
  rw [List.head?_reverse, ← holds.tail] at chained
  have walks := chained.walk (n := l.newNodes) (by simpa [Sequence.positions] using enough)
  refine (congrArg _ walks).trans (congrArg some ?_)
  exact List.map_reverse.trans (congrArg List.reverse holds.restored)

end Holds

theorem Linked.represents (linked : Linked l seq free) : l.Represents seq := by
  have size := linked.all.length_eq
  have positions : seq.positions.length = seq.length := List.length_map _
  rw [List.length_append, List.length_range, positions] at size
  have enough : seq.length ≤ l.newNodes := by omega
  have head := linked.head
  have tail := linked.tail
  refine ⟨linked.forward enough, linked.backward enough, ?_, ?_, ?_, ?_, ?_, ?_, free, ?_, ?_⟩
  · cases seq <;> simp [SFList.isEmpty, head, tail]
  · rw [SFList.getHeadPosition, head, Sequence.positions, List.head?_map]
  · rw [SFList.getTailPosition, tail, Sequence.positions, List.getLast?_map]
  · cases seq with
    | nil => rw [SFList.getHead, head]; rfl
    | cons cell seq => rw [SFList.getHead, head]; exact linked.objects cell List.mem_cons_self
  · rcases List.eq_nil_or_concat seq with rfl | ⟨before, cell, rfl⟩
    · rw [SFList.getTail, tail]; rfl
    · have last : l.posTail = some cell.1 := by simpa using tail
      rw [SFList.getTail, last, List.concat_eq_append, List.getLast?_concat]
      exact linked.objects cell (by simp)
  · have chained := linked.threaded.chained
    rw [← head] at chained
    rw [SFList.getCount, countLoop_eq chained (by omega), positions, Nat.zero_add]
  · exact linked.used.walk (by omega)
  · exact fun p live dead => (List.nodup_append.mp linked.nodup).2.2 p live p dead rfl

/-! ## Runs of calls -/

theorem filter_eq (linked : Linked l (before ++ cell :: after) free) :
    (before ++ cell :: after).filter (·.1 ≠ cell.1) = before ++ after := by
  have ⟨early, late⟩ := linked.apart
  have kept (part : Sequence) (absent : cell.1 ∉ part.positions) :
      part.filter (·.1 ≠ cell.1) = part := by
    refine List.filter_eq_self.mpr fun c inside => decide_eq_true fun same => absent ?_
    exact same ▸ List.mem_map_of_mem inside
  rw [List.filter_append, List.filter_cons_of_neg (by simp), kept before early, kept after late]

theorem call_linked (linked : Linked l seq free) {call : ListCall} (valid : call.Valid seq)
    (plain : call.inserts = false) : ∃ reply l' free', l.call call = some (reply, l') ∧
      seq.Answers call reply ∧ Linked l' (seq.after call reply) free' := by
  cases call with
  | addHead object =>
      obtain ⟨new, free', fresh, position, linked'⟩ := addHead_linked linked object
      refine ⟨.position (some new), _, free', ?_, ⟨new, fresh, rfl⟩, linked'⟩
      rw [SFList.call, ← position]
      rfl
  | addTail object =>
      obtain ⟨new, free', fresh, position, linked'⟩ := addTail_linked linked object
      refine ⟨.position (some new), _, free', ?_, ⟨new, fresh, rfl⟩, linked'⟩
      rw [SFList.call, ← position]
      rfl
  | insertAfter pos object =>
      cases pos with
      | none => exact ⟨_, l, free, rfl, rfl, linked⟩
      | some p => contradiction
  | insertBefore pos object =>
      cases pos with
      | none => exact ⟨_, l, free, rfl, rfl, linked⟩
      | some p => contradiction
  | removeAt pos =>
      cases pos with
      | none => exact ⟨_, l, free, rfl, rfl, linked⟩
      | some p =>
          obtain ⟨cell, listed, rfl⟩ := List.mem_map.mp (valid p rfl)
          obtain ⟨before, after, rfl⟩ := List.append_of_mem listed
          obtain ⟨object, linked'⟩ := removeAt_linked linked
          refine ⟨.object cell.2, (l.removeAt (some cell.1)).2, cell.1 :: free, ?_, ?_, ?_⟩
          · rw [SFList.call, ← object]
            rfl
          · exact ⟨cell.2, listed, rfl⟩
          · rw [Sequence.after, filter_eq linked]
            exact linked'
  | removeHead =>
      cases seq with
      | nil =>
          have head : l.posHead = none := linked.head
          refine ⟨.object NULL, l, free, ?_, rfl, linked⟩
          rw [SFList.call, SFList.removeHead, head]
          rfl
      | cons cell seq =>
          obtain ⟨object, linked'⟩ := removeHead_linked linked
          refine ⟨.object cell.2, l.removeHead.2, cell.1 :: free, ?_, rfl, linked'⟩
          rw [SFList.call, ← object]
          rfl
  | removeTail =>
      rcases List.eq_nil_or_concat seq with rfl | ⟨before, cell, rfl⟩
      · have tail : l.posTail = none := linked.tail
        refine ⟨.object NULL, l, free, ?_, rfl, linked⟩
        rw [SFList.call, SFList.removeTail, tail]
        rfl
      · rw [List.concat_eq_append] at linked ⊢
        obtain ⟨object, linked'⟩ := removeTail_linked linked
        refine ⟨.object cell.2, l.removeTail.2, cell.1 :: free, ?_, ?_, ?_⟩
        · rw [SFList.call, ← object]
          rfl
        · rw [Sequence.Answers, List.getLast?_concat]
          rfl
        · rw [Sequence.after, List.dropLast_concat]
          exact linked'
  | setAt pos object =>
      cases pos with
      | none => exact ⟨_, l, free, rfl, rfl, linked⟩
      | some p => exact ⟨_, _, free, rfl, rfl, setAt_linked linked object⟩
  | removeAll =>
      obtain ⟨l', free', all, linked'⟩ := removeAll_linked linked
      refine ⟨.nothing, l', free', ?_, rfl, linked'⟩
      rw [SFList.call, all]
      rfl

/-- An insertion puts its new element into the sequence. -/
theorem new_mem_after {call : ListCall} (valid : call.Valid seq) (inserts : call.inserts = true)
    (new : Nat) : new ∈ (seq.after call (.position (some new))).positions := by
  cases call
  case insertAfter pos object =>
      cases pos with
      | none => contradiction
      | some p =>
          obtain ⟨cell, listed, rfl⟩ := List.mem_map.mp (valid p rfl)
          refine List.mem_map.mpr ⟨(new, object), List.mem_flatMap.mpr ⟨cell, listed, ?_⟩, rfl⟩
          simp
  case insertBefore pos object =>
      cases pos with
      | none => contradiction
      | some p =>
          obtain ⟨cell, listed, rfl⟩ := List.mem_map.mp (valid p rfl)
          refine List.mem_map.mpr ⟨(new, object), List.mem_flatMap.mpr ⟨cell, listed, ?_⟩, rfl⟩
          simp
  all_goals contradiction

theorem answers_insert {call : ListCall} (inserts : call.inserts = true) {new : Nat}
    (fresh : new ∉ seq.positions) : seq.Answers call (.position (some new)) := by
  cases call
  case insertAfter pos object =>
      cases pos with
      | none => contradiction
      | some p => exact ⟨new, fresh, rfl⟩
  case insertBefore pos object =>
      cases pos with
      | none => contradiction
      | some p => exact ⟨new, fresh, rfl⟩
  all_goals contradiction

/-- Every call returns what it has to, and just the insertions at a position break the list. -/
theorem call_represents_iff (linked : Linked l seq free) {call : ListCall}
    (valid : call.Valid seq) : ∃ reply l', l.call call = some (reply, l') ∧
      seq.Answers call reply ∧ (l'.Represents (seq.after call reply) ↔ call.inserts = false) := by
  cases kind : call.inserts with
  | false =>
      obtain ⟨reply, l', free', returns, answers, linked'⟩ := call_linked linked valid kind
      exact ⟨reply, l', returns, answers, iff_of_true linked'.represents rfl⟩
  | true =>
      obtain ⟨new, free', l', fresh, returns, enough, holds⟩ := insert_unreachable linked kind
      refine ⟨_, l', returns, answers_insert kind fresh, ?_⟩
      refine iff_of_false (fun represents => fresh ?_) (by decide)
      have same := represents.forward.symm.trans (holds.forward enough)
      rw [← Option.some.inj same]
      exact new_mem_after valid kind new

theorem run_linked {calls : List ListCall} {r : ListRun}
    (run : Run (Guarded (fun _ call => call.inserts = false) ListRun.Steps) {} calls r) :
    ∃ free, Linked r.list r.seq free := by
  refine run.invariant (I := fun r => ∃ free, Linked r.list r.seq free) ⟨[], ?_⟩ ?_
  · exact ⟨⟨trivial, rfl, rfl, rfl, fun _ member => absurd member List.not_mem_nil⟩, .refl _⟩
  · rintro r call r' ⟨free, linked⟩ ⟨plain, step⟩
    rw [ListRun.Steps, ListRun.step] at step
    split at step
    · rename_i valid
      obtain ⟨reply, l', free', returns, -, linked'⟩ := call_linked linked valid plain
      rw [returns] at step
      obtain rfl := Option.some.inj step
      exact ⟨free', linked'⟩
    · contradiction

theorem run_represents {calls : List ListCall} {r : ListRun}
    (run : Run (Guarded (fun _ call => call.inserts = false) ListRun.Steps) {} calls r) :
    r.list.Represents r.seq ∧ ∀ call : ListCall, call.Valid r.seq →
      ∃ reply l', r.list.call call = some (reply, l') ∧ r.seq.Answers call reply ∧
        (l'.Represents (r.seq.after call reply) ↔ call.inserts = false) := by
  obtain ⟨free, linked⟩ := run_linked run
  exact ⟨linked.represents, fun call valid => call_represents_iff linked valid⟩

/-- A node is given back and used again. -/
def reusedNode : List ListCall :=
  [.addTail 7, .addTail 8, .addHead 9, .removeAt (some 0), .setAt (some 1) 5, .addTail 6]

theorem reusedNode_represents : ∃ r : ListRun, r.seq = [(2, 9), (1, 5), (0, 6)] ∧
    r.list.Represents r.seq ∧ ∀ call : ListCall, call.Valid r.seq →
      ∃ reply l', r.list.call call = some (reply, l') ∧ r.seq.Answers call reply ∧
        (l'.Represents (r.seq.after call reply) ↔ call.inserts = false) := by
  have plays : (reusedNode.foldlM (fun r call => if call.inserts = false then r.step call
      else none) ({} : ListRun)).map (·.seq) = some [(2, 9), (1, 5), (0, 6)] := by
    decide
  obtain ⟨r, result, seq⟩ := Option.map_eq_some_iff.mp plays
  exact ⟨r, seq, run_represents (Run.guarded_of_foldlM _ ListRun.step reusedNode result)⟩

/-- What `InsertAfter` puts behind the only node is not met by a traversal. -/
theorem insertedNode_lost : ∃ r : ListRun,
    Run ListRun.Steps {} [.addTail 7, .insertAfter (some 0) 8] r ∧ r.seq = [(0, 7), (1, 8)] ∧
      r.list.forward = some [(0, 7)] ∧ ¬r.list.Represents r.seq := by
  have plays : ([ListCall.addTail 7, .insertAfter (some 0) 8].foldlM ListRun.step {}).map
      (fun r => (r.seq, r.list.forward)) = some ([(0, 7), (1, 8)], some [(0, 7)]) := by
    decide
  obtain ⟨r, result, shows⟩ := Option.map_eq_some_iff.mp plays
  obtain ⟨seq, forward⟩ := Prod.mk.inj shows
  refine ⟨r, Run.of_foldlM ListRun.step _ result, seq, forward, fun represents => ?_⟩
  have same := represents.forward
  rw [forward, seq] at same
  contradiction

end Cgsf.Proof.BaseLayer
