import Cgsf.BaseLayer.GeneralPool
import Mathlib.Data.List.Chain
import Mathlib.Data.List.Pairwise

/-!
# A page of the pool

The nodes of a page tile it; those that are not allocated are linked in their order, and never two
beside each other. Handing out a node and taking one back keep this, whatever its neighbours are.
-/

namespace Cgsf.Proof.BaseLayer
open Cgsf.BaseLayer Library

namespace GeneralPoolPage

variable {page : GeneralPoolPage} {node y : Nat} {f : GeneralPoolNode → GeneralPoolNode}

theorem nodes_edit : (page.edit node f).nodes y =
    if y = node then f (page.nodes node) else page.nodes y := by
  simp only [GeneralPoolPage.edit, Function.update_apply]

theorem nodes_editIf {node : Option Nat} : (page.editIf node f).nodes y =
    if node = some y then f (page.nodes y) else page.nodes y := by
  cases node with
  | none => simp [GeneralPoolPage.editIf]
  | some node =>
      simp only [GeneralPoolPage.editIf, nodes_edit, Option.some.injEq]
      grind

/-- A node that others are taken out or put in beside: where it pointed to them it points to what
came in their place. -/
def relinked (page : GeneralPoolPage) (ahead behind next newNext newPrev newRow : Option Nat)
    (y : Nat) : GeneralPoolNode :=
  { page.nodes y with
    availableNext := if ahead = some y then newNext else (page.nodes y).availableNext
    availablePrev := if behind = some y then newPrev else (page.nodes y).availablePrev
    prev := if next = some y then newRow else (page.nodes y).prev }

theorem nodes_removeAvailableList (before : (page.nodes node).availablePrev ≠ some node)
    (after : (page.nodes node).availableNext ≠ some node) :
    (page.removeAvailableList node).nodes y =
      if y = node then { page.nodes node with
        availablePrev := none, availableNext := none, allocated := true }
      else relinked page (page.nodes node).availablePrev (page.nodes node).availableNext none
        (page.nodes node).availableNext (page.nodes node).availablePrev none y := by
  rw [GeneralPoolPage.removeAvailableList]
  ext1 <;> cases first : (page.nodes node).availablePrev <;>
    simp only [nodes_edit, nodes_editIf, relinked] <;> grind

theorem nodes_splitAllocNode {size : Nat} (before : (page.nodes node).availablePrev ≠ some node)
    (after : (page.nodes node).availableNext ≠ some node)
    (next : (page.nodes node).next ≠ some node)
    (freshBefore : (page.nodes node).availablePrev ≠ some (getMemory node + size))
    (freshAfter : (page.nodes node).availableNext ≠ some (getMemory node + size))
    (freshNext : (page.nodes node).next ≠ some (getMemory node + size))
    (different : getMemory node + size ≠ node) :
    (page.splitAllocNode node size).nodes y =
      if y = getMemory node + size then { page.nodes node with
        size := (page.nodes node).size - size - nodeSize
        realSize := 0, prev := some node, allocated := false }
      else if y = node then { page.nodes node with
        size, availablePrev := none, availableNext := none
        next := some (getMemory node + size), allocated := true }
      else relinked page (page.nodes node).availablePrev (page.nodes node).availableNext
        (page.nodes node).next (some (getMemory node + size)) (some (getMemory node + size))
        (some (getMemory node + size)) y := by
  rw [GeneralPoolPage.splitAllocNode]
  generalize getMemory node + size = new at *
  have different' := different.symm
  cases first : (page.nodes node).availablePrev with
  | none =>
      by_cases isNew : y = new
      · subst isNew
        simp [nodes_edit, nodes_editIf, GeneralPoolNode.clear, *]
      · by_cases isNode : y = node
        · subst isNode
          simp [nodes_edit, nodes_editIf, GeneralPoolNode.clear, *]
        · simp [relinked, nodes_edit, nodes_editIf, GeneralPoolNode.clear, *]
          ext1 <;> grind
  | some b =>
      have apart : b ≠ node ∧ b ≠ new := by grind
      have apart' : node ≠ b ∧ new ≠ b := by grind
      by_cases isNew : y = new
      · subst isNew
        simp [nodes_edit, nodes_editIf, GeneralPoolNode.clear, *]
      · by_cases isNode : y = node
        · subst isNode
          simp [nodes_edit, nodes_editIf, GeneralPoolNode.clear, *]
        · simp [relinked, nodes_edit, nodes_editIf, GeneralPoolNode.clear, *]
          ext1 <;> grind

theorem nodes_freeMergePrevAndNext {before after : Nat} (apart : before ≠ after)
    (other : node ≠ before) (free : (page.nodes after).availableNext ≠ some before)
    (free' : (page.nodes after).availableNext ≠ some after)
    (next : (page.nodes after).next ≠ some before) (next' : (page.nodes after).next ≠ some after) :
    (page.freeMergePrevAndNext node before after).nodes y =
      if y = before then { page.nodes before with
        availableNext := (page.nodes after).availableNext
        next := (page.nodes after).next
        size := (page.nodes before).size +
          ((page.nodes node).size + nodeSize + (page.nodes after).size + nodeSize) }
      else relinked page none (page.nodes after).availableNext (page.nodes after).next none
        (some before) (some before) y := by
  rw [GeneralPoolPage.freeMergePrevAndNext]
  have apart' := apart.symm
  by_cases is : y = before
  · subst is
    simp [nodes_edit, nodes_editIf, *]
    grind
  · simp [relinked, nodes_edit, nodes_editIf, *]
    ext1 <;> grind

theorem nodes_freeMergePrev {before : Nat} (other : node ≠ before)
    (next : (page.nodes node).next ≠ some before) (next' : (page.nodes node).next ≠ some node) :
    (page.freeMergePrev node before).nodes y =
      if y = before then { page.nodes before with
        next := (page.nodes node).next
        size := (page.nodes before).size + ((page.nodes node).size + nodeSize) }
      else relinked page none none (page.nodes node).next none none (some before) y := by
  rw [GeneralPoolPage.freeMergePrev]
  by_cases is : y = before
  · subst is
    simp [nodes_edit, nodes_editIf, *]
  · simp [relinked, nodes_edit, nodes_editIf, *]
    ext1 <;> grind

theorem nodes_freeMergeNext {after : Nat} (other : node ≠ after)
    (unlinked : (page.nodes node).availablePrev = none)
    (unlinked' : (page.nodes node).availableNext = none)
    (behind : (page.nodes after).availableNext ≠ some node)
    (behind' : (page.nodes after).availableNext ≠ some after)
    (ahead : (page.nodes after).availablePrev ≠ some node)
    (ahead' : (page.nodes after).availablePrev ≠ some after)
    (next : (page.nodes after).next ≠ some node) (next' : (page.nodes after).next ≠ some after) :
    (page.freeMergeNext node after).nodes y =
      if y = node then { page.nodes node with
        availablePrev := (page.nodes after).availablePrev
        availableNext := (page.nodes after).availableNext
        next := (page.nodes after).next
        size := (page.nodes node).size + ((page.nodes after).size + nodeSize) }
      else relinked page (page.nodes after).availablePrev (page.nodes after).availableNext
        (page.nodes after).next (some node) (some node) (some node) y := by
  rw [GeneralPoolPage.freeMergeNext]
  have other' := other.symm
  cases last : (page.nodes after).availableNext with
  | none =>
      cases first : (page.nodes after).availablePrev with
      | none =>
          by_cases is : y = node <;> simp [relinked, nodes_edit, nodes_editIf, *]
          all_goals ext1 <;> grind
      | some p =>
          have apart : p ≠ node ∧ p ≠ after := by grind
          have apart' : node ≠ p ∧ after ≠ p := by grind
          by_cases is : y = node <;> simp [relinked, nodes_edit, nodes_editIf, *]
          all_goals ext1 <;> grind
  | some q =>
      have apartQ : q ≠ node ∧ q ≠ after := by grind
      have apartQ' : node ≠ q ∧ after ≠ q := by grind
      cases first : (page.nodes after).availablePrev with
      | none =>
          by_cases is : y = node <;> simp [relinked, nodes_edit, nodes_editIf, *]
          all_goals ext1 <;> grind
      | some p =>
          have apart : p ≠ node ∧ p ≠ after := by grind
          have apart' : node ≠ p ∧ after ≠ p := by grind
          by_cases is : y = node <;> simp [relinked, nodes_edit, nodes_editIf, *]
          all_goals ext1 <;> grind

/-- What stands between the nearest free node before and the one after it is linked to both. -/
theorem freeMergeNone_eq {before after : Option Nat}
    (found : page.freeBefore defaultPageSize (page.nodes node).prev = some before)
    (empty : before = none → page.available = after)
    (linked : ∀ b, before = some b → page.available ≠ none ∧ (page.nodes b).availableNext = after)
    (unlinked : (page.nodes node).availablePrev = none)
    (unlinked' : (page.nodes node).availableNext = none)
    (other : before ≠ some node) (other' : after ≠ some node)
    (apart : ∀ b, before = some b → after ≠ some b) :
    ∃ page', page.freeMergeNone node = some page' ∧
      page'.available = (if before = none then some node else page.available) ∧
      page'.prev = page.prev ∧ page'.next = page.next ∧ page'.miss = page.miss ∧
      ∀ y, page'.nodes y =
        if y = node then { page.nodes node with availablePrev := before, availableNext := after }
        else relinked page before after none (some node) (some node) none y := by
  rw [GeneralPoolPage.freeMergeNone]
  cases before with
  | none =>
      rw [empty rfl, found]
      cases after with
      | none =>
          refine ⟨_, rfl, rfl, rfl, rfl, rfl, fun y => ?_⟩
          by_cases is : y = node
          · ext1 <;> simp [*]
          · simp [relinked, *]
      | some q =>
          have differ : q ≠ node ∧ node ≠ q := by grind
          refine ⟨_, rfl, rfl, rfl, rfl, rfl, fun y => ?_⟩
          by_cases is : y = node <;> simp [relinked, nodes_edit, *]
          ext1 <;> grind
  | some b =>
      obtain ⟨filled, next⟩ := linked b rfl
      obtain ⟨first, filled⟩ := Option.ne_none_iff_exists'.mp filled
      rw [filled, found]
      have differ : b ≠ node ∧ node ≠ b := by grind
      cases after with
      | none =>
          refine ⟨_, rfl, ?_⟩
          simp only [next]
          refine ⟨filled, rfl, rfl, rfl, fun y => ?_⟩
          by_cases is : y = node <;> simp [relinked, nodes_edit, *]
          ext1 <;> grind
      | some q =>
          have differ' : q ≠ node ∧ node ≠ q := by grind
          have apart' : q ≠ b ∧ b ≠ q := by grind
          refine ⟨_, rfl, ?_⟩
          simp only [next]
          refine ⟨filled, rfl, rfl, rfl, fun y => ?_⟩
          by_cases is : y = node <;> simp [relinked, nodes_edit, *]
          ext1 <;> grind

@[simp] theorem ends_edit : (page.edit node f).available = page.available ∧
    (page.edit node f).prev = page.prev ∧ (page.edit node f).next = page.next ∧
    (page.edit node f).miss = page.miss := ⟨rfl, rfl, rfl, rfl⟩

@[simp] theorem ends_editIf {node : Option Nat} : (page.editIf node f).available = page.available ∧
    (page.editIf node f).prev = page.prev ∧ (page.editIf node f).next = page.next ∧
    (page.editIf node f).miss = page.miss := by
  cases node <;> exact ⟨rfl, rfl, rfl, rfl⟩

theorem ends_removeAvailableList (page : GeneralPoolPage) (node : Nat) :
    (page.removeAvailableList node).available =
      (if (page.nodes node).availablePrev = none then (page.nodes node).availableNext
        else page.available) ∧
    (page.removeAvailableList node).prev = page.prev ∧
    (page.removeAvailableList node).next = page.next ∧
    (page.removeAvailableList node).miss = page.miss := by
  rw [GeneralPoolPage.removeAvailableList]
  cases (page.nodes node).availablePrev <;> simp

theorem ends_freeMergePrevAndNext (page : GeneralPoolPage) (node before after : Nat) :
    (page.freeMergePrevAndNext node before after).available = page.available ∧
    (page.freeMergePrevAndNext node before after).prev = page.prev ∧
    (page.freeMergePrevAndNext node before after).next = page.next ∧
    (page.freeMergePrevAndNext node before after).miss = page.miss := by
  simp [GeneralPoolPage.freeMergePrevAndNext]

theorem ends_freeMergePrev (page : GeneralPoolPage) (node before : Nat) :
    (page.freeMergePrev node before).available = page.available ∧
    (page.freeMergePrev node before).prev = page.prev ∧
    (page.freeMergePrev node before).next = page.next ∧
    (page.freeMergePrev node before).miss = page.miss := by
  simp [GeneralPoolPage.freeMergePrev]

theorem ends_freeMergeNext {after : Nat} (other : node ≠ after)
    (behind : (page.nodes after).availableNext ≠ some after) :
    (page.freeMergeNext node after).available =
      (if (page.nodes after).availablePrev = none then some node else page.available) ∧
    (page.freeMergeNext node after).prev = page.prev ∧
    (page.freeMergeNext node after).next = page.next ∧
    (page.freeMergeNext node after).miss = page.miss := by
  rw [GeneralPoolPage.freeMergeNext]
  have other' := other.symm
  cases last : (page.nodes after).availableNext with
  | none => cases first : (page.nodes after).availablePrev <;> simp [*]
  | some q =>
      have apart : after ≠ q := fun same => behind (by rw [last, same])
      cases first : (page.nodes after).availablePrev <;> simp [nodes_edit, *]

theorem ends_splitAllocNode {size : Nat} (different : getMemory node + size ≠ node) :
    (page.splitAllocNode node size).available =
      (if (page.nodes node).availablePrev = none then some (getMemory node + size)
        else page.available) ∧
    (page.splitAllocNode node size).prev = page.prev ∧
    (page.splitAllocNode node size).next = page.next ∧
    (page.splitAllocNode node size).miss = page.miss := by
  rw [GeneralPoolPage.splitAllocNode]
  generalize getMemory node + size = new at *
  have different' := different.symm
  cases first : (page.nodes node).availablePrev <;> simp [nodes_edit, *]

end GeneralPoolPage

/-! ## The row of nodes -/

section Tiles

variable {nodes nodes' : Nat → GeneralPoolNode} {start stop n : Nat} {offs before after : List Nat}

theorem nodeSize_pos : 0 < nodeSize := by decide

namespace Tiles

theorem append_iff : Tiles nodes start (before ++ after) stop ↔
    ∃ middle, Tiles nodes start before middle ∧ Tiles nodes middle after stop := by
  induction before generalizing start with
  | nil => simp [Tiles]
  | cons n before ih => simp [Tiles, ih, and_assoc]

theorem congr (tiles : Tiles nodes start offs stop)
    (same : ∀ n ∈ offs, (nodes' n).size = (nodes n).size) : Tiles nodes' start offs stop := by
  induction offs generalizing start with
  | nil => exact tiles
  | cons n offs ih =>
      refine ⟨tiles.1, ?_⟩
      rw [same n List.mem_cons_self]
      exact ih tiles.2 fun m member => same m (List.mem_cons_of_mem n member)

theorem replace (middle middle' : List Nat)
    (tiles : Tiles nodes start (before ++ (middle ++ after)) stop)
    (same : ∀ y ∈ before ++ after, (nodes' y).size = (nodes y).size)
    (inner : ∀ s e, Tiles nodes s middle e → Tiles nodes' s middle' e) :
    Tiles nodes' start (before ++ (middle' ++ after)) stop := by
  obtain ⟨s, early, rest⟩ := append_iff.mp tiles
  obtain ⟨e, here, late⟩ := append_iff.mp rest
  refine append_iff.mpr ⟨s, ?_, append_iff.mpr ⟨e, inner s e here, ?_⟩⟩
  · exact congr early fun y member => same y (List.mem_append_left _ member)
  · exact congr late fun y member => same y (List.mem_append_right _ member)

theorem within (tiles : Tiles nodes start offs stop) : start + offs.length ≤ stop ∧
    ∀ n ∈ offs, start ≤ n ∧ getMemory n + (nodes n).size ≤ stop := by
  induction offs generalizing start with
  | nil => exact ⟨Nat.le_of_eq tiles, by simp⟩
  | cons n offs ih =>
      obtain ⟨rfl, rest⟩ := tiles
      have ⟨size, inside⟩ := ih rest
      have positive := nodeSize_pos
      rw [getMemory] at size
      refine ⟨by rw [List.length_cons]; omega, fun m member => ?_⟩
      rcases List.mem_cons.mp member with rfl | later
      · rw [getMemory]
        omega
      · have := inside m later
        rw [getMemory] at this
        omega

theorem pairwise (tiles : Tiles nodes start offs stop) :
    offs.Pairwise fun n m => getMemory n + (nodes n).size ≤ m := by
  induction offs generalizing start with
  | nil => exact .nil
  | cons n offs ih =>
      obtain ⟨rfl, rest⟩ := tiles
      exact .cons (fun m member => ((within rest).2 m member).1) (ih rest)

theorem nodup (tiles : Tiles nodes start offs stop) : offs.Nodup := by
  refine (pairwise tiles).imp fun below same => ?_
  have positive := nodeSize_pos
  rw [getMemory] at below
  omega

theorem split (tiles : Tiles nodes start (before ++ n :: after) stop) :
    n ∉ before ∧ n ∉ after ∧ ∀ m ∈ before, m ∉ after := by
  have row := nodup tiles
  have fresh := (List.nodup_cons.mp (List.nodup_middle.mp row)).1
  refine ⟨fun member => fresh (List.mem_append_left _ member),
    fun member => fresh (List.mem_append_right _ member), fun m here there => ?_⟩
  exact (List.nodup_append.mp row).2.2 m here m (List.mem_cons_of_mem _ there) rfl

theorem apart (tiles : Tiles nodes start offs stop) {m : Nat} (here : n ∈ offs) (there : m ∈ offs)
    (differ : n ≠ m) : getMemory n + (nodes n).size ≤ m ∨ getMemory m + (nodes m).size ≤ n := by
  have either := (pairwise tiles).imp (S := fun n m => getMemory n + (nodes n).size ≤ m ∨
    getMemory m + (nodes m).size ≤ n) fun below => .inl below
  have symm : Std.Symm fun n m => getMemory n + (nodes n).size ≤ m ∨
    getMemory m + (nodes m).size ≤ n := ⟨fun _ _ => Or.symm⟩
  exact either.forall here there differ

end Tiles

end Tiles

/-- The nodes of a page that are not allocated. -/
def frees (page : GeneralPoolPage) (offs : List Nat) : List Nat :=
  offs.filter fun n => !(page.nodes n).allocated

/-- One of two neighbours is allocated. -/
def Unmerged (page : GeneralPoolPage) (n m : Nat) : Prop :=
  (page.nodes n).allocated = true ∨ (page.nodes m).allocated = true

structure Kept (page : GeneralPoolPage) (p : Nat) (offs : List Nat) : Prop where
  threaded : Threaded (fun n => (page.nodes n).next) (fun n => (page.nodes n).prev) none offs none
  first : offs.head? = some firstNode
  tiles : Tiles page.nodes firstNode offs defaultPageSize
  available : Threaded (fun n => (page.nodes n).availableNext)
    (fun n => (page.nodes n).availablePrev) none (frees page offs) none
  root : page.available = (frees page offs).head?
  unlinked : ∀ n ∈ offs, (page.nodes n).allocated = true →
    (page.nodes n).availablePrev = none ∧ (page.nodes n).availableNext = none
  merged : offs.IsChain (Unmerged page)
  owner : ∀ n ∈ offs, (page.nodes n).owner = some p

section Frees

variable {page page' : GeneralPoolPage} {n : Nat} {offs before after : List Nat}

theorem mem_frees : n ∈ frees page offs ↔ n ∈ offs ∧ (page.nodes n).allocated = false := by
  simp [frees]

theorem frees_append : frees page (before ++ after) = frees page before ++ frees page after :=
  List.filter_append ..

theorem frees_cons_free (free : (page.nodes n).allocated = false) :
    frees page (n :: offs) = n :: frees page offs := by
  simp [frees, free]

theorem frees_cons_allocated (allocated : (page.nodes n).allocated = true) :
    frees page (n :: offs) = frees page offs := by
  simp [frees, allocated]

theorem ne_of_mem_frees (early : n ∉ before) (late : n ∉ after) {y : Nat}
    (member : y ∈ frees page before ++ frees page after) : y ≠ n := by
  rintro rfl
  rcases List.mem_append.mp member with here | there
  · exact early (mem_frees.mp here).1
  · exact late (mem_frees.mp there).1

theorem frees_congr (same : ∀ n ∈ offs, (page'.nodes n).allocated = (page.nodes n).allocated) :
    frees page' offs = frees page offs :=
  List.filter_congr fun n member => by rw [same n member]

theorem unmerged_congr (same : ∀ n ∈ offs, (page'.nodes n).allocated = (page.nodes n).allocated)
    (chain : offs.IsChain (Unmerged page)) : offs.IsChain (Unmerged page') :=
  chain.imp_of_mem_imp fun n m here there unmerged => by
    rw [Unmerged, same n here, same m there]
    exact unmerged

theorem chain_around {R : Nat → Nat → Prop} : (before ++ n :: after).IsChain R ↔
    before.IsChain R ∧ after.IsChain R ∧ (∀ y ∈ before.getLast?, R y n) ∧
      ∀ y ∈ after.head?, R n y := by
  rw [List.isChain_append, List.isChain_cons]
  constructor
  · rintro ⟨early, ⟨right, late⟩, left⟩
    exact ⟨early, late, fun y last => left y last n rfl, right⟩
  · rintro ⟨early, late, left, right⟩
    refine ⟨early, ⟨right, late⟩, fun y last m is => ?_⟩
    obtain rfl := Option.some.inj is
    exact left y last

variable {ahead behind next newNext newPrev newRow : Option Nat}

/-- The list of free nodes, where it is changed between two parts of it. -/
theorem relinked_available (is : ∀ y ∈ frees page before ++ frees page after, page'.nodes y =
      GeneralPoolPage.relinked page (frees page before).getLast? (frees page after).head? next
        newNext newPrev newRow y) :
    (∀ y ∈ (frees page before).getLast?, (page'.nodes y).availableNext = newNext) ∧
      (∀ y ∈ (frees page after).head?, (page'.nodes y).availablePrev = newPrev) ∧
      (∀ y ∈ frees page before ++ frees page after, y ∉ (frees page before).getLast? →
        (page'.nodes y).availableNext = (page.nodes y).availableNext) ∧
      ∀ y ∈ frees page before ++ frees page after, y ∉ (frees page after).head? →
        (page'.nodes y).availablePrev = (page.nodes y).availablePrev := by
  refine ⟨fun y last => ?_, fun y first => ?_, fun y member inner => ?_, fun y member inner => ?_⟩
  · rw [is y (List.mem_append_left _ (List.mem_of_mem_getLast? last))]
    exact if_pos last
  · rw [is y (List.mem_append_right _ (List.mem_of_mem_head? first))]
    exact if_pos first
  · rw [is y member]
    exact if_neg inner
  · rw [is y member]
    exact if_neg inner

theorem relinked_row (is : ∀ y ∈ before ++ after, page'.nodes y =
      GeneralPoolPage.relinked page ahead behind after.head? newNext newPrev newRow y) :
    (∀ y ∈ after.head?, (page'.nodes y).prev = newRow) ∧
      (∀ y ∈ before ++ after, (page'.nodes y).next = (page.nodes y).next) ∧
      ∀ y ∈ before ++ after, y ∉ after.head? → (page'.nodes y).prev = (page.nodes y).prev := by
  refine ⟨fun y first => ?_, fun y member => ?_, fun y member inner => ?_⟩
  · rw [is y (List.mem_append_right _ (List.mem_of_mem_head? first))]
    exact if_pos first
  · rw [is y member]
    rfl
  · rw [is y member]
    exact if_neg inner

end Frees

/-! ## Handing out a node -/

section Alloc

variable {page page' : GeneralPoolPage} {node n p size : Nat} {offs before after : List Nat}

/-- A node of the page that is handed out. -/
def Held (page : GeneralPoolPage) (offs : List Nat) (n : Nat) : Prop :=
  n ∈ offs ∧ (page.nodes n).allocated = true

/-- The page has one more node handed out, of at least the size that was asked for. -/
structure Takes (page page' : GeneralPoolPage) (p : Nat) (offs : List Nat) (node size : Nat) :
    Prop where
  kept : ∃ offs', Kept page' p offs' ∧ (∀ n, Held page' offs' n ↔ n = node ∨ Held page offs n)
  sizes : ∀ n, Held page offs n → (page'.nodes n).size = (page.nodes n).size
  fresh : ¬Held page offs node
  enough : size ≤ (page'.nodes node).size
  prev : page'.prev = page.prev
  next : page'.next = page.next
  miss : page'.miss = page.miss

namespace Kept

theorem nodup (kept : Kept page p (before ++ node :: after)) :
    node ∉ before ∧ node ∉ after ∧ ∀ n ∈ before, n ∉ after :=
  Tiles.split kept.tiles

theorem at_free (kept : Kept page p (before ++ node :: after))
    (free : (page.nodes node).allocated = false) :
    (page.nodes node).availablePrev = (frees page before).getLast? ∧
      (page.nodes node).availableNext = (frees page after).head? := by
  have available := kept.available
  rw [frees_append, frees_cons_free free] at available
  exact available.at_cell

theorem at_node (kept : Kept page p (before ++ node :: after)) :
    (page.nodes node).prev = before.getLast? ∧ (page.nodes node).next = after.head? :=
  kept.threaded.at_cell

theorem ahead_free (kept : Kept page p (before ++ node :: after))
    (free : (page.nodes node).allocated = false) (n : Nat)
    (ahead : (page.nodes node).availablePrev = some n) : (page.nodes n).allocated = false := by
  rw [(kept.at_free free).1] at ahead
  exact (mem_frees.mp (List.mem_of_mem_getLast? ahead)).2

theorem behind_free (kept : Kept page p (before ++ node :: after))
    (free : (page.nodes node).allocated = false) (n : Nat)
    (behind : (page.nodes node).availableNext = some n) : (page.nodes n).allocated = false := by
  rw [(kept.at_free free).2] at behind
  exact (mem_frees.mp (List.mem_of_mem_head? behind)).2

/-- A node that is not allocated points to other nodes of the page. -/
theorem points (kept : Kept page p (before ++ node :: after))
    (free : (page.nodes node).allocated = false) {m : Nat} (points :
      (page.nodes node).availablePrev = some m ∨ (page.nodes node).availableNext = some m ∨
      (page.nodes node).next = some m) : m ∈ before ++ node :: after ∧ m ≠ node := by
  obtain ⟨early, late, -⟩ := kept.nodup
  rw [(kept.at_free free).1, (kept.at_free free).2, kept.at_node.2] at points
  rcases points with ahead | behind | next
  · have member := (mem_frees.mp (List.mem_of_mem_getLast? ahead)).1
    exact ⟨List.mem_append_left _ member, fun same => early (same ▸ member)⟩
  · have member := (mem_frees.mp (List.mem_of_mem_head? behind)).1
    exact ⟨List.mem_append_right _ (List.mem_cons_of_mem _ member),
      fun same => late (same ▸ member)⟩
  · have member := List.mem_of_mem_head? next
    exact ⟨List.mem_append_right _ (List.mem_cons_of_mem _ member),
      fun same => late (same ▸ member)⟩

theorem around_free (kept : Kept page p (before ++ node :: after))
    (free : (page.nodes node).allocated = false) :
    Threaded (fun n => (page.nodes n).availableNext) (fun n => (page.nodes n).availablePrev) none
        (frees page before ++ node :: frees page after) none ∧
      (frees page before ++ node :: frees page after).Nodup := by
  have split : frees page (before ++ node :: after) =
      frees page before ++ node :: frees page after := by
    rw [frees_append, frees_cons_free free]
  rw [← split]
  exact ⟨kept.available, (Tiles.nodup kept.tiles).filter _⟩

theorem frees_other (kept : Kept page p (before ++ node :: after)) {y : Nat}
    (member : y ∈ frees page before ++ frees page after) : y ≠ node := by
  obtain ⟨early, late, -⟩ := kept.nodup
  exact ne_of_mem_frees early late member

theorem allocated_apart (kept : Kept page p (before ++ node :: after))
    (free : (page.nodes node).allocated = false) (allocated : (page.nodes n).allocated = true) :
    (page.nodes node).availablePrev ≠ some n ∧ (page.nodes node).availableNext ≠ some n := by
  constructor
  · intro is
    rw [kept.ahead_free free n is] at allocated
    contradiction
  · intro is
    rw [kept.behind_free free n is] at allocated
    contradiction

theorem removeAvailableList (kept : Kept page p (before ++ node :: after))
    (free : (page.nodes node).allocated = false) (enough : size ≤ (page.nodes node).size) :
    Takes page (page.removeAvailableList node) p (before ++ node :: after) node size := by
  obtain ⟨early, late, -⟩ := kept.nodup
  obtain ⟨ahead, behind⟩ := kept.at_free free
  have form := fun y => GeneralPoolPage.nodes_removeAvailableList (y := y)
    (fun is => (kept.points free (.inl is)).2 rfl)
    (fun is => (kept.points free (.inr (.inl is))).2 rfl)
  obtain ⟨root, prev, next, miss⟩ := GeneralPoolPage.ends_removeAvailableList page node
  obtain ⟨available, nodup⟩ := kept.around_free free
  generalize page.removeAvailableList node = page' at *
  have atNode := (form node).trans (if_pos rfl)
  have elsewhere (y : Nat) (other : y ≠ node) := (form y).trans (if_neg other)
  have allocatedElse (y : Nat) (other : y ≠ node) :
      (page'.nodes y).allocated = (page.nodes y).allocated := by rw [elsewhere y other]; rfl
  have freed : frees page' (before ++ node :: after) = frees page before ++ frees page after := by
    rw [frees_append, frees_cons_allocated (by rw [atNode])]
    congr 1 <;> refine frees_congr fun y member => allocatedElse y ?_
    · exact fun same => early (same ▸ member)
    · exact fun same => late (same ▸ member)
  refine ⟨⟨before ++ node :: after, ⟨?_, kept.first, ?_, ?_, ?_, ?_, ?_, ?_⟩, ?_⟩, ?_, ?_, ?_,
    prev, next, miss⟩
  · refine kept.threaded.congr (fun y _ => ?_) fun y _ => ?_ <;> rw [form] <;> split <;>
      subst_vars <;> rfl
  · refine Tiles.congr kept.tiles fun y _ => ?_
    rw [form]
    split <;> subst_vars <;> rfl
  · rw [freed]
    obtain ⟨last, first, nexts, prevs⟩ := relinked_available fun y member => by
      rw [elsewhere y (kept.frees_other member), ← ahead, ← behind]
    exact available.unlink nodup (fun y is => (last y is).trans behind)
      (fun y is => (first y is).trans ahead) nexts prevs
  · rw [freed, root, ahead, behind, kept.root, frees_append, frees_cons_free free]
    cases frees page before <;> simp
  · intro n member allocated
    by_cases same : n = node
    · rw [same, atNode]
      exact ⟨rfl, rfl⟩
    · rw [allocatedElse n same] at allocated
      have ⟨apart, apart'⟩ := kept.allocated_apart free allocated
      rw [elsewhere n same]
      have unlinked := kept.unlinked n member allocated
      exact ⟨(if_neg apart').trans unlinked.1, (if_neg apart).trans unlinked.2⟩
  · refine kept.merged.imp fun n m unmerged => ?_
    have stays (y : Nat) (allocated : (page.nodes y).allocated = true) :
        (page'.nodes y).allocated = true := by
      rw [form]
      split
      · rfl
      · exact allocated
    exact unmerged.imp (stays n) (stays m)
  · intro n member
    rw [form]
    split
    · subst_vars
      exact kept.owner _ member
    · exact kept.owner n member
  · intro n
    rw [Held, Held, form]
    by_cases same : n = node <;> simp [same, GeneralPoolPage.relinked]
  · intro n held
    rw [form]
    split
    · subst_vars; rfl
    · rfl
  · exact fun held => absurd held.2 (by rw [free]; decide)
  · rw [atNode]
    exact enough

theorem splitAllocNode (kept : Kept page p (before ++ node :: after))
    (free : (page.nodes node).allocated = false)
    (enough : size + nodeSize + minAllocSize ≤ (page.nodes node).size) :
    Takes page (page.splitAllocNode node size) p (before ++ node :: after) node size := by
  obtain ⟨early, late, -⟩ := kept.nodup
  obtain ⟨ahead, behind⟩ := kept.at_free free
  have next := kept.at_node.2
  have different : getMemory node + size ≠ node := by
    have positive := nodeSize_pos
    rw [getMemory]
    omega
  have fresh : getMemory node + size ∉ before ++ node :: after := by
    intro member
    have here : node ∈ before ++ node :: after := by simp
    have positive := nodeSize_pos
    rcases Tiles.apart kept.tiles here member different.symm with below | above
    · omega
    · simp only [getMemory] at above
      omega
  have form := fun y => GeneralPoolPage.nodes_splitAllocNode (y := y)
    (fun is => (kept.points free (.inl is)).2 rfl)
    (fun is => (kept.points free (.inr (.inl is))).2 rfl)
    (fun is => (kept.points free (.inr (.inr is))).2 rfl)
    (fun is => fresh (kept.points free (.inl is)).1)
    (fun is => fresh (kept.points free (.inr (.inl is))).1)
    (fun is => fresh (kept.points free (.inr (.inr is))).1) different
  obtain ⟨root, samePrev, sameNext, miss⟩ := GeneralPoolPage.ends_splitAllocNode different
  have memory : getMemory node + size = node + nodeSize + size := rfl
  obtain ⟨available, nodup⟩ := kept.around_free free
  generalize page.splitAllocNode node size = page' at *
  generalize getMemory node + size = new at *
  have notEarly : new ∉ before := fun member => fresh (List.mem_append_left _ member)
  have notLate : new ∉ after := fun member =>
    fresh (List.mem_append_right _ (List.mem_cons_of_mem _ member))
  have atNew := (form new).trans (if_pos rfl)
  have atNode := (form node).trans ((if_neg different.symm).trans (if_pos rfl))
  have elsewhere (y : Nat) (other : y ≠ node) (other' : y ≠ new) :=
    (form y).trans ((if_neg other').trans (if_neg other))
  have inRow (y : Nat) (member : y ∈ before ++ after) : y ≠ node ∧ y ≠ new := by
    constructor <;> rintro rfl
    · exact (List.mem_append.mp member).elim early late
    · exact (List.mem_append.mp member).elim notEarly notLate
  have inFrees (y : Nat) (member : y ∈ frees page before ++ frees page after) :
      y ≠ node ∧ y ≠ new := by
    refine inRow y ?_
    rw [← frees_append] at member
    exact (mem_frees.mp member).1
  have allocatedElse (y : Nat) (member : y ∈ before ++ after) :
      (page'.nodes y).allocated = (page.nodes y).allocated := by
    have ⟨other, other'⟩ := inRow y member
    rw [elsewhere y other other']
    rfl
  have freed : frees page' (before ++ node :: new :: after) =
      frees page before ++ new :: frees page after := by
    rw [frees_append, frees_cons_allocated (by rw [atNode]), frees_cons_free (by rw [atNew])]
    congr 1
    · exact frees_congr fun y member => allocatedElse y (List.mem_append_left _ member)
    · exact congrArg _ (frees_congr fun y member => allocatedElse y (List.mem_append_right _ member))
  have nodup' : (frees page before ++ new :: frees page after).Nodup := by
    rw [List.nodup_middle] at nodup ⊢
    exact List.nodup_cons.mpr ⟨fun member => (inFrees new member).2 rfl, nodup.of_cons⟩
  have rowNodup : (before ++ [node] ++ new :: after).Nodup := by
    have row := Tiles.nodup kept.tiles
    rw [List.append_cons] at row fresh
    exact List.nodup_middle.mpr (List.nodup_cons.mpr ⟨fresh, row⟩)
  refine ⟨⟨before ++ node :: new :: after, ⟨?_, ?_, ?_, ?_, ?_, ?_, ?_, ?_⟩, ?_⟩, ?_, ?_, ?_,
    samePrev, sameNext, miss⟩
  · have row := kept.threaded
    rw [List.append_cons] at row ⊢
    obtain ⟨first, nexts, prevs⟩ := relinked_row fun (y : Nat) member => by
      have ⟨other, other'⟩ := inRow y member
      rw [elsewhere y other other', next]
    refine row.link rowNodup ?_ ?_ (fun y last => ?_) first (fun y member inner => ?_)
      fun y member inner => ?_
    · rw [atNew, List.getLast?_concat]
    · rw [atNew, ← next]
    · obtain rfl : node = y := by simpa using last
      rw [atNode]
    · refine nexts y (by simp at member inner ⊢; grind)
    · by_cases same : y = node
      · rw [same, atNode]
      · exact prevs y (by simp at member ⊢; grind) inner
  · have first := kept.first
    cases before <;> exact first
  · refine Tiles.replace [node] [node, new] kept.tiles (fun y member => ?_) ?_
    · have ⟨other, other'⟩ := inRow y member
      rw [elsewhere y other other']
      rfl
    · rintro s e ⟨rfl, rfl⟩
      refine ⟨rfl, ?_, ?_⟩
      · rw [atNode]
        exact memory
      · rw [Tiles, atNew]
        simp only [getMemory] at memory ⊢
        omega
  · rw [freed]
    obtain ⟨last, first, nexts, prevs⟩ := relinked_available fun y member => by
      have ⟨other, other'⟩ := inFrees y member
      rw [elsewhere y other other', ahead, behind]
    refine available.replace nodup' ?_ ?_ last first nexts prevs
    · rw [atNew, ← ahead]
    · rw [atNew, ← behind]
  · rw [freed, root, ahead, kept.root, frees_append, frees_cons_free free]
    cases frees page before <;> simp
  · intro n member allocated
    by_cases isNode : n = node
    · rw [isNode, atNode]
      exact ⟨rfl, rfl⟩
    · by_cases isNew : n = new
      · rw [isNew, atNew] at allocated
        contradiction
      · have member : n ∈ before ++ node :: after := by simp at member ⊢; grind
        rw [elsewhere n isNode isNew] at allocated ⊢
        have ⟨apart, apart'⟩ := kept.allocated_apart free allocated
        have unlinked := kept.unlinked n member allocated
        exact ⟨(if_neg apart').trans unlinked.1, (if_neg apart).trans unlinked.2⟩
  · obtain ⟨early, late, left, right⟩ := chain_around.mp kept.merged
    refine chain_around.mpr ⟨unmerged_congr (fun y member => ?_) early,
      List.isChain_cons.mpr ⟨fun y first => ?_, unmerged_congr (fun y member => ?_) late⟩,
      fun y last => ?_, fun y first => ?_⟩
    · exact allocatedElse y (List.mem_append_left _ member)
    · refine .inr ?_
      rw [allocatedElse y (List.mem_append_right _ (List.mem_of_mem_head? first))]
      exact (right y first).resolve_left (by rw [free]; decide)
    · exact allocatedElse y (List.mem_append_right _ member)
    · exact .inr (by rw [atNode])
    · exact .inl (by rw [atNode])
  · intro n member
    by_cases isNew : n = new
    · rw [isNew, atNew]
      exact kept.owner node (by simp)
    · by_cases isNode : n = node
      · rw [isNode, atNode]
        exact kept.owner node (by simp)
      · rw [elsewhere n isNode isNew]
        exact kept.owner n (by simp at member ⊢; grind)
  · intro n
    by_cases isNew : n = new
    · rw [Held, Held, isNew, atNew]
      exact iff_of_false (fun held => Bool.false_ne_true held.2)
        fun either => either.elim different fun held => fresh held.1
    · by_cases isNode : n = node
      · rw [Held, isNode, atNode]
        simp
      · rw [Held, Held, elsewhere n isNode isNew]
        simp [isNode, isNew, GeneralPoolPage.relinked]
  · intro n held
    have isNode : n ≠ node := fun same => by
      rw [same, Held, free] at held
      exact Bool.false_ne_true held.2
    have isNew : n ≠ new := fun same => fresh (same ▸ held.1)
    rw [elsewhere n isNode isNew]
    rfl
  · exact fun held => absurd held.2 (by rw [free]; decide)
  · rw [atNode]

end Kept

end Alloc

/-! ## Taking a node back -/

section Free

variable {page page' : GeneralPoolPage} {node n p : Nat} {offs before after : List Nat}

/-- A node is marked as free, but not yet in the list of free nodes nor merged. -/
structure Freed (page : GeneralPoolPage) (p : Nat) (before : List Nat) (node : Nat)
    (after : List Nat) : Prop where
  threaded : Threaded (fun n => (page.nodes n).next) (fun n => (page.nodes n).prev) none
    (before ++ node :: after) none
  first : (before ++ node :: after).head? = some firstNode
  tiles : Tiles page.nodes firstNode (before ++ node :: after) defaultPageSize
  free : (page.nodes node).allocated = false
  available : Threaded (fun n => (page.nodes n).availableNext)
    (fun n => (page.nodes n).availablePrev) none (frees page before ++ frees page after) none
  root : page.available = (frees page before ++ frees page after).head?
  alone : (page.nodes node).availablePrev = none ∧ (page.nodes node).availableNext = none
  unlinked : ∀ n ∈ before ++ after, (page.nodes n).allocated = true →
    (page.nodes n).availablePrev = none ∧ (page.nodes n).availableNext = none
  early : before.IsChain (Unmerged page)
  late : after.IsChain (Unmerged page)
  owner : ∀ n ∈ before ++ node :: after, (page.nodes n).owner = some p

/-- The nodes handed out are the others. -/
structure Gives (page page' : GeneralPoolPage) (p : Nat) (others : List Nat) : Prop where
  kept : ∃ offs', Kept page' p offs' ∧
    ∀ n, Held page' offs' n ↔ n ∈ others ∧ (page.nodes n).allocated = true
  sizes : ∀ n ∈ others, (page.nodes n).allocated = true →
    (page'.nodes n).size = (page.nodes n).size
  prev : page'.prev = page.prev
  next : page'.next = page.next
  miss : page'.miss = page.miss

namespace Freed

theorem nodup (freed : Freed page p before node after) :
    node ∉ before ∧ node ∉ after ∧ ∀ n ∈ before, n ∉ after :=
  Tiles.split freed.tiles

theorem at_node (freed : Freed page p before node after) :
    (page.nodes node).prev = before.getLast? ∧ (page.nodes node).next = after.head? :=
  freed.threaded.at_cell

/-- The loop finds the last free node before. -/
theorem freeBefore (row : Threaded (fun n => (page.nodes n).next) (fun n => (page.nodes n).prev) none
    before (some node)) {fuel : Nat} (enough : before.length ≤ fuel) :
    page.freeBefore fuel before.getLast? = some (frees page before).getLast? := by
  induction before using List.reverseRecOn generalizing node fuel with
  | nil => cases fuel <;> rfl
  | append_singleton before m ih =>
      obtain ⟨left, prev, -⟩ := Threaded.append_iff.mp row
      have prev : (page.nodes m).prev = before.getLast? := prev.trans Option.or_none
      rw [List.length_append, List.length_singleton] at enough
      cases fuel with
      | zero => omega
      | succ fuel =>
          rw [List.getLast?_concat, GeneralPoolPage.freeBefore, frees_append]
          split
          · rename_i allocated
            rw [prev, frees_cons_allocated allocated, ih left (by omega)]
            simp [frees]
          · rename_i free
            rw [frees_cons_free (Bool.not_eq_true _ ▸ free)]
            simp [frees]

theorem freeMergeNone (freed : Freed page p before node after)
    (left : ∀ y ∈ before.getLast?, (page.nodes y).allocated = true)
    (right : ∀ y ∈ after.head?, (page.nodes y).allocated = true) :
    ∃ page', page.freeMergeNone node = some page' ∧ Gives page page' p (before ++ after) := by
  obtain ⟨early, late, apart⟩ := freed.nodup
  have search : page.freeBefore defaultPageSize (page.nodes node).prev =
      some (frees page before).getLast? := by
    have size := (Tiles.within freed.tiles).1
    rw [List.length_append] at size
    rw [freed.at_node.1]
    exact freeBefore (Threaded.append_iff.mp freed.threaded).1 (by omega)
  have inFrees (y : Nat) (member : y ∈ frees page before ++ frees page after) : y ≠ node :=
    ne_of_mem_frees early late member
  have ahead_ne : (frees page before).getLast? ≠ some node := fun last =>
    inFrees node (List.mem_append_left _ (List.mem_of_mem_getLast? last)) rfl
  have behind_ne : (frees page after).head? ≠ some node := fun first =>
    inFrees node (List.mem_append_right _ (List.mem_of_mem_head? first)) rfl
  have empty (is : (frees page before).getLast? = none) :
      page.available = (frees page after).head? := by
    rw [freed.root, List.getLast?_eq_none_iff.mp is, List.nil_append]
  have linked (b : Nat) (is : (frees page before).getLast? = some b) :
      page.available ≠ none ∧ (page.nodes b).availableNext = (frees page after).head? := by
    have listed := (Threaded.append_iff.mp freed.available).1.after is
    rw [Option.or_none] at listed
    refine ⟨fun none => ?_, listed⟩
    rw [freed.root, List.head?_eq_none_iff, List.append_eq_nil_iff] at none
    rw [none.1] at is
    contradiction
  have unshared (b : Nat) (is : (frees page before).getLast? = some b) :
      (frees page after).head? ≠ some b := fun first =>
    apart b (mem_frees.mp (List.mem_of_mem_getLast? is)).1
      (mem_frees.mp (List.mem_of_mem_head? first)).1
  obtain ⟨page', merges, root, samePrev, sameNext, miss, form⟩ :=
    GeneralPoolPage.freeMergeNone_eq search empty linked freed.alone.1 freed.alone.2 ahead_ne
      behind_ne unshared
  have atNode := (form node).trans (if_pos rfl)
  have elsewhere (y : Nat) (other : y ≠ node) := (form y).trans (if_neg other)
  have allocated' (y : Nat) : (page'.nodes y).allocated = (page.nodes y).allocated := by
    rw [form]
    split <;> subst_vars <;> rfl
  have frees' : frees page' (before ++ node :: after) =
      frees page before ++ node :: frees page after := by
    rw [frees_congr fun y _ => allocated' y, frees_append, frees_cons_free freed.free]
  refine ⟨page', merges, ⟨before ++ node :: after, ⟨?_, freed.first, ?_, ?_, ?_, ?_, ?_, ?_⟩, ?_⟩,
    ?_, samePrev, sameNext, miss⟩
  · refine freed.threaded.congr (fun y _ => ?_) fun y _ => ?_ <;> rw [form] <;> split <;>
      subst_vars <;> rfl
  · refine Tiles.congr freed.tiles fun y _ => ?_
    rw [form]
    split <;> subst_vars <;> rfl
  · rw [frees']
    obtain ⟨last, first, nexts, prevs⟩ := relinked_available fun y member =>
      elsewhere y (inFrees y member)
    refine freed.available.link ?_ ?_ ?_ last first nexts prevs
    · have row := (Tiles.nodup freed.tiles).filter fun n => !(page.nodes n).allocated
      rwa [← frees, frees_append, frees_cons_free freed.free] at row
    · rw [atNode]
    · rw [atNode]
  · rw [frees', root, freed.root]
    cases frees page before <;> simp
  · intro n member allocated
    rw [allocated'] at allocated
    have other : n ≠ node := by
      rintro rfl
      rw [freed.free] at allocated
      contradiction
    have unlinked := freed.unlinked n (by simp at member ⊢; grind) allocated
    rw [elsewhere n other]
    refine ⟨(if_neg fun is => ?_).trans unlinked.1, (if_neg fun is => ?_).trans unlinked.2⟩
    · rw [(mem_frees.mp (List.mem_of_mem_head? is)).2] at allocated
      contradiction
    · rw [(mem_frees.mp (List.mem_of_mem_getLast? is)).2] at allocated
      contradiction
  · refine unmerged_congr (fun y _ => allocated' y) (chain_around.mpr
      ⟨freed.early, freed.late, fun y last => .inl (left y last), fun y first => .inr (right y first)⟩)
  · intro n member
    rw [form]
    split
    · subst_vars
      exact freed.owner _ member
    · exact freed.owner n member
  · intro n
    rw [Held, allocated']
    by_cases same : n = node
    · simp [same, freed.free]
    · simp [same]
  · intro n _ _
    rw [form]
    split <;> subst_vars <;> rfl

theorem freeMergePrev {b : Nat} (freed : Freed page p (before ++ [b]) node after)
    (left : (page.nodes b).allocated = false)
    (right : ∀ y ∈ after.head?, (page.nodes y).allocated = true) :
    Gives page (page.freeMergePrev node b) p (before ++ [b] ++ after) := by
  obtain ⟨early, late, apart⟩ := freed.nodup
  have next := freed.at_node.2
  have other : node ≠ b := fun same => early (by simp [same])
  have form := fun y => GeneralPoolPage.nodes_freeMergePrev (y := y) other
    (by
      rw [next]
      exact fun first => apart b (by simp) (List.mem_of_mem_head? first))
    (by
      rw [next]
      exact fun first => late (List.mem_of_mem_head? first))
  obtain ⟨root, samePrev, sameNext, miss⟩ :=
    GeneralPoolPage.ends_freeMergePrev page node b
  generalize page.freeMergePrev node b = page' at *
  have atB := (form b).trans (if_pos rfl)
  have elsewhere (y : Nat) (other : y ≠ b) := (form y).trans (if_neg other)
  have allocated' (y : Nat) : (page'.nodes y).allocated = (page.nodes y).allocated := by
    rw [form]
    split <;> subst_vars <;> rfl
  have frees' : frees page' (before ++ b :: after) =
      frees page (before ++ [b]) ++ frees page after := by
    rw [frees_congr fun y _ => allocated' y, List.append_cons, frees_append]
  have row := Tiles.nodup freed.tiles
  have inRow (y : Nat) (member : y ∈ before ++ after) : y ≠ b := by
    rintro rfl
    rcases List.mem_append.mp member with here | there
    · exact (List.nodup_append.mp (List.nodup_append.mp row).1).2.2 y here y (by simp) rfl
    · exact apart y (by simp) there
  refine ⟨⟨before ++ b :: after, ⟨?_, ?_, ?_, ?_, ?_, ?_, ?_, ?_⟩, ?_⟩, ?_, samePrev, sameNext,
    miss⟩
  · obtain ⟨first, nexts, prevs⟩ := relinked_row fun y member =>
      (elsewhere y (inRow y member)).trans (by rw [next])
    rw [List.append_cons]
    refine freed.threaded.unlink row (fun y last => ?_) (fun y is => ?_) (fun y member inner => ?_)
      fun y member inner => ?_
    · obtain rfl : b = y := by simpa using last
      rw [atB, next]
    · rw [first y is, List.getLast?_concat]
    · exact nexts y (by simp at member inner ⊢; grind)
    · by_cases same : y = b
      · rw [same, atB]
      · exact prevs y (by simp at member ⊢; grind) inner
  · have first := freed.first
    cases before <;> exact first
  · have tiles := freed.tiles
    rw [List.append_assoc] at tiles
    refine Tiles.replace [b, node] [b] tiles (fun y member => ?_) ?_
    · rw [elsewhere y (inRow y member)]
      rfl
    · rintro s e ⟨rfl, ends, rfl⟩
      refine ⟨rfl, ?_⟩
      rw [Tiles, atB]
      simp only [getMemory] at ends ⊢
      omega
  · rw [frees']
    refine freed.available.congr (fun y _ => ?_) fun y _ => ?_ <;> rw [form] <;> split <;>
      subst_vars <;> rfl
  · rw [frees', root, freed.root]
  · intro n member allocated
    rw [allocated'] at allocated
    have unlinked := freed.unlinked n (by simp at member ⊢; grind) allocated
    rw [form]
    split <;> subst_vars <;> exact unlinked
  · refine unmerged_congr (fun y _ => allocated' y) ?_
    obtain ⟨early, -, chain, -⟩ := chain_around.mp freed.early
    exact chain_around.mpr ⟨early, freed.late, chain, fun y first => .inr (right y first)⟩
  · intro n member
    have owner := freed.owner n (by simp at member ⊢; grind)
    rw [form]
    split <;> subst_vars <;> exact owner
  · intro n
    rw [Held, allocated']
    simp
  · intro n _ allocated
    rw [form]
    split
    · subst_vars
      rw [left] at allocated
      contradiction
    · rfl

theorem freeMergeNext {a : Nat} (freed : Freed page p before node (a :: after))
    (right : (page.nodes a).allocated = false)
    (left : ∀ y ∈ before.getLast?, (page.nodes y).allocated = true) :
    Gives page (page.freeMergeNext node a) p (before ++ a :: after) := by
  obtain ⟨early, late, apart⟩ := freed.nodup
  have row := Tiles.nodup freed.tiles
  have other : node ≠ a := fun same => late (by simp [same])
  have aEarly : a ∉ before := fun here => apart a here (by simp)
  have aLate : a ∉ after := by
    have tail := (List.nodup_append.mp row).2.1.of_cons
    exact (List.nodup_cons.mp tail).1
  have available := freed.available
  rw [frees_cons_free right] at available
  obtain ⟨ahead, behind⟩ := available.at_cell
  have next : (page.nodes a).next = after.head? := by
    have threaded := freed.threaded
    rw [List.append_cons] at threaded
    exact threaded.at_cell.2
  have inRow (y : Nat) (member : y ∈ before ++ after) : y ≠ node ∧ y ≠ a := by
    constructor <;> rintro rfl
    · exact (List.mem_append.mp member).elim early fun there => late (List.mem_cons_of_mem _ there)
    · exact (List.mem_append.mp member).elim aEarly aLate
  have inFrees (y : Nat) (member : y ∈ frees page before ++ frees page after) :
      y ≠ node ∧ y ≠ a := by
    rw [← frees_append] at member
    exact inRow y (mem_frees.mp member).1
  have isAhead (y : Nat) (is : (page.nodes a).availablePrev = some y) : y ≠ node ∧ y ≠ a :=
    inFrees y (List.mem_append_left _ (List.mem_of_mem_getLast? (ahead.symm.trans is)))
  have isBehind (y : Nat) (is : (page.nodes a).availableNext = some y) : y ≠ node ∧ y ≠ a :=
    inFrees y (List.mem_append_right _ (List.mem_of_mem_head? (behind.symm.trans is)))
  have isNext (y : Nat) (is : (page.nodes a).next = some y) : y ≠ node ∧ y ≠ a :=
    inRow y (List.mem_append_right _ (List.mem_of_mem_head? (next.symm.trans is)))
  have form := fun y => GeneralPoolPage.nodes_freeMergeNext (y := y) other freed.alone.1
    freed.alone.2 (fun is => (isBehind _ is).1 rfl) (fun is => (isBehind _ is).2 rfl)
    (fun is => (isAhead _ is).1 rfl) (fun is => (isAhead _ is).2 rfl)
    (fun is => (isNext _ is).1 rfl) (fun is => (isNext _ is).2 rfl)
  obtain ⟨root, samePrev, sameNext, miss⟩ := GeneralPoolPage.ends_freeMergeNext other
    (fun is => (isBehind _ is).2 rfl)
  generalize page.freeMergeNext node a = page' at *
  have atNode := (form node).trans (if_pos rfl)
  have elsewhere (y : Nat) (other : y ≠ node) := (form y).trans (if_neg other)
  have allocated' (y : Nat) : (page'.nodes y).allocated = (page.nodes y).allocated := by
    rw [form]
    split <;> subst_vars <;> rfl
  have frees' : frees page' (before ++ node :: after) =
      frees page before ++ node :: frees page after := by
    rw [frees_congr fun y _ => allocated' y, frees_append, frees_cons_free freed.free]
  refine ⟨⟨before ++ node :: after, ⟨?_, ?_, ?_, ?_, ?_, ?_, ?_, ?_⟩, ?_⟩, ?_, samePrev, sameNext,
    miss⟩
  · obtain ⟨first, nexts, prevs⟩ := relinked_row fun y member =>
      (elsewhere y (inRow y member).1).trans (by rw [next])
    have threaded := freed.threaded
    rw [List.append_cons] at threaded row ⊢
    refine threaded.unlink row (fun y last => ?_) (fun y is => ?_) (fun y member inner => ?_)
      fun y member inner => ?_
    · obtain rfl : node = y := by simpa using last
      rw [atNode, next]
    · rw [first y is, List.getLast?_concat]
    · exact nexts y (by simp at member inner ⊢; grind)
    · by_cases same : y = node
      · rw [same, atNode]
      · exact prevs y (by simp at member ⊢; grind) inner
  · have first := freed.first
    cases before <;> exact first
  · refine Tiles.replace [node, a] [node] freed.tiles (fun y member => ?_) ?_
    · rw [elsewhere y (inRow y member).1]
      rfl
    · rintro s e ⟨rfl, ends, rfl⟩
      refine ⟨rfl, ?_⟩
      rw [Tiles, atNode]
      simp only [getMemory] at ends ⊢
      omega
  · rw [frees']
    obtain ⟨last, first, nexts, prevs⟩ := relinked_available fun y member =>
      (elsewhere y (inFrees y member).1).trans (by rw [ahead, behind])
    refine available.replace ?_ ?_ ?_ last first nexts prevs
    · rw [← frees_cons_free freed.free, ← frees_append]
      refine List.Nodup.filter _ (row.sublist ?_)
      simp
    · rw [atNode, ← ahead]
    · rw [atNode, ← behind]
  · rw [frees', root, freed.root, ahead, frees_cons_free right]
    cases frees page before <;> simp
  · intro n member allocated
    rw [allocated'] at allocated
    have other : n ≠ node := by
      rintro rfl
      rw [freed.free] at allocated
      contradiction
    have unlinked := freed.unlinked n (by simp at member ⊢; grind) allocated
    rw [elsewhere n other]
    refine ⟨(if_neg fun is => ?_).trans unlinked.1, (if_neg fun is => ?_).trans unlinked.2⟩
    · rw [(mem_frees.mp (List.mem_of_mem_head? (behind.symm.trans is))).2] at allocated
      contradiction
    · rw [(mem_frees.mp (List.mem_of_mem_getLast? (ahead.symm.trans is))).2] at allocated
      contradiction
  · refine unmerged_congr (fun y _ => allocated' y) (chain_around.mpr
      ⟨freed.early, ?_, fun y last => .inl (left y last), fun y first => .inr ?_⟩)
    · exact (List.isChain_cons.mp freed.late).2
    · exact ((List.isChain_cons.mp freed.late).1 y first).resolve_left (by rw [right]; decide)
  · intro n member
    have owner := freed.owner n (by simp at member ⊢; grind)
    rw [form]
    split <;> subst_vars <;> exact owner
  · intro n
    rw [Held, allocated']
    by_cases same : n = node
    · simp [same, freed.free]
    · by_cases same' : n = a
      · simp [same', right]
      · simp [same, same']
  · intro n _ allocated
    rw [form]
    split
    · subst_vars
      rw [freed.free] at allocated
      contradiction
    · rfl

theorem freeMergePrevAndNext {b a : Nat} (freed : Freed page p (before ++ [b]) node (a :: after))
    (left : (page.nodes b).allocated = false) (right : (page.nodes a).allocated = false) :
    Gives page (page.freeMergePrevAndNext node b a) p (before ++ [b] ++ a :: after) := by
  obtain ⟨early, late, apart⟩ := freed.nodup
  have row := Tiles.nodup freed.tiles
  have other : node ≠ b := fun same => early (by simp [same])
  have differ : b ≠ a := fun same => apart b (by simp) (by simp [same])
  have available := freed.available
  rw [frees_cons_free right] at available
  have behind := available.at_cell.2
  have threaded := freed.threaded
  rw [List.append_cons] at threaded
  have next : (page.nodes a).next = after.head? := threaded.at_cell.2
  have inRow (y : Nat) (member : y ∈ before ++ after) : y ≠ b ∧ y ≠ a := by
    have early := (List.nodup_append.mp (List.nodup_append.mp row).1).2.2
    have late := (List.nodup_cons.mp (List.nodup_append.mp row).2.1.of_cons).1
    constructor <;> rintro rfl <;> rcases List.mem_append.mp member with here | there
    · exact early y here y (by simp) rfl
    · exact apart y (by simp) (by simp [there])
    · exact apart y (by simp [here]) (by simp)
    · exact late there
  have isNext (y : Nat) (is : (page.nodes a).next = some y) : y ≠ b ∧ y ≠ a :=
    inRow y (List.mem_append_right _ (List.mem_of_mem_head? (next.symm.trans is)))
  have isBehind (y : Nat) (is : (page.nodes a).availableNext = some y) : y ≠ b ∧ y ≠ a := by
    have member := List.mem_of_mem_head? (behind.symm.trans is)
    exact inRow y (List.mem_append_right _ (mem_frees.mp member).1)
  have form := fun y => GeneralPoolPage.nodes_freeMergePrevAndNext (y := y) differ other
    (fun is => (isBehind _ is).1 rfl) (fun is => (isBehind _ is).2 rfl)
    (fun is => (isNext _ is).1 rfl) (fun is => (isNext _ is).2 rfl)
  obtain ⟨root, samePrev, sameNext, miss⟩ := GeneralPoolPage.ends_freeMergePrevAndNext
    page node b a
  generalize page.freeMergePrevAndNext node b a = page' at *
  have atB := (form b).trans (if_pos rfl)
  have elsewhere (y : Nat) (other : y ≠ b) := (form y).trans (if_neg other)
  have allocated' (y : Nat) : (page'.nodes y).allocated = (page.nodes y).allocated := by
    rw [form]
    split <;> subst_vars <;> rfl
  have freesB : frees page (before ++ [b]) = frees page before ++ [b] := by
    rw [frees_append, frees_cons_free left]
    rfl
  have frees' : frees page' (before ++ b :: after) =
      frees page before ++ [b] ++ frees page after := by
    rw [frees_congr fun y _ => allocated' y, List.append_cons, frees_append, freesB]
  refine ⟨⟨before ++ b :: after, ⟨?_, ?_, ?_, ?_, ?_, ?_, ?_, ?_⟩, ?_⟩, ?_, samePrev, sameNext,
    miss⟩
  · obtain ⟨first, nexts, prevs⟩ := relinked_row fun y member =>
      (elsewhere y (inRow y member).1).trans (by rw [next])
    obtain ⟨leftRow, -, -, rightRow⟩ := Threaded.append_iff.mp freed.threaded
    obtain ⟨-, -, rightRow⟩ := rightRow
    rw [List.append_cons]
    refine leftRow.join rightRow ?_ (fun y last => ?_) (fun y is => ?_) (fun y member inner => ?_)
      fun y member inner => ?_
    · refine row.sublist ?_
      simp
    · obtain rfl : b = y := by simpa using last
      rw [atB, next, Option.or_none]
    · rw [first y is, List.getLast?_concat]
      rfl
    · exact nexts y (by simp at member inner ⊢; grind)
    · by_cases same : y = b
      · rw [same, atB]
      · exact prevs y (by simp at member ⊢; grind) inner
  · have first := freed.first
    cases before <;> exact first
  · have tiles := freed.tiles
    rw [List.append_assoc] at tiles
    refine Tiles.replace [b, node, a] [b] tiles (fun y member => ?_) ?_
    · rw [elsewhere y (inRow y member).1]
      rfl
    · rintro s e ⟨rfl, ends, ends', rfl⟩
      refine ⟨rfl, ?_⟩
      rw [Tiles, atB]
      simp only [getMemory] at ends ends' ⊢
      omega
  · rw [frees']
    rw [freesB] at available
    have inFrees (y : Nat) (member : y ∈ frees page after) : y ≠ b :=
      (inRow y (List.mem_append_right _ (mem_frees.mp member).1)).1
    refine available.unlink ?_ (fun y last => ?_) (fun y first => ?_) (fun y member inner => ?_)
      fun y member inner => ?_
    · rw [← freesB, ← frees_cons_free right, ← frees_append]
      exact List.Nodup.filter _ (row.sublist (by simp))
    · obtain rfl : b = y := by simpa using last
      rw [atB, behind]
    · rw [elsewhere y (inFrees y (List.mem_of_mem_head? first)), List.getLast?_concat]
      exact if_pos (behind.trans first)
    · have other : y ≠ b := fun same => inner (by simp [same])
      rw [elsewhere y other]
      simp [GeneralPoolPage.relinked]
    · by_cases same : y = b
      · rw [same, atB]
      · rw [elsewhere y same]
        exact if_neg fun is => inner (behind.symm.trans is)
  · rw [frees', root, freed.root, freesB]
    cases frees page before <;> simp
  · intro n member allocated
    rw [allocated'] at allocated
    have other : n ≠ b := by
      rintro rfl
      rw [left] at allocated
      contradiction
    have unlinked := freed.unlinked n (by simp at member ⊢; grind) allocated
    rw [elsewhere n other]
    refine ⟨(if_neg fun is => ?_).trans unlinked.1, by simpa [GeneralPoolPage.relinked] using unlinked.2⟩
    rw [(mem_frees.mp (List.mem_of_mem_head? (behind.symm.trans is))).2] at allocated
    contradiction
  · obtain ⟨early, -, chain, -⟩ := chain_around.mp freed.early
    refine unmerged_congr (fun y _ => allocated' y) (chain_around.mpr
      ⟨early, (List.isChain_cons.mp freed.late).2, chain, fun y first => .inr ?_⟩)
    exact ((List.isChain_cons.mp freed.late).1 y first).resolve_left (by rw [right]; decide)
  · intro n member
    have owner := freed.owner n (by simp at member ⊢; grind)
    rw [form]
    split <;> subst_vars <;> exact owner
  · intro n
    rw [Held, allocated']
    by_cases same : n = a
    · simp [same, right]
    · simp [same]
  · intro n _ allocated
    rw [form]
    split
    · subst_vars
      rw [left] at allocated
      contradiction
    · rfl

/-- Whatever the neighbours are. -/
theorem freeMerge (freed : Freed page p before node after) :
    ∃ page', page.freeMerge node = some page' ∧ Gives page page' p (before ++ after) := by
  obtain ⟨prev, next⟩ := freed.at_node
  rw [GeneralPoolPage.freeMerge, prev, next]
  rcases List.eq_nil_or_concat before with rfl | ⟨before, b, rfl⟩
  · cases after with
    | nil => exact freed.freeMergeNone (by simp) (by simp)
    | cons a after =>
        cases right : (page.nodes a).allocated with
        | true =>
            simp only [List.getLast?_nil, List.head?_cons, right]
            exact freed.freeMergeNone (by simp) (by simpa using right)
        | false =>
            simp only [List.getLast?_nil, List.head?_cons, right]
            exact ⟨_, rfl, freed.freeMergeNext right (by simp)⟩
  · rw [List.concat_eq_append] at freed prev ⊢
    rw [List.getLast?_concat]
    cases left : (page.nodes b).allocated with
    | true =>
        cases after with
        | nil =>
            simp only [List.head?_nil, left]
            exact freed.freeMergeNone (by simpa using left) (by simp)
        | cons a after =>
            cases right : (page.nodes a).allocated with
            | true =>
                simp only [List.head?_cons, left, right]
                exact freed.freeMergeNone (by simpa using left) (by simpa using right)
            | false =>
                simp only [List.head?_cons, left, right]
                exact ⟨_, rfl, freed.freeMergeNext right (by simpa using left)⟩
    | false =>
        cases after with
        | nil =>
            simp only [List.head?_nil, left]
            exact ⟨_, rfl, freed.freeMergePrev left (by simp)⟩
        | cons a after =>
            cases right : (page.nodes a).allocated with
            | true =>
                simp only [List.head?_cons, left, right]
                exact ⟨_, rfl, freed.freeMergePrev left (by simpa using right)⟩
            | false =>
                simp only [List.head?_cons, left, right]
                exact ⟨_, rfl, freed.freeMergePrevAndNext left right⟩

end Freed

end Free

section Page

variable {page page' : GeneralPoolPage} {node p : Nat} {offs before after : List Nat}

/-- The size that was asked for is noted in the nodes and used nowhere. -/
theorem Kept.congr (kept : Kept page p offs)
    (same : ∀ y, ∃ realSize, page'.nodes y = { page.nodes y with realSize })
    (available : page'.available = page.available) : Kept page' p offs := by
  have allocated (y : Nat) : (page'.nodes y).allocated = (page.nodes y).allocated := by
    obtain ⟨r, is⟩ := same y
    rw [is]
  have sameFrees : frees page' offs = frees page offs := frees_congr fun y _ => allocated y
  refine ⟨?_, kept.first, ?_, ?_, ?_, fun y member => ?_, ?_, fun y member => ?_⟩
  · refine kept.threaded.congr (fun y _ => ?_) fun y _ => ?_ <;>
      obtain ⟨r, is⟩ := same y <;> simp only [is]
  · refine Tiles.congr kept.tiles fun y _ => ?_
    obtain ⟨r, is⟩ := same y
    rw [is]
  · rw [sameFrees]
    refine kept.available.congr (fun y _ => ?_) fun y _ => ?_ <;>
      obtain ⟨r, is⟩ := same y <;> simp only [is]
  · rw [available, sameFrees, kept.root]
  · obtain ⟨r, is⟩ := same y
    rw [is]
    exact kept.unlinked y member
  · exact unmerged_congr (fun y _ => allocated y) kept.merged
  · obtain ⟨r, is⟩ := same y
    rw [is]
    exact kept.owner y member

/-- A node that is large enough is handed out, whole or in part. -/
theorem Kept.take {size : Nat} (kept : Kept page p offs) (free : node ∈ frees page offs)
    (enough : size ≤ (page.nodes node).size) (realSize : Nat) :
    Takes page (GeneralPoolImpl.take page node size realSize) p offs node size := by
  obtain ⟨member, isFree⟩ := mem_frees.mp free
  obtain ⟨before, after, rfl⟩ := List.append_of_mem member
  let counted := { page with availableSize := page.availableSize - (size + nodeSize) }
  have keptCounted : Kept counted p (before ++ node :: after) := kept.congr (fun y => ⟨_, rfl⟩) rfl
  obtain ⟨middle, is, takes⟩ : ∃ middle, GeneralPoolImpl.take page node size realSize =
      middle.edit node ({ · with realSize }) ∧
        Takes counted middle p (before ++ node :: after) node size := by
    rw [GeneralPoolImpl.take]
    split
    · exact ⟨_, rfl, keptCounted.splitAllocNode isFree ‹_›⟩
    · exact ⟨_, rfl, keptCounted.removeAvailableList isFree enough⟩
  have noted (y : Nat) : ∃ r, (GeneralPoolImpl.take page node size realSize).nodes y =
      { middle.nodes y with realSize := r } := by
    rw [is, GeneralPoolPage.nodes_edit]
    split
    · subst_vars
      exact ⟨realSize, rfl⟩
    · exact ⟨_, rfl⟩
  obtain ⟨offs', keptMiddle, held⟩ := takes.kept
  refine ⟨⟨offs', keptMiddle.congr noted (by rw [is]; rfl), fun n => ?_⟩, fun n there => ?_,
    takes.fresh, ?_, ?_, ?_, ?_⟩
  · obtain ⟨r, at_⟩ := noted n
    rw [Held, at_]
    exact held n
  · obtain ⟨r, at_⟩ := noted n
    rw [at_]
    exact takes.sizes n there
  · obtain ⟨r, at_⟩ := noted node
    rw [at_]
    exact takes.enough
  · rw [is]
    exact takes.prev
  · rw [is]
    exact takes.next
  · rw [is]
    exact takes.miss

/-- A node that is handed out is marked as free. -/
theorem Kept.mark (kept : Kept page p (before ++ node :: after))
    (held : (page.nodes node).allocated = true)
    (nodes : ∀ y, page'.nodes y =
      if y = node then { page.nodes node with allocated := false } else page.nodes y)
    (available : page'.available = page.available) : Freed page' p before node after := by
  obtain ⟨early, late, -⟩ := kept.nodup
  have atNode := (nodes node).trans (if_pos rfl)
  have elsewhere (y : Nat) (member : y ∈ before ++ after) : page'.nodes y = page.nodes y := by
    rw [nodes, if_neg]
    rintro rfl
    exact (List.mem_append.mp member).elim early late
  have sameBefore : frees page' before = frees page before :=
    frees_congr fun y member => by rw [elsewhere y (List.mem_append_left _ member)]
  have sameAfter : frees page' after = frees page after :=
    frees_congr fun y member => by rw [elsewhere y (List.mem_append_right _ member)]
  have split : frees page (before ++ node :: after) = frees page before ++ frees page after := by
    rw [frees_append, frees_cons_allocated held]
  obtain ⟨earlyChain, lateChain, -⟩ := chain_around.mp kept.merged
  have owner := kept.owner
  have linked := kept.available
  have root := kept.root
  rw [split] at linked root
  refine ⟨?_, kept.first, ?_, ?_, ?_, ?_, ?_, ?_, ?_, ?_, ?_⟩
  · refine kept.threaded.congr (fun y _ => ?_) fun y _ => ?_ <;> rw [nodes] <;> split <;>
      subst_vars <;> rfl
  · refine Tiles.congr kept.tiles fun y _ => ?_
    rw [nodes]
    split <;> subst_vars <;> rfl
  · rw [atNode]
  · rw [sameBefore, sameAfter]
    refine linked.congr (fun y _ => ?_) fun y _ => ?_ <;> rw [nodes] <;> split <;>
      subst_vars <;> rfl
  · rw [available, root, sameBefore, sameAfter]
  · rw [atNode]
    exact kept.unlinked node (by simp) held
  · intro n member allocated
    rw [elsewhere n member] at allocated ⊢
    exact kept.unlinked n (by simp at member ⊢; tauto) allocated
  · exact unmerged_congr (fun y member => by rw [elsewhere y (List.mem_append_left _ member)])
      earlyChain
  · exact unmerged_congr (fun y member => by rw [elsewhere y (List.mem_append_right _ member)])
      lateChain
  · intro n member
    rw [nodes]
    split
    · subst_vars
      exact owner _ member
    · exact owner n member

/-- A node that is handed out is taken back. -/
theorem Kept.free (kept : Kept page p offs) (page' : GeneralPoolPage) (held : Held page offs node)
    (nodes : ∀ y, page'.nodes y =
      if y = node then { page.nodes node with allocated := false } else page.nodes y)
    (available : page'.available = page.available) :
    ∃ merged, page'.freeMerge node = some merged ∧
      (∃ offs', Kept merged p offs' ∧ ∀ n, Held merged offs' n ↔ n ≠ node ∧ Held page offs n) ∧
      (∀ n, n ≠ node → Held page offs n → (merged.nodes n).size = (page.nodes n).size) ∧
      merged.prev = page'.prev ∧ merged.next = page'.next ∧ merged.miss = page'.miss := by
  obtain ⟨before, after, rfl⟩ := List.append_of_mem held.1
  obtain ⟨early, late, -⟩ := kept.nodup
  obtain ⟨merged, merges, ⟨offs', kept', shows⟩, sizes, prev, next, miss⟩ :=
    (kept.mark held.2 nodes available).freeMerge
  have others (n : Nat) (other : n ≠ node) : page'.nodes n = page.nodes n :=
    (nodes n).trans (if_neg other)
  refine ⟨merged, merges, ⟨offs', kept', fun n => ?_⟩, fun n other there => ?_, prev, next, miss⟩
  · rw [shows, Held]
    by_cases same : n = node
    · subst same
      simp [early, late]
    · simp [same, others n same]
  · have member : n ∈ before ++ after := by
      have row := there.1
      simp [other] at row ⊢
      exact row
    rw [sizes n member (by rw [others n other]; exact there.2), others n other]

end Page

end Cgsf.Proof.BaseLayer
