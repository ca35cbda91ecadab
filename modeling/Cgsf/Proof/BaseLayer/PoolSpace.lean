import Cgsf.BaseLayer.PoolSizes
import Cgsf.Proof.BaseLayer.PoolSizes
import Mathlib.Algebra.Order.BigOperators.Group.List
import Mathlib.Algebra.Order.Group.Nat

/-!
# What is recorded as available
-/

namespace Cgsf.Proof.BaseLayer
open Cgsf.BaseLayer Library

section Pages

variable {page page' : GeneralPoolPage} {p node size start stop : Nat} {row row' : List Nat}

/-- The bytes that are handed out, with their headers. -/
def heldSpace (page : GeneralPoolPage) (row : List Nat) : Nat :=
  page.space row (·.allocated)

theorem space_cons (page : GeneralPoolPage) (n : Nat) (row : List Nat)
    (chosen : GeneralPoolNode → Bool) : page.space (n :: row) chosen =
      (if chosen (page.nodes n) then (page.nodes n).size + nodeSize else 0) + page.space row chosen := by
  unfold GeneralPoolPage.space
  rw [List.filter_cons]
  split
  · rw [List.map_cons, List.sum_cons]
  · rw [Nat.zero_add]

/-- What is handed out and what is not make up the page. -/
theorem space_tiles (tiles : Tiles page.nodes start row stop) :
    start + (heldSpace page row + page.space row fun node => !node.allocated) = stop := by
  induction row generalizing start with
  | nil => exact tiles
  | cons n row ih =>
      obtain ⟨rfl, rest⟩ := tiles
      have rest := ih rest
      unfold heldSpace at *
      rw [space_cons, space_cons]
      cases (page.nodes n).allocated <;> simp [getMemory] at rest ⊢ <;> omega

/-- The nodes that are handed out are the same but for one. -/
theorem heldSpace_more (kept : Kept page p row) (kept' : Kept page' p row')
    (shows : ∀ n, Held page' row' n ↔ n = node ∨ Held page row n) (fresh : ¬Held page row node)
    (sizes : ∀ n, Held page row n → (page'.nodes n).size = (page.nodes n).size) :
    heldSpace page' row' = (page'.nodes node).size + nodeSize + heldSpace page row := by
  unfold heldSpace GeneralPoolPage.space
  have member (n : Nat) : n ∈ (row.filter fun n => (page.nodes n).allocated) ↔ Held page row n :=
    List.mem_filter
  have member' (n : Nat) : n ∈ (row'.filter fun n => (page'.nodes n).allocated) ↔
      Held page' row' n := List.mem_filter
  have nodup := (Tiles.nodup kept.tiles).filter fun n => (page.nodes n).allocated
  have nodup' := (Tiles.nodup kept'.tiles).filter fun n => (page'.nodes n).allocated
  have perm : (row'.filter fun n => (page'.nodes n).allocated).Perm
      (node :: row.filter fun n => (page.nodes n).allocated) := by
    rw [List.perm_ext_iff_of_nodup nodup' (List.nodup_cons.mpr ⟨(member node).not.mpr fresh, nodup⟩)]
    intro n
    rw [List.mem_cons, member, member', shows]
  rw [(perm.map _).sum_eq, List.map_cons, List.sum_cons]
  congr 2
  apply List.map_congr_left
  intro n there
  rw [sizes n ((member n).mp there)]

/-- What is recorded and what is handed out make up the page. -/
def Balanced (page : GeneralPoolPage) (row : List Nat) : Prop :=
  page.availableSize + heldSpace page row = defaultPageSize

theorem Kept.space (kept : Kept page p row) :
    heldSpace page row + (page.space row fun node => !node.allocated) = defaultPageSize :=
  (Nat.zero_add _).symm.trans (space_tiles kept.tiles)

theorem space_eq_zero {chosen : GeneralPoolNode → Bool} : page.space row chosen = 0 ↔
    ∀ n ∈ row, chosen (page.nodes n) = false := by
  induction row with
  | nil => simp [GeneralPoolPage.space]
  | cons n row ih =>
      have positive := nodeSize_pos
      rw [space_cons, Nat.add_eq_zero_iff, ih, List.forall_mem_cons]
      refine and_congr_left' ?_
      cases chosen (page.nodes n)
      · simp
      · simp [positive.ne']

theorem le_space (chosen : GeneralPoolNode → Bool) (there : node ∈ row)
    (chooses : chosen (page.nodes node) = true) :
    (page.nodes node).size + nodeSize ≤ page.space row chosen :=
  List.le_sum_of_mem (List.mem_map_of_mem (List.mem_filter.mpr ⟨there, chooses⟩))

theorem Kept.accounted_iff (kept : Kept page p row) :
    (∃ nodes, page.Accounted nodes) ↔ Balanced page row := by
  have linked := kept.intact.linked
  have space := kept.space
  constructor
  · rintro ⟨nodes, accounted⟩
    cases linked.symm.trans accounted.linked
    rw [Balanced, accounted.sum]
    omega
  · intro balanced
    have sum : page.availableSize = page.space row fun node => !node.allocated := by
      unfold Balanced at balanced
      omega
    refine ⟨row, linked, sum, fun size small node there free => ?_, ?_⟩
    · have room := le_space (fun node => !node.allocated) there (by rw [free]; rfl)
      omega
    · rw [← @space_eq_zero page row (·.allocated)]
      unfold Balanced heldSpace at balanced
      omega

/-! ## One call -/

namespace GeneralPoolPage

variable {f : GeneralPoolNode → GeneralPoolNode}

theorem size_edit (keeps : ∀ n, (f n).size = n.size) (page : GeneralPoolPage) (node y : Nat) :
    ((page.edit node f).nodes y).size = (page.nodes y).size := by
  rw [nodes_edit]
  split
  · subst_vars
    exact keeps _
  · rfl

theorem size_editIf (keeps : ∀ n, (f n).size = n.size) (page : GeneralPoolPage) (node : Option Nat)
    (y : Nat) : ((page.editIf node f).nodes y).size = (page.nodes y).size := by
  cases node with
  | none => rfl
  | some node => exact size_edit keeps page node y

theorem size_edit_ne {y : Nat} (page : GeneralPoolPage) (other : y ≠ node) :
    ((page.edit node f).nodes y).size = (page.nodes y).size := by
  rw [nodes_edit, if_neg other]

theorem size_removeAvailableList (page : GeneralPoolPage) (node y : Nat) :
    ((page.removeAvailableList node).nodes y).size = (page.nodes y).size := by
  unfold GeneralPoolPage.removeAvailableList
  split <;> simp [size_edit, size_editIf]

theorem size_splitAllocNode (page : GeneralPoolPage) (node size : Nat) :
    ((page.splitAllocNode node size).nodes node).size = size := by
  have other : node ≠ getMemory node + size := by
    have positive := nodeSize_pos
    unfold getMemory
    omega
  have self (page : GeneralPoolPage) : ((page.edit node
      ({ · with size, allocated := true })).nodes node).size = size := by
    rw [nodes_edit, if_pos rfl]
  unfold GeneralPoolPage.splitAllocNode
  dsimp only
  split <;> simp [size_edit, size_editIf, size_edit_ne _ other, self]

@[simp] theorem availableSize_edit (page : GeneralPoolPage) (node : Nat) :
    (page.edit node f).availableSize = page.availableSize := rfl

@[simp] theorem availableSize_editIf (page : GeneralPoolPage) (node : Option Nat) :
    (page.editIf node f).availableSize = page.availableSize := by
  cases node <;> rfl

theorem availableSize_removeAvailableList (page : GeneralPoolPage) (node : Nat) :
    (page.removeAvailableList node).availableSize = page.availableSize := by
  unfold GeneralPoolPage.removeAvailableList
  split <;> simp

theorem availableSize_splitAllocNode (page : GeneralPoolPage) (node size : Nat) :
    (page.splitAllocNode node size).availableSize = page.availableSize := by
  unfold GeneralPoolPage.splitAllocNode
  dsimp only
  split <;> simp

theorem availableSize_freeMerge (merges : page.freeMerge node = some page') :
    page'.availableSize = page.availableSize := by
  have next (after : Nat) : (page.freeMergeNext node after).availableSize = page.availableSize := by
    unfold GeneralPoolPage.freeMergeNext
    dsimp only
    split <;> split <;> simp
  have both (before after : Nat) :
      (page.freeMergePrevAndNext node before after).availableSize = page.availableSize := by
    simp [GeneralPoolPage.freeMergePrevAndNext]
  have prev (before : Nat) : (page.freeMergePrev node before).availableSize = page.availableSize := by
    simp [GeneralPoolPage.freeMergePrev]
  have none (merges : page.freeMergeNone node = some page') :
      page'.availableSize = page.availableSize := by
    unfold GeneralPoolPage.freeMergeNone at merges
    split at merges
    · obtain ⟨before, _, rfl⟩ := Option.map_eq_some_iff.mp merges
      cases before with
      | none => simp
      | some prevNode =>
          dsimp only
          split <;> simp
    · cases merges
      rfl
  unfold GeneralPoolPage.freeMerge at merges
  split at merges
  · split at merges
    · split at merges
      · cases merges
        exact both ..
      · cases merges
        exact prev _
    · split at merges
      · cases merges
        exact next _
      · exact none merges
  · split at merges
    · cases merges
      exact prev _
    · exact none merges
  · split at merges
    · cases merges
      exact next _
    · exact none merges
  · exact none merges

theorem availableSize_take (page : GeneralPoolPage) (node size realSize : Nat) :
    (GeneralPoolImpl.take page node size realSize).availableSize =
      page.availableSize - (size + nodeSize) := by
  unfold GeneralPoolImpl.take
  dsimp only
  rw [availableSize_edit]
  split
  · rw [availableSize_splitAllocNode]
  · rw [availableSize_removeAvailableList]

theorem size_take (page : GeneralPoolPage) (node size realSize : Nat) :
    ((GeneralPoolImpl.take page node size realSize).nodes node).size =
      if size + nodeSize + minAllocSize ≤ (page.nodes node).size then size
      else (page.nodes node).size := by
  unfold GeneralPoolImpl.take
  dsimp only
  rw [nodes_edit, if_pos rfl]
  dsimp only
  split
  · exact size_splitAllocNode ..
  · exact size_removeAvailableList ..

end GeneralPoolPage

/-- What is recorded stays right if all of the node that is handed out is counted. -/
theorem Kept.take_balanced (kept : Kept page p row) (balanced : Balanced page row)
    (free : node ∈ frees page row) (enough : size ≤ (page.nodes node).size)
    (room : size + nodeSize ≤ page.availableSize) (realSize : Nat)
    (kept' : Kept (GeneralPoolImpl.take page node size realSize) p row') :
    Balanced (GeneralPoolImpl.take page node size realSize) row' ↔
      Exact size (page.nodes node).size := by
  have takes := kept.take free enough realSize
  obtain ⟨row'', kept'', shows⟩ := takes.kept
  cases kept'.intact.linked.symm.trans kept''.intact.linked
  have held := heldSpace_more kept kept' shows takes.fresh takes.sizes
  rw [GeneralPoolPage.size_take] at held
  unfold Balanced Exact at *
  rw [GeneralPoolPage.availableSize_take, held]
  split <;> omega

end Pages

section Blocks

variable {pool pool' : GeneralPoolImpl} {offs : Nat → List Nat} {handed : List (Pointer × Nat)}
  {available missing : List Nat} {p n node size : Nat} {pointer : Pointer}

theorem Paged.accounted_iff (paged : Paged pool offs available missing) :
    pool.Accounted ↔ ∀ p < pool.newPages, Balanced (pool.pages p) (offs p) :=
  forall₂_congr fun p made => (paged.pages p made).accounted_iff

theorem SameContents.accounted (same : SameContents pool pool')
    (sizes : ∀ p, (pool'.pages p).availableSize = (pool.pages p).availableSize)
    (accounted : pool.Accounted) : pool'.Accounted := by
  intro p made
  rw [same.newPages] at made
  obtain ⟨nodes, linked, sum, skipped, empty⟩ := accounted p made
  refine ⟨nodes, ?_, ?_, ?_, ?_⟩
  · rwa [same.nodes]
  · unfold GeneralPoolPage.space
    rwa [same.nodes, sizes]
  · rwa [same.nodes, sizes]
  · rwa [same.nodes, sizes]

/-- Whether a page that is written to is accounted for decides whether the pool is. -/
theorem Paged.rewritten_accounted {page' : GeneralPoolPage} {row : List Nat}
    (paged : Paged pool offs available missing) (accounted : pool.Accounted) (made : p < pool.newPages)
    (kept : Kept page' p row) (prev : page'.prev = (pool.pages p).prev)
    (next : page'.next = (pool.pages p).next) :
    (pool.edit p fun _ => page').Accounted ↔ Balanced page' row := by
  rw [(paged.rewritten kept prev next).accounted_iff]
  rw [paged.accounted_iff] at accounted
  have self : (pool.edit p fun _ => page').pages p = page' := by
    rw [GeneralPoolImpl.pages_edit, if_pos rfl]
  constructor
  · intro balanced
    have balanced := balanced p made
    rwa [self, Function.update_self] at balanced
  · intro balanced y there
    by_cases is : y = p
    · subst is
      rwa [self, Function.update_self]
    · rw [GeneralPoolImpl.pages_edit, if_neg is, Function.update_of_ne is]
      exact accounted y there

theorem Paged.take_accounted (paged : Paged pool offs available missing) (accounted : pool.Accounted)
    (made : p < pool.newPages) (free : node ∈ frees (pool.pages p) (offs p))
    (enough : size ≤ ((pool.pages p).nodes node).size)
    (room : size + nodeSize ≤ (pool.pages p).availableSize) (realSize : Nat) :
    (pool.edit p (GeneralPoolImpl.take · node size realSize)).Accounted ↔
      Exact size ((pool.pages p).nodes node).size := by
  have kept := paged.pages p made
  have takes := kept.take free enough realSize
  obtain ⟨row, kept', -⟩ := takes.kept
  have balanced := paged.accounted_iff.mp accounted p made
  rw [← kept.take_balanced balanced free enough room realSize kept',
    ← paged.rewritten_accounted accounted made kept' takes.prev takes.next]
  rfl

theorem Paged.allocPage_accounted (paged : Paged pool offs available missing)
    (counted : Counted pool available missing) (accounted : pool.Accounted) :
    pool.allocPage.Accounted := by
  obtain ⟨others, -, -, -, -, whole, first⟩ := GeneralPoolImpl.pages_allocPage paged.root_ne
  have newPages := (GeneralPoolImpl.ends_allocPage pool).2.2.1
  rw [(paged.allocPage counted).1.accounted_iff]
  rw [paged.accounted_iff] at accounted
  intro p made
  by_cases is : p = pool.newPages
  · subst is
    unfold Balanced heldSpace
    rw [Function.update_self, space_cons, first, whole]
    rfl
  · have balanced := accounted p (by omega)
    rw [others p is, Function.update_of_ne is]
    exact balanced

theorem findSome_congr {α β : Type*} {f g : α → Option β} {xs : List α}
    (same : ∀ x ∈ xs, f x = g x) : xs.findSome? f = xs.findSome? g := by
  induction xs with
  | nil => rfl
  | cons x xs ih =>
      rw [List.findSome?_cons, List.findSome?_cons, same x List.mem_cons_self,
        ih fun y there => same y (List.mem_cons_of_mem x there)]

theorem Paged.firstServing (paged : Paged pool offs available missing) (size : Nat) :
    pool.firstServing size = available.findSome? (served pool offs size) := by
  have length := paged.all.length_eq
  rw [List.length_append, List.length_range] at length
  have chained := paged.linked.chained
  rw [← paged.root] at chained
  unfold GeneralPoolImpl.firstServing
  rw [chained.walk (show available.length ≤ pool.newPages by omega), Option.getD_some]
  apply findSome_congr
  intro p member
  rw [(paged.pages p (paged.made (List.mem_append_left missing member))).intact.available]
  rfl

theorem allocWrapped_of_bounded (is : unsignedInt (GeneralPoolImpl.padded n) = size)
    (bounded : size + nodeSize < 2 ^ 32) (depth : Nat) (pool : GeneralPoolImpl) :
    GeneralPoolImpl.allocWrapped (depth + 1) pool n =
      if size + nodeSize > defaultPageSize then
        some (.runtime pool.newRuntime, { pool with
          runtimeNodes := Function.update pool.runtimeNodes pool.newRuntime
            { GeneralPoolNode.clear none with size, realSize := n, allocated := true }
          newRuntime := pool.newRuntime + 1 })
      else
        match GeneralPoolImpl.search size pool.newPages pool pool.availablePage with
        | none => none
        | some (pool, some (page, node)) =>
            some (.paged page (getMemory node),
              pool.edit page (GeneralPoolImpl.take · node size n))
        | some (pool, none) => GeneralPoolImpl.allocWrapped depth pool.allocPage size := by
  have sum : unsignedInt (size + nodeSize) = size + nodeSize := Nat.mod_eq_of_lt bounded
  rw [GeneralPoolImpl.allocWrapped]
  simp only [is, sum, searchFor_eq] <;> rfl

theorem padded_fits (fits : size + nodeSize ≤ defaultPageSize) :
    GeneralPoolImpl.padded size + nodeSize ≤ defaultPageSize := by
  have units : defaultPageSize = 511 * minAllocSize + nodeSize := by decide
  rw [units] at fits ⊢
  exact Nat.add_le_add_right ((padded_le_iff size (by decide)).mpr (Nat.le_of_add_le_add_right fits)) _

/-- A block of a page is found, and what is recorded stays right if all of its node is counted. -/
theorem Managed.alloc_accounted (managed : Managed pool handed) (accounted : pool.Accounted)
    (is : unsignedInt (GeneralPoolImpl.padded n) = size) (bounded : size + nodeSize < 2 ^ 32) :
    ∃ pointer pool', (∀ depth, GeneralPoolImpl.allocWrapped (depth + 2) pool n =
        some (pointer, pool')) ∧ Managed pool' ((pointer, 0) :: handed) ∧
      (pool'.Accounted ↔ pool.TakesExactly n) := by
  obtain ⟨offs, available, missing, paged, counted, owned⟩ := managed
  simp only [allocWrapped_of_bounded is bounded]
  unfold GeneralPoolImpl.TakesExactly
  rw [is]
  by_cases large : size + nodeSize > defaultPageSize
  · simp only [if_pos large]
    refine ⟨_, _, fun _ => rfl, ?_, ?_⟩
    · exact ⟨offs, available, missing, ⟨paged.linked, paged.linkedMissing, paged.root,
        paged.rootMissing, paged.all, paged.pages⟩, ⟨counted.low, counted.high⟩,
        owned.runtimeBlock large⟩
    · exact iff_of_true accounted fun fits => absurd fits (Nat.not_le.mpr large)
  · have enough : available.length ≤ pool.newPages := by
      have length := paged.all.length_eq
      rw [List.length_append, List.length_range] at length
      omega
    have fits := Nat.not_lt.mp large
    obtain ⟨middle, ends, ⟨same, available', missing', paged', counted', free⟩, sizes⟩ :=
      search_ends size [] pool.newPages paged counted enough
    rw [← paged.root] at ends
    have accounted' := same.accounted sizes accounted
    have owned' := owned.of_same same
    unfold GeneralPoolImpl.taking
    rw [paged.firstServing]
    simp only [if_neg large, ends, fits, true_imp_iff]
    cases found : available.findSome? (served pool offs size) with
    | some block =>
        obtain ⟨p, node⟩ := block
        obtain ⟨member, free, enough⟩ := free p node found
        obtain ⟨x, there, serves⟩ := List.exists_of_findSome?_eq_some found
        obtain ⟨rfl, room, -⟩ := of_served serves
        have made := paged'.made (List.mem_append_left missing' member)
        refine ⟨_, _, fun _ => rfl,
          owned'.take paged' counted' member free enough (Nat.zero_le _) n, ?_⟩
        rw [← sizes] at room
        rw [paged'.take_accounted accounted' made free enough room, same.nodes]
    | none =>
        obtain ⟨paged₂, counted₂⟩ := paged'.allocPage counted'
        have fits' := padded_fits fits
        have small : unsignedInt (GeneralPoolImpl.padded size) = GeneralPoolImpl.padded size := by
          apply Nat.mod_eq_of_lt
          have page : defaultPageSize < 2 ^ 32 := by decide
          omega
        have bounded' : GeneralPoolImpl.padded size + nodeSize < 2 ^ 32 :=
          fits'.trans_lt (by decide)
        have searched := search_allocPage paged'.root_ne (Nat.not_lt.mpr fits')
        simp only [allocWrapped_of_bounded small bounded', if_neg (Nat.not_lt.mpr fits'), searched]
        obtain ⟨-, -, -, -, -, whole, first⟩ := GeneralPoolImpl.pages_allocPage paged'.root_ne
        have newPages := (GeneralPoolImpl.ends_allocPage middle).2.2.1
        have free : firstNode ∈ frees (middle.allocPage.pages middle.newPages)
            (Function.update offs middle.newPages [firstNode] middle.newPages) := by
          rw [Function.update_self]
          exact mem_frees.mpr ⟨List.mem_singleton_self _, by rw [first]⟩
        have enough : GeneralPoolImpl.padded size ≤
            ((middle.allocPage.pages middle.newPages).nodes firstNode).size := by
          rw [first]
          exact Nat.le_sub_of_add_le fits'
        refine ⟨_, _, fun _ => rfl, (owned'.allocPage paged'.root_ne).take paged₂ counted₂
          List.mem_cons_self free enough (Nat.zero_le _) size, ?_⟩
        rw [paged₂.take_accounted (paged'.allocPage_accounted counted' accounted') (by omega) free
          enough (by rwa [whole]), first]

/-- The node that is freed is counted with what is free. -/
theorem Managed.free_accounted (managed : Managed pool handed) (accounted : pool.Accounted)
    (ours : pointer ∈ handed.map (·.1)) (result : pool.free pointer = some pool') :
    pool'.Accounted := by
  obtain ⟨offs, available, missing, paged, counted, owned⟩ := managed
  obtain ⟨⟨pointer, n⟩, there, rfl⟩ := List.mem_map.mp ours
  clear ours
  cases pointer with
  | runtime block =>
      rw [GeneralPoolImpl.free, if_pos (owned.runtime block n there).2] at result
      cases result
      exact accounted
  | paged p memory =>
      obtain ⟨made, node, rfl, held, -⟩ := owned.paged p memory n there
      obtain ⟨merged, row, merges, ended, kept', shows, sizes, prev, next, -⟩ :=
        paged.free_held made held
      have kept := paged.pages p made
      have balanced := paged.accounted_iff.mp accounted p made
      have space : heldSpace (pool.pages p) (offs p) =
          ((pool.pages p).nodes node).size + nodeSize + heldSpace merged row := by
        refine heldSpace_more kept' kept (fun n => ?_) (fun held' => ((shows node).mp held').1 rfl)
          fun n held' => (sizes n ((shows n).mp held').1 ((shows n).mp held').2).symm
        rw [shows]
        by_cases is : n = node
        · exact iff_of_true (is ▸ held) (.inl is)
        · simp only [is, false_or, true_and, ne_eq, not_false_eq_true]
      have rest : Balanced merged row := by
        unfold Balanced at balanced ⊢
        rw [GeneralPoolPage.availableSize_freeMerge merges]
        have page : defaultPageSize < 2 ^ 32 := by decide
        simp only [marked, unsignedInt]
        rw [Nat.mod_eq_of_lt (by omega)]
        omega
      have accounted' := (paged.rewritten_accounted accounted made kept' prev next).mpr rest
      cases result.symm.trans ended
      split
      · refine SameContents.accounted ⟨fun y => ?_, fun y => ?_, ?_, ?_, ?_⟩ (fun y => ?_) accounted'
        · exact toAvailable_keeps (·.nodes) (fun _ _ _ _ => rfl) _ p y
        · exact toAvailable_keeps (·.available) (fun _ _ _ _ => rfl) _ p y
        · unfold GeneralPoolImpl.toAvailable
          dsimp only
          split <;> simp
        · exact runtimeNodes_toAvailable _ p
        · unfold GeneralPoolImpl.toAvailable
          dsimp only
          split <;> simp
        · exact toAvailable_keeps (·.availableSize) (fun _ _ _ _ => rfl) _ p y
      · exact accounted'

/-! ## Sizes that are never served -/

theorem searchFor_huge (huge : defaultPageSize < size) (before : List Nat) (after : List Nat)
    (fuel : Nat) (paged : Paged pool offs (before ++ after) missing) (enough : after.length ≤ fuel) :
    GeneralPoolImpl.searchFor 0 size fuel pool after.head? = some (pool, none) := by
  induction after generalizing before fuel with
  | nil => cases fuel <;> rfl
  | cons x after ih =>
      cases fuel with
      | zero => exact absurd enough (Nat.not_succ_le_zero _)
      | succ fuel =>
          have made := paged.made (List.mem_append_left missing
            (List.mem_append_right before List.mem_cons_self))
          have kept := paged.pages x made
          have none : (frees (pool.pages x) (offs x)).find?
              (fun n => size ≤ ((pool.pages x).nodes n).size) = none := by
            rw [List.find?_eq_none]
            intro n free
            have within := ((Tiles.within kept.tiles).2 n (mem_frees.mp free).1).2
            rw [getMemory] at within
            simp only [decide_eq_true_eq]
            omega
          rw [List.head?_cons, GeneralPoolImpl.searchFor, if_pos (Nat.zero_le _), kept.fitting, none,
            paged.linked.at_cell.2]
          exact ih (before ++ [x]) fuel (by simpa using paged) (Nat.le_of_succ_le_succ enough)

/-- A size that wraps around with its header is asked for again and again. -/
theorem unreturned (managed : Managed pool handed) (huge : defaultPageSize < size)
    (is : unsignedInt (GeneralPoolImpl.padded n) = size) (again : GeneralPoolImpl.padded size = size)
    (wraps : unsignedInt (size + nodeSize) = 0) (depth : Nat) :
    GeneralPoolImpl.allocWrapped depth pool n = none := by
  induction depth generalizing pool n with
  | zero => rfl
  | succ depth ih =>
      obtain ⟨offs, available, missing, paged, counted, owned⟩ := managed
      have length := paged.all.length_eq
      rw [List.length_append, List.length_range] at length
      have searched := searchFor_huge huge [] available pool.newPages paged (by omega)
      rw [← paged.root] at searched
      obtain ⟨paged', counted'⟩ := paged.allocPage counted
      have low : unsignedInt size = size := by
        rw [← is]
        exact Nat.mod_mod ..
      rw [GeneralPoolImpl.allocWrapped]
      simp only [is, wraps, Nat.not_lt_zero, gt_iff_lt, if_false, searched]
      exact ih ⟨_, _, _, paged', counted', owned.allocPage paged.root_ne⟩ (by rw [again, low])

end Blocks

section Runs

variable {r r' : PoolRun} {call : PoolCall} {calls : List PoolCall} {n : Nat}

/-- A pool in order whose pages are accounted for, whatever was asked for. -/
def Spaced (pool : GeneralPoolImpl) (handed : List (Pointer × Nat)) : Prop :=
  Managed pool (handed.map fun block => (block.1, 0)) ∧ pool.Accounted

theorem map_unsized (handed : List (Pointer × Nat)) :
    (handed.map fun block => (block.1, 0)).map (·.1) = handed.map (·.1) := by
  rw [List.map_map]
  rfl

/-- A size is computed without wrapping around with its header, or it is the last one. -/
theorem bounded_or_last (n : Nat) :
    unsignedInt (GeneralPoolImpl.padded n) + nodeSize < 2 ^ 32 ∨
      unsignedInt (GeneralPoolImpl.padded n) = 2 ^ 32 - minAllocSize := by
  obtain ⟨units, -, is, -⟩ := padded_units n
  rw [is]
  simp only [unsignedInt, minAllocSize, nodeSize]
  omega

/-- A block that is returned leaves the pages accounted for if all of its node is counted. -/
theorem Spaced.returns (spaced : Spaced r.pool r.handed) {pointer : Pointer} {pool : GeneralPoolImpl}
    (returns : r.pool.Returns n pointer pool) :
    Managed pool (((pointer, n) :: r.handed).map fun block => (block.1, 0)) ∧
      (pool.Accounted ↔ r.pool.TakesExactly n) := by
  obtain ⟨managed, accounted⟩ := spaced
  rcases bounded_or_last n with bounded | last
  · obtain ⟨pointer', pool', result, managed', iff⟩ := managed.alloc_accounted accounted rfl bounded
    cases returns_unique (result 0) returns
    exact ⟨managed', iff⟩
  · obtain ⟨depth, result⟩ := returns
    rw [unreturned managed (by decide) last (by decide) (by decide)] at result
    cases result

theorem Spaced.takes_iff (spaced : Spaced r.pool r.handed) (n : Nat) :
    (∀ pointer pool, r.pool.Returns n pointer pool → pool.Accounted) ↔ r.pool.TakesExactly n := by
  constructor
  · intro all fits
    rcases bounded_or_last n with bounded | last
    · obtain ⟨pointer, pool, result, -, iff⟩ :=
        spaced.1.alloc_accounted spaced.2 rfl bounded
      exact iff.mp (all pointer pool ⟨2, result 0⟩) fits
    · rw [last] at fits
      exact absurd fits (by decide)
  · intro exactly pointer pool returns
    exact (spaced.returns returns).2.mpr exactly

theorem Spaced.move (spaced : Spaced r.pool r.handed) (exactly : r.Exactly call)
    (moves : r.Moves call r') : Spaced r'.pool r'.handed := by
  cases moves with
  | alloc _ returns =>
      obtain ⟨managed, iff⟩ := spaced.returns returns
      exact ⟨managed, iff.mpr exactly⟩
  | @free pointer pool ours returns =>
      obtain ⟨managed, accounted⟩ := spaced
      rw [← map_unsized] at ours
      obtain ⟨pool', result, managed'⟩ := managed.free ours
      cases returns.symm.trans result
      refine ⟨?_, managed.free_accounted accounted ours returns⟩
      rw [others, List.filter_map] at managed'
      exact managed'

theorem run_spaced (run : Run (Guarded PoolRun.Exactly PoolRun.Moves) {} calls r) :
    Spaced r.pool r.handed := by
  refine run.invariant (I := fun r => Spaced r.pool r.handed) ⟨Managed.init, ?_⟩ ?_
  · exact paged_none.1.allocPage_accounted paged_none.2 fun p made => absurd made (Nat.not_lt_zero p)
  · rintro r call r' spaced ⟨exactly, moves⟩
    exact spaced.move exactly moves

end Runs

/-- In every run in which each node is split or handed out for all that it has, every page records
what is free; the next request leaves it so exactly if it does the same, and every block that is
freed does. -/
theorem run_accounted {r : PoolRun} {calls : List PoolCall}
    (run : Run (Guarded PoolRun.Exactly PoolRun.Moves) {} calls r) :
    r.pool.Accounted ∧
      (∀ n, (∀ pointer pool, r.pool.Returns n pointer pool → pool.Accounted) ↔
        r.pool.TakesExactly n) ∧
      ∀ pointer ∈ r.handed.map (·.1), ∃ pool, r.pool.free pointer = some pool ∧ pool.Accounted := by
  have spaced := run_spaced run
  refine ⟨spaced.2, spaced.takes_iff, fun pointer ours => ?_⟩
  rw [← map_unsized] at ours
  obtain ⟨pool, result, -⟩ := spaced.1.free ours
  exact ⟨pool, result, spaced.1.free_accounted spaced.2 ours result⟩

/-- The first node is split for 96 bytes; what is left of it goes whole for 16224. -/
theorem split_accounted : ∃ r : PoolRun,
    Run (Guarded PoolRun.Exactly PoolRun.Moves) {} [.alloc 96] r ∧ r.pool.Accounted ∧
      ∀ pointer pool, r.pool.Returns 16224 pointer pool → pool.Accounted := by
  obtain ⟨⟨pointer, pool⟩, result, takes⟩ : ∃ block,
      GeneralPoolImpl.allocWrapped 1 .init 96 = some block ∧
        decide (block.2.TakesExactly 16224) = true := by
    apply Option.map_eq_some_iff.mp
    decide
  have run : Run (Guarded PoolRun.Exactly PoolRun.Moves) {} [.alloc 96]
      { pool, handed := [(pointer, 96)] } := by
    refine .next .start ⟨?_, .alloc (by decide) ⟨1, result⟩⟩
    unfold PoolRun.Exactly
    decide
  obtain ⟨accounted, next, -⟩ := run_accounted run
  exact ⟨_, run, accounted, (next 16224).mpr (of_decide_eq_true takes)⟩

/-- All of the first page is handed out for 16300 bytes, and 32 bytes of it are still recorded. -/
theorem whole_miscounted : ¬∀ (calls : List PoolCall) (r : PoolRun),
    Run PoolRun.Moves {} calls r → r.pool.Accounted := by
  intro accounted
  obtain ⟨⟨pointer, pool⟩, result, is⟩ : ∃ block,
      GeneralPoolImpl.allocWrapped 1 .init 16300 = some block ∧
        (block.2.newPages, walk (fun node => ((block.2.pages 0).nodes node).next) defaultPageSize
          (some firstNode), (block.2.pages 0).availableSize,
          (block.2.pages 0).space [0] fun node => !node.allocated) = (1, some [0], 32, 0) := by
    apply Option.map_eq_some_iff.mp
    decide
  simp only [Prod.mk.injEq] at is
  obtain ⟨made, linked, recorded, free⟩ := is
  have run : Run PoolRun.Moves {} [.alloc 16300] { pool, handed := [(pointer, 16300)] } :=
    .next .start (.alloc (by decide) ⟨1, result⟩)
  obtain ⟨nodes, here⟩ := accounted _ _ run 0 (by rw [made]; decide)
  cases linked.symm.trans here.linked
  have sum := here.sum
  rw [recorded, free] at sum
  cases sum

end Cgsf.Proof.BaseLayer
