import Cgsf.BaseLayer.PoolSizes
import Cgsf.Proof.BaseLayer.GeneralPool

/-!
# Blocks have the size that was asked for
-/

namespace Cgsf.Proof.BaseLayer
open Cgsf.BaseLayer Library

/-! ## What is noted in a page -/

namespace GeneralPoolPage

variable {page page' : GeneralPoolPage} {node y : Nat}

theorem realSize_edit {f : GeneralPoolNode → GeneralPoolNode}
    (keeps : ∀ n, (f n).realSize = n.realSize) (page : GeneralPoolPage) (node y : Nat) :
    ((page.edit node f).nodes y).realSize = (page.nodes y).realSize := by
  rw [nodes_edit]
  split
  · subst_vars
    exact keeps _
  · rfl

theorem realSize_edit_ne {f : GeneralPoolNode → GeneralPoolNode} (page : GeneralPoolPage)
    (other : y ≠ node) : ((page.edit node f).nodes y).realSize = (page.nodes y).realSize := by
  rw [nodes_edit, if_neg other]

theorem realSize_editIf {f : GeneralPoolNode → GeneralPoolNode}
    (keeps : ∀ n, (f n).realSize = n.realSize) (page : GeneralPoolPage) (node : Option Nat) (y : Nat) :
    ((page.editIf node f).nodes y).realSize = (page.nodes y).realSize := by
  cases node with
  | none => rfl
  | some node => exact realSize_edit keeps page node y

theorem realSize_removeAvailableList (page : GeneralPoolPage) (node y : Nat) :
    ((page.removeAvailableList node).nodes y).realSize = (page.nodes y).realSize := by
  unfold GeneralPoolPage.removeAvailableList
  split <;> simp [realSize_edit, realSize_editIf]

theorem realSize_splitAllocNode {size : Nat} (page : GeneralPoolPage)
    (other : y ≠ getMemory node + size) :
    ((page.splitAllocNode node size).nodes y).realSize = (page.nodes y).realSize := by
  unfold GeneralPoolPage.splitAllocNode
  dsimp only
  split <;> simp [realSize_edit, realSize_editIf, realSize_edit_ne _ other]

theorem realSize_freeMergeNone (merges : page.freeMergeNone node = some page') (y : Nat) :
    (page'.nodes y).realSize = (page.nodes y).realSize := by
  unfold GeneralPoolPage.freeMergeNone at merges
  split at merges
  · obtain ⟨before, _, rfl⟩ := Option.map_eq_some_iff.mp merges
    cases before with
    | none => simp [realSize_edit]
    | some prevNode =>
        dsimp only
        split <;> simp [realSize_edit]
  · cases merges
    rfl

theorem realSize_freeMerge (merges : page.freeMerge node = some page') (y : Nat) :
    (page'.nodes y).realSize = (page.nodes y).realSize := by
  have both (before after : Nat) : ((page.freeMergePrevAndNext node before after).nodes y).realSize =
      (page.nodes y).realSize := by
    unfold GeneralPoolPage.freeMergePrevAndNext
    simp [realSize_edit, realSize_editIf]
  have prev (before : Nat) : ((page.freeMergePrev node before).nodes y).realSize =
      (page.nodes y).realSize := by
    unfold GeneralPoolPage.freeMergePrev
    simp [realSize_edit, realSize_editIf]
  have next (after : Nat) : ((page.freeMergeNext node after).nodes y).realSize =
      (page.nodes y).realSize := by
    unfold GeneralPoolPage.freeMergeNext
    dsimp only
    split <;> split <;> simp [realSize_edit, realSize_editIf]
  unfold GeneralPoolPage.freeMerge at merges
  split at merges
  · split at merges
    · split at merges
      · cases merges
        exact both ..
      · cases merges
        exact prev ..
    · split at merges
      · cases merges
        exact next ..
      · exact realSize_freeMergeNone merges y
  · split at merges
    · cases merges
      exact prev ..
    · exact realSize_freeMergeNone merges y
  · split at merges
    · cases merges
      exact next ..
    · exact realSize_freeMergeNone merges y
  · exact realSize_freeMergeNone merges y

theorem realSize_take {size realSize : Nat} (page : GeneralPoolPage) (other : y ≠ node)
    (new : size + nodeSize ≤ (page.nodes node).size → y ≠ getMemory node + size) :
    ((GeneralPoolImpl.take page node size realSize).nodes y).realSize = (page.nodes y).realSize := by
  unfold GeneralPoolImpl.take
  dsimp only
  rw [realSize_edit_ne _ other]
  split
  · rename_i large
    rw [realSize_splitAllocNode _ (new (by omega))]
  · rw [realSize_removeAvailableList]

theorem realSize_take_self (page : GeneralPoolPage) (node size realSize : Nat) :
    ((GeneralPoolImpl.take page node size realSize).nodes node).realSize = realSize := by
  unfold GeneralPoolImpl.take
  rw [nodes_edit, if_pos rfl]

end GeneralPoolPage

/-! ## Headers of blocks -/

/-- The headers of these blocks still say the same. -/
def Recorded (pool pool' : GeneralPoolImpl) (handed : List (Pointer × Nat)) : Prop :=
  ∀ block ∈ handed, pool'.size block.1 = pool.size block.1 ∧ pool'.usable block.1 = pool.usable block.1

theorem Recorded.trans {first second third : GeneralPoolImpl} {handed : List (Pointer × Nat)}
    (left : Recorded first second handed) (right : Recorded second third handed) :
    Recorded first third handed := by
  intro block there
  obtain ⟨size, usable⟩ := left block there
  obtain ⟨size', usable'⟩ := right block there
  exact ⟨size'.trans size, usable'.trans usable⟩

section Blocks

variable {pool pool' : GeneralPoolImpl} {offs : Nat → List Nat} {handed : List (Pointer × Nat)}
  {available missing : List Nat} {p n node size : Nat} {pointer : Pointer}

theorem recorded_of_header
    (same : ∀ pointer n, (pointer, n) ∈ handed → pool'.header pointer = pool.header pointer) :
    Recorded pool pool' handed := by
  rintro ⟨pointer, n⟩ there
  unfold GeneralPoolImpl.size GeneralPoolImpl.usable
  rw [same pointer n there]
  exact ⟨rfl, rfl⟩

theorem SameContents.recorded (same : SameContents pool pool') : Recorded pool pool' handed := by
  apply recorded_of_header
  intro pointer _ _
  cases pointer with
  | runtime block => exact congrFun same.runtimeNodes block
  | paged page memory => exact congrFun (same.nodes page) (nodeOf memory)

theorem nodeOf_getMemory (node : Nat) : nodeOf (getMemory node) = node := Nat.add_sub_cancel ..

/-- A page is written to, and the nodes that are handed out keep what they say. -/
theorem Owned.recorded {page' : GeneralPoolPage} (owned : Owned pool offs handed)
    (keeps : ∀ node n, (.paged p (getMemory node), n) ∈ handed → Held (pool.pages p) (offs p) node →
      (page'.nodes node).realSize = ((pool.pages p).nodes node).realSize ∧
        (page'.nodes node).size = ((pool.pages p).nodes node).size) :
    Recorded pool (pool.edit p fun _ => page') handed := by
  rintro ⟨pointer, n⟩ there
  cases pointer with
  | runtime block => exact ⟨rfl, rfl⟩
  | paged page memory =>
      obtain ⟨_, node, rfl, held, _⟩ := owned.paged page memory n there
      unfold GeneralPoolImpl.size GeneralPoolImpl.usable GeneralPoolImpl.header
      dsimp only
      rw [nodeOf_getMemory, GeneralPoolImpl.pages_edit]
      by_cases is : page = p
      · subst is
        rw [if_pos rfl]
        exact keeps node n there held
      · rw [if_neg is]
        exact ⟨rfl, rfl⟩

/-- The node that is taken says what was asked for; the others keep what they say. -/
theorem Owned.take_recorded (owned : Owned pool offs handed) (paged : Paged pool offs available missing)
    (made : p < pool.newPages) (free : node ∈ frees (pool.pages p) (offs p))
    (enough : size ≤ ((pool.pages p).nodes node).size) (realSize : Nat) :
    (pool.edit p (GeneralPoolImpl.take · node size realSize)).size (.paged p (getMemory node)) =
        realSize ∧
      size ≤ (pool.edit p (GeneralPoolImpl.take · node size realSize)).usable
        (.paged p (getMemory node)) ∧
        Recorded pool (pool.edit p (GeneralPoolImpl.take · node size realSize)) handed := by
  have kept := paged.pages p made
  have takes := kept.take free enough realSize
  obtain ⟨member, unallocated⟩ := mem_frees.mp free
  unfold GeneralPoolImpl.size GeneralPoolImpl.usable GeneralPoolImpl.header
  dsimp only
  rw [nodeOf_getMemory, GeneralPoolImpl.pages_edit, if_pos rfl]
  refine ⟨GeneralPoolPage.realSize_take_self .., takes.enough, ?_⟩
  apply owned.recorded
  intro y n there held
  have other : y ≠ node := by
    rintro rfl
    exact takes.fresh held
  refine ⟨GeneralPoolPage.realSize_take _ other ?_, takes.sizes y held⟩
  rintro large rfl
  have apart := Tiles.apart kept.tiles held.1 member other
  have positive := nodeSize_pos
  simp only [getMemory] at apart
  omega

theorem served_isSome (pool : GeneralPoolImpl) (offs : Nat → List Nat) (size p : Nat) :
    (served pool offs size p).isSome ↔ size + nodeSize ≤ (pool.pages p).availableSize ∧
      ∃ node ∈ frees (pool.pages p) (offs p), size ≤ ((pool.pages p).nodes node).size := by
  unfold served
  split
  · rename_i room
    rw [Option.isSome_map, List.find?_isSome, and_iff_right room]
    simp only [decide_eq_true_eq]
  · rename_i room
    exact iff_of_false nofun fun serves => room serves.1

theorem serves_iff (paged : Paged pool offs available missing) (size : Nat) :
    pool.Serves size ↔ (available.findSome? (served pool offs size)).isSome := by
  have length := paged.all.length_eq
  rw [List.length_append, List.length_range] at length
  have chained := paged.linked.chained
  rw [← paged.root] at chained
  have pages := chained.walk (show available.length ≤ pool.newPages by omega)
  have nodes (p : Nat) (member : p ∈ available) : walk (fun node => ((pool.pages p).nodes node).availableNext)
      defaultPageSize (pool.pages p).available = some (frees (pool.pages p) (offs p)) :=
    (paged.pages p (paged.made (List.mem_append_left missing member))).intact.available
  rw [List.findSome?_isSome_iff]
  simp only [served_isSome]
  unfold GeneralPoolImpl.Serves
  constructor
  · rintro ⟨pages', walked, p, member, room, nodes', walked', node, there, large⟩
    cases pages.symm.trans walked
    cases (nodes p member).symm.trans walked'
    exact ⟨p, member, room, node, there, large⟩
  · rintro ⟨p, member, room, node, there, large⟩
    exact ⟨available, pages, p, member, room, _, nodes p member, node, there, large⟩

theorem Owned.allocPage_recorded (owned : Owned pool offs handed)
    (root : pool.availablePage ≠ some pool.newPages) : Recorded pool pool.allocPage handed := by
  obtain ⟨others, _⟩ := GeneralPoolImpl.pages_allocPage root
  obtain ⟨_, _, _, runtimeNodes, _⟩ := GeneralPoolImpl.ends_allocPage pool
  apply recorded_of_header
  intro pointer n there
  cases pointer with
  | runtime block => exact congrFun runtimeNodes block
  | paged page memory =>
      have made := (owned.paged page memory n there).1
      have same := congrArg GeneralPoolPage.nodes (others page (Nat.ne_of_lt made))
      exact congrFun same (nodeOf memory)

/-- A block has room for what was asked for; its header says so unless a new page was made for it. -/
theorem Managed.alloc_recorded (managed : Managed pool handed)
    (result : pool.alloc n = some (pointer, pool')) :
    (pool'.size pointer = n ↔ GeneralPoolImpl.padded n = n ∨
        GeneralPoolImpl.padded n + nodeSize > defaultPageSize ∨
          pool.Serves (GeneralPoolImpl.padded n)) ∧
      n ≤ pool'.usable pointer ∧ Recorded pool pool' handed := by
  obtain ⟨offs, available, missing, paged, counted, owned⟩ := managed
  rw [serves_iff paged]
  rw [GeneralPoolImpl.alloc] at result
  by_cases large : GeneralPoolImpl.padded n + nodeSize > defaultPageSize
  · rw [GeneralPoolImpl.allocFrom, if_pos large] at result
    cases result
    unfold GeneralPoolImpl.size GeneralPoolImpl.usable GeneralPoolImpl.header
    dsimp only
    rw [Function.update_self]
    refine ⟨iff_of_true rfl (.inr (.inl large)), le_padded, ?_⟩
    apply recorded_of_header
    intro pointer n there
    cases pointer with
    | runtime block => exact Function.update_of_ne (Nat.ne_of_lt (owned.runtime block n there).1) _ _
    | paged page memory => rfl
  · have enough : available.length ≤ pool.newPages := by
      have length := paged.all.length_eq
      rw [List.length_append, List.length_range] at length
      omega
    obtain ⟨middle, ends, ⟨same, available', missing', paged', counted', fits⟩, -⟩ :=
      search_ends (GeneralPoolImpl.padded n) [] pool.newPages paged counted enough
    rw [← paged.root] at ends
    generalize available.findSome? (served pool offs (GeneralPoolImpl.padded n)) = found at *
    have owned' := owned.of_same same
    cases found with
    | some found =>
        obtain ⟨p, node⟩ := found
        obtain ⟨member, free, enough⟩ := fits p node rfl
        rw [allocFrom_found large ends] at result
        cases result
        have made := paged'.made (List.mem_append_left missing' member)
        obtain ⟨size, usable, recorded⟩ := owned'.take_recorded paged' made free enough n
        exact ⟨iff_of_true size (.inr (.inr rfl)), le_padded.trans usable,
          same.recorded.trans recorded⟩
    | none =>
        obtain ⟨paged₂, counted₂⟩ := paged'.allocPage counted'
        have searched := search_allocPage paged'.root_ne large
        have large' : ¬GeneralPoolImpl.padded (GeneralPoolImpl.padded n) + nodeSize > defaultPageSize := by
          rwa [padded_padded]
        rw [← @padded_padded n] at searched
        rw [allocFrom_none large ends, allocFrom_found large' searched] at result
        cases result
        have fresh := (GeneralPoolImpl.pages_allocPage paged'.root_ne).2.2.2.2.2.2
        have newPages := (GeneralPoolImpl.ends_allocPage middle).2.2.1
        have made : middle.newPages < middle.allocPage.newPages := by omega
        have free : firstNode ∈ frees (middle.allocPage.pages middle.newPages)
            (Function.update offs middle.newPages [firstNode] middle.newPages) := by
          rw [Function.update_self]
          exact mem_frees.mpr ⟨List.mem_singleton_self _, by rw [fresh]⟩
        have enough : GeneralPoolImpl.padded (GeneralPoolImpl.padded n) ≤
            ((middle.allocPage.pages middle.newPages).nodes firstNode).size := by
          rw [fresh]
          exact Nat.le_sub_of_add_le (Nat.not_lt.mp large')
        obtain ⟨size, usable, recorded⟩ := (owned'.allocPage paged'.root_ne).take_recorded paged₂ made
          free enough (GeneralPoolImpl.padded n)
        have unserved : ¬(none : Option (Nat × Nat)).isSome := Bool.false_ne_true
        rw [size, or_iff_left (not_or.mpr ⟨large, unserved⟩)]
        exact ⟨.rfl, (le_padded.trans le_padded).trans usable,
          same.recorded.trans ((owned'.allocPage_recorded paged'.root_ne).trans recorded)⟩

/-- A page that comes back is relinked, and its misses are forgotten. -/
theorem toAvailable_keeps {β : Type*} (g : GeneralPoolPage → β)
    (keeps : ∀ (p : GeneralPoolPage) prev next miss, g { p with prev, next, miss } = g p)
    (pool : GeneralPoolImpl) (page y : Nat) :
    g ((pool.toAvailable page).pages y) = g (pool.pages y) := by
  have edit {f : GeneralPoolPage → GeneralPoolPage} (same : ∀ p, g (f p) = g p)
      (pool : GeneralPoolImpl) (page y : Nat) : g ((pool.edit page f).pages y) = g (pool.pages y) := by
    rw [GeneralPoolImpl.pages_edit]
    split
    · subst_vars
      exact same _
    · rfl
  have editIf {f : GeneralPoolPage → GeneralPoolPage} (same : ∀ p, g (f p) = g p)
      (pool : GeneralPoolImpl) (page : Option Nat) (y : Nat) :
      g ((pool.editIf page f).pages y) = g (pool.pages y) := by
    cases page with
    | none => rfl
    | some page => exact edit same pool page y
  unfold GeneralPoolImpl.toAvailable
  dsimp only
  split <;> simp [edit, editIf, keeps]

theorem runtimeNodes_toAvailable (pool : GeneralPoolImpl) (page : Nat) :
    (pool.toAvailable page).runtimeNodes = pool.runtimeNodes := by
  unfold GeneralPoolImpl.toAvailable
  dsimp only
  split <;> simp

theorem toAvailable_recorded (pool : GeneralPoolImpl) (page : Nat) :
    Recorded pool (pool.toAvailable page) handed := by
  apply recorded_of_header
  intro pointer _ _
  cases pointer with
  | runtime block => exact congrFun (runtimeNodes_toAvailable pool page) block
  | paged p memory =>
      exact congrFun (toAvailable_keeps (·.nodes) (fun _ _ _ _ => rfl) pool page p) (nodeOf memory)

theorem Owned.others (owned : Owned pool offs handed) (pointer : Pointer) :
    Owned pool offs (others handed pointer) :=
  ⟨fun page memory n there => owned.paged page memory n (others_fewer _ there),
    fun block n there => owned.runtime block n (others_fewer _ there),
    others_distinct owned.distinct _⟩

/-- The header of a block that is not freed is not written to. -/
theorem Managed.free_recorded (managed : Managed pool handed) (ours : pointer ∈ handed.map (·.1))
    (result : pool.free pointer = some pool') :
    Recorded pool pool' (others handed pointer) := by
  obtain ⟨offs, available, missing, paged, counted, owned⟩ := managed
  obtain ⟨⟨pointer, n⟩, there, rfl⟩ := List.mem_map.mp ours
  clear ours
  cases pointer with
  | runtime block =>
      rw [GeneralPoolImpl.free, if_pos (owned.runtime block n there).2] at result
      cases result
      exact fun _ _ => ⟨rfl, rfl⟩
  | paged p memory =>
      obtain ⟨made, node, rfl, held, -⟩ := owned.paged p memory n there
      obtain ⟨merged, row, merges, ended, -, -, sizes, -⟩ := paged.free_held made held
      have recorded : Recorded pool (pool.edit p fun _ => merged)
          (others handed (.paged p (getMemory node))) := by
        apply (owned.others _).recorded
        intro y m there' held'
        have other : y ≠ node := by
          rintro rfl
          exact absurd rfl (of_decide_eq_true (List.mem_filter.mp there').2)
        refine ⟨?_, sizes y other held'⟩
        rw [GeneralPoolPage.realSize_freeMerge merges y]
        rw [nodes_marked, if_neg other]
      cases result.symm.trans ended
      split
      · exact recorded.trans (toAvailable_recorded _ p)
      · exact recorded

/-! ## Sizes of 32 bits -/

/-- `padded` as the least whole number of units. -/
theorem padded_le_iff (n : Nat) {units : Nat} (some : 0 < units) :
    GeneralPoolImpl.padded n ≤ units * minAllocSize ↔ n ≤ units * minAllocSize := by
  refine ⟨le_padded.trans, fun fits => ?_⟩
  rw [GeneralPoolImpl.padded]
  have fits' : (if n < minAllocSize then minAllocSize else n) ≤ units * minAllocSize := by
    split
    · exact Nat.le_mul_of_pos_left _ some
    · exact fits
  generalize (if n < minAllocSize then minAllocSize else n) = m at *
  apply Nat.mul_le_mul_right
  by_cases whole : m % minAllocSize = 0
  · rw [if_pos whole]
    simp only [minAllocSize] at *
    omega
  · rw [if_neg whole]
    simp only [minAllocSize] at *
    omega

theorem unwrapped_iff (n : Nat) : Unwrapped n ↔ n ≤ 2 ^ 32 - 2 * minAllocSize := by
  have least : 2 ^ 32 - 2 * minAllocSize = (2 ^ 27 - 2) * minAllocSize := by decide
  rw [least, ← padded_le_iff n (by decide), ← least, Unwrapped, unsignedInt, unsignedInt]
  obtain ⟨units, -, is, -⟩ := padded_units n
  rw [is]
  simp only [minAllocSize, nodeSize]
  omega

theorem padded_eq_iff (n : Nat) : GeneralPoolImpl.padded n = n ↔ n ≠ 0 ∧ n % minAllocSize = 0 := by
  constructor
  · intro same
    obtain ⟨units, some, is, -⟩ := padded_units n
    rw [← same, is]
    exact ⟨(Nat.mul_pos some (by decide)).ne', Nat.mul_mod_left ..⟩
  · rintro ⟨some, whole⟩
    have units : n / minAllocSize * minAllocSize = n := Nat.div_mul_cancel (Nat.dvd_of_mod_eq_zero whole)
    have positive : 0 < n / minAllocSize := by
      rw [Nat.pos_iff_ne_zero]
      intro none
      rw [none, Nat.zero_mul] at units
      exact some units.symm
    have fits := (padded_le_iff n positive).mpr units.ge
    rw [units] at fits
    exact Nat.le_antisymm fits le_padded

theorem searchFor_eq (size fuel : Nat) (pool : GeneralPoolImpl) (start : Option Nat) :
    GeneralPoolImpl.searchFor (size + nodeSize) size fuel pool start =
      GeneralPoolImpl.search size fuel pool start := by
  induction fuel generalizing pool start with
  | zero => cases start <;> rfl
  | succ fuel ih =>
      cases start with
      | none => rfl
      | some page =>
          simp only [GeneralPoolImpl.searchFor, GeneralPoolImpl.search, ih] <;> rfl

theorem allocWrapped_eq (low : n ≤ 2 ^ 32 - 2 * minAllocSize) (depth : Nat) (pool : GeneralPoolImpl) :
    GeneralPoolImpl.allocWrapped depth pool n = GeneralPoolImpl.allocFrom depth pool n := by
  induction depth generalizing pool n with
  | zero => rfl
  | succ depth ih =>
      obtain ⟨size, sum⟩ := (unwrapped_iff n).mpr low
      have low' : GeneralPoolImpl.padded n ≤ 2 ^ 32 - 2 * minAllocSize := by
        rw [← unwrapped_iff, Unwrapped, padded_padded]
        exact ⟨size, sum⟩
      rw [GeneralPoolImpl.allocWrapped, GeneralPoolImpl.allocFrom]
      simp only [size, sum, searchFor_eq, ih low'] <;> rfl

theorem allocWrapped_mono {depth : Nat} {block : Pointer × GeneralPoolImpl}
    (result : GeneralPoolImpl.allocWrapped depth pool n = some block) (more : Nat) :
    GeneralPoolImpl.allocWrapped (depth + more) pool n = some block := by
  induction depth generalizing pool n with
  | zero => cases result
  | succ depth ih =>
      rw [Nat.add_right_comm, GeneralPoolImpl.allocWrapped]
      rw [GeneralPoolImpl.allocWrapped] at result
      dsimp only at result ⊢
      split at result
      · rename_i large
        rw [if_pos large]
        exact result
      · rename_i small
        rw [if_neg small]
        split at result
        · cases result
        · exact result
        · exact ih result

/-- How deep the calls are nested does not matter. -/
theorem returns_unique {depth : Nat} {block : Pointer × GeneralPoolImpl}
    (result : GeneralPoolImpl.allocWrapped depth pool n = some block)
    (returns : pool.Returns n pointer pool') : (pointer, pool') = block := by
  obtain ⟨depth', result'⟩ := returns
  have left := allocWrapped_mono result depth'
  have right := allocWrapped_mono result' depth
  rw [Nat.add_comm, right] at left
  exact Option.some.inj left

theorem returns_iff (managed : Managed pool handed) (low : n ≤ 2 ^ 32 - 2 * minAllocSize) :
    pool.Returns n pointer pool' ↔ pool.alloc n = some (pointer, pool') := by
  constructor
  · intro returns
    obtain ⟨pointer', pool'', is, -⟩ := managed.alloc n
    rw [is, returns_unique ((allocWrapped_eq low 2 pool).trans is) returns]
  · intro result
    exact ⟨2, (allocWrapped_eq low 2 pool).trans result⟩

end Blocks

section Runs

variable {r r' : PoolRun} {call : PoolCall} {calls : List PoolCall}

/-- A block that is returned has room, and says what was asked for if that is served well. -/
theorem Managed.returns (managed : Managed r.pool r.handed) {n : Nat}
    (low : n ≤ 2 ^ 32 - 2 * minAllocSize) {pointer : Pointer} {pool : GeneralPoolImpl}
    (returns : r.pool.Returns n pointer pool) :
    Managed pool ((pointer, n) :: r.handed) ∧ (pool.size pointer = n ↔ r.SizesWell n) ∧
      n ≤ pool.usable pointer ∧ Recorded r.pool pool r.handed := by
  have result := (returns_iff managed low).mp returns
  obtain ⟨pointer', pool', result', managed'⟩ := managed.alloc n
  cases result.symm.trans result'
  obtain ⟨size, usable, recorded⟩ := managed.alloc_recorded result
  rw [padded_eq_iff] at size
  exact ⟨managed', size.trans ⟨.mk low, PoolRun.SizesWell.served⟩, usable, recorded⟩

/-- A block that is handed out afterwards says what it said before, or it is the one that was asked
for. -/
theorem Managed.move (managed : Managed r.pool r.handed) (calm : r.Calm call)
    (moves : r.Moves call r') : Managed r'.pool r'.handed ∧ ∀ block ∈ r'.handed,
      block ∈ r.handed ∧ r'.pool.size block.1 = r.pool.size block.1 ∧
          r'.pool.usable block.1 = r.pool.usable block.1 ∨
        call = .alloc block.2 ∧ block.2 ≤ r'.pool.usable block.1 ∧
          (r'.pool.size block.1 = block.2 ↔ r.SizesWell block.2) := by
  cases moves with
  | alloc _ returns =>
      obtain ⟨managed', size, usable, recorded⟩ := managed.returns calm returns
      refine ⟨managed', fun block there => ?_⟩
      rcases List.mem_cons.mp there with rfl | there
      · exact .inr ⟨rfl, usable, size⟩
      · exact .inl ⟨there, recorded block there⟩
  | @free pointer pool ours returns =>
      obtain ⟨pool', result', managed'⟩ := managed.free ours
      cases returns.symm.trans result'
      refine ⟨managed', fun block there => .inl ⟨others_fewer block there, ?_⟩⟩
      exact managed.free_recorded ours returns block there

theorem Managed.guarantees_iff (managed : Managed r.pool r.handed) (n : Nat) :
    r.Guarantees n ↔ r.SizesWell n := by
  constructor
  · rintro ⟨unwrapped, guarantees⟩
    have low := (unwrapped_iff n).mp unwrapped
    obtain ⟨pointer, pool, result, -⟩ := managed.alloc n
    have returns := (returns_iff managed low).mpr result
    exact (managed.returns low returns).2.1.mp (guarantees pointer pool returns).2.2.2
  · intro well
    refine ⟨(unwrapped_iff n).mpr well.low, fun pointer pool returns => ?_⟩
    obtain ⟨managed', size, usable, -⟩ := managed.returns well.low returns
    obtain ⟨-, -, inside, apart⟩ := managed'.intact
    exact ⟨usable, inside _ List.mem_cons_self, (List.pairwise_cons.mp apart).1, size.mpr well⟩

theorem run_roomy (run : Run (Guarded PoolRun.Calm PoolRun.Moves) {} calls r) :
    Managed r.pool r.handed ∧ ∀ block ∈ r.handed, block.2 ≤ r.pool.usable block.1 := by
  refine run.invariant (I := fun r => Managed r.pool r.handed ∧
    ∀ block ∈ r.handed, block.2 ≤ r.pool.usable block.1) ⟨Managed.init, by simp⟩ ?_
  rintro r call r' ⟨managed, room⟩ ⟨calm, moves⟩
  obtain ⟨managed', blocks⟩ := managed.move calm moves
  refine ⟨managed', fun block there => ?_⟩
  rcases blocks block there with ⟨before, _, usable⟩ | ⟨_, usable, _⟩
  · rw [usable]
    exact room block before
  · exact usable

theorem WellSized.calm (well : r.WellSized call) : r.Calm call := by
  cases call with
  | alloc n => exact well.low
  | free pointer => exact well

theorem run_wellSized (run : Run (Guarded PoolRun.WellSized PoolRun.Moves) {} calls r) :
    Managed r.pool r.handed ∧ ∀ block ∈ r.handed, r.pool.size block.1 = block.2 := by
  refine run.invariant (I := fun r => Managed r.pool r.handed ∧
    ∀ block ∈ r.handed, r.pool.size block.1 = block.2) ⟨Managed.init, by simp⟩ ?_
  rintro r call r' ⟨managed, sized⟩ ⟨well, moves⟩
  obtain ⟨managed', blocks⟩ := managed.move (WellSized.calm well) moves
  refine ⟨managed', fun block there => ?_⟩
  rcases blocks block there with ⟨before, size, _⟩ | ⟨rfl, _, size⟩
  · rw [size]
    exact sized block before
  · exact size.mpr well

end Runs

/-- In every run of calls that compute without wrapping around the pool is in order and every block
has room for what was asked for; the next request is given what it is promised exactly if it is
sized well, and where all requests were, `size` of every block is what was asked for. -/
theorem run_sizes {r : PoolRun} {calls : List PoolCall}
    (run : Run (Guarded PoolRun.Calm PoolRun.Moves) {} calls r) :
    r.Intact ∧ (∀ n, r.Guarantees n ↔ r.SizesWell n) ∧
      (∀ block ∈ r.handed, block.2 ≤ r.pool.usable block.1) ∧
        (Run (Guarded PoolRun.WellSized PoolRun.Moves) {} calls r →
          ∀ block ∈ r.handed, r.pool.size block.1 = block.2) := by
  obtain ⟨managed, room⟩ := run_roomy run
  exact ⟨managed.intact, managed.guarantees_iff, room, fun well => (run_wellSized well).2⟩

/-- Whole units, more than a page, and a size that the rest of the page serves. -/
theorem keptSizes_sized : ∃ r : PoolRun,
    Run (Guarded PoolRun.Calm PoolRun.Moves) {} [.alloc 96] r ∧
      r.handed = [(.paged 0 32, 96)] ∧ r.Guarantees 16000 ∧ r.Guarantees 20000 := by
  obtain ⟨⟨pointer, pool⟩, result, is⟩ : ∃ block, GeneralPoolImpl.allocWrapped 1 .init 96 = some block ∧
      block.1 = .paged 0 32 := by
    apply Option.map_eq_some_iff.mp
    decide
  dsimp only at is
  subst is
  have run : Run (Guarded PoolRun.Calm PoolRun.Moves) {} [.alloc 96]
      { pool, handed := [(.paged 0 32, 96)] } :=
    .next .start ⟨by unfold PoolRun.Calm; decide, .alloc (by decide) ⟨1, result⟩⟩
  obtain ⟨_, sizes, _⟩ := run_sizes run
  exact ⟨_, run, rfl, (sizes 16000).mpr ⟨by decide, .inl (by decide)⟩,
    (sizes 20000).mpr ⟨by decide, .inl (by decide)⟩⟩

/-- A new page is made for 1001 bytes, with a second `alloc` for what they were rounded up to. -/
theorem afterLarge_rounded : ¬∀ (calls : List PoolCall) (r : PoolRun),
    Run PoolRun.Moves {} calls r → ∀ n < 2 ^ 32, r.Guarantees n := by
  intro guarantees
  obtain ⟨⟨pointer, pool⟩, first, second⟩ : ∃ block,
      GeneralPoolImpl.allocWrapped 1 .init 16000 = some block ∧
        (GeneralPoolImpl.allocWrapped 2 block.2 1001).map (fun block => block.2.size block.1) =
          some 1024 := by
    apply Option.bind_eq_some_iff.mp
    decide
  obtain ⟨⟨pointer', pool'⟩, second, size⟩ := Option.map_eq_some_iff.mp second
  have run : Run PoolRun.Moves {} [.alloc 16000]
      { pool, handed := [(pointer, 16000)] } := .next .start (.alloc (by decide) ⟨1, first⟩)
  have size' := ((guarantees _ _ run 1001 (by decide)).2 pointer' pool' ⟨2, second⟩).2.2.2
  rw [size'] at size
  cases size

end Cgsf.Proof.BaseLayer
