import Cgsf.Library.Transition
import Cgsf.Proof.BaseLayer.PoolPage

/-!
# The pool keeps its pages in order

Every page is in one of the two lists, the missing pages being those that were found too full too
often, and every block that is handed out is the memory of a node of a page.
-/

namespace Cgsf.Proof.BaseLayer
open Cgsf.BaseLayer Library

namespace GeneralPoolImpl

variable {pool : GeneralPoolImpl} {page y : Nat} {f : GeneralPoolPage → GeneralPoolPage}

theorem pages_edit (pool : GeneralPoolImpl) (page : Nat) (f : GeneralPoolPage → GeneralPoolPage)
    (y : Nat) : (pool.edit page f).pages y =
    if y = page then f (pool.pages page) else pool.pages y := by
  simp only [GeneralPoolImpl.edit, Function.update_apply]

theorem pages_editIf {page : Option Nat} : (pool.editIf page f).pages y =
    if page = some y then f (pool.pages y) else pool.pages y := by
  cases page with
  | none => simp [GeneralPoolImpl.editIf]
  | some page =>
      simp only [GeneralPoolImpl.editIf, pages_edit, Option.some.injEq]
      grind

@[simp] theorem ends_edit (pool : GeneralPoolImpl) (page : Nat)
    (f : GeneralPoolPage → GeneralPoolPage) : (pool.edit page f).availablePage = pool.availablePage ∧
    (pool.edit page f).missingPage = pool.missingPage ∧
    (pool.edit page f).newPages = pool.newPages ∧
    (pool.edit page f).runtimeNodes = pool.runtimeNodes ∧
    (pool.edit page f).newRuntime = pool.newRuntime := ⟨rfl, rfl, rfl, rfl, rfl⟩

@[simp] theorem ends_editIf {page : Option Nat} :
    (pool.editIf page f).availablePage = pool.availablePage ∧
    (pool.editIf page f).missingPage = pool.missingPage ∧
    (pool.editIf page f).newPages = pool.newPages ∧
    (pool.editIf page f).runtimeNodes = pool.runtimeNodes ∧
    (pool.editIf page f).newRuntime = pool.newRuntime := by
  cases page <;> exact ⟨rfl, rfl, rfl, rfl, rfl⟩

theorem pages_toMissing (y : Nat) (prev : (pool.pages page).prev ≠ some page)
    (next : (pool.pages page).next ≠ some page) (root : pool.missingPage ≠ some page) :
    (pool.toMissing page).pages y = if y = page
      then { pool.pages page with prev := none, next := pool.missingPage }
      else { pool.pages y with
        next := if (pool.pages page).prev = some y then (pool.pages page).next
          else (pool.pages y).next
        prev := if pool.missingPage = some y then some page
          else if (pool.pages page).next = some y then (pool.pages page).prev
          else (pool.pages y).prev } := by
  rw [GeneralPoolImpl.toMissing]
  by_cases first : pool.availablePage = some page <;> by_cases is : y = page <;>
    simp [pages_edit, pages_editIf, *]
  all_goals ext1 <;> grind

theorem ends_toMissing (pool : GeneralPoolImpl) (page : Nat) : (pool.toMissing page).availablePage =
      (if pool.availablePage = some page then (pool.pages page).next else pool.availablePage) ∧
    (pool.toMissing page).missingPage = some page ∧
    (pool.toMissing page).newPages = pool.newPages ∧
    (pool.toMissing page).runtimeNodes = pool.runtimeNodes ∧
    (pool.toMissing page).newRuntime = pool.newRuntime := by
  rw [GeneralPoolImpl.toMissing]
  by_cases first : pool.availablePage = some page <;> simp [first]

theorem pages_toAvailable (prev : (pool.pages page).prev ≠ some page)
    (next : (pool.pages page).next ≠ some page) (root : pool.availablePage ≠ some page) :
    (pool.toAvailable page).pages y = if y = page
      then { pool.pages page with prev := none, next := pool.availablePage, miss := 0 }
      else { pool.pages y with
        next := if (pool.pages page).prev = some y then (pool.pages page).next
          else (pool.pages y).next
        prev := if pool.availablePage = some y then some page
          else if (pool.pages page).next = some y then (pool.pages page).prev
          else (pool.pages y).prev } := by
  rw [GeneralPoolImpl.toAvailable]
  by_cases first : pool.missingPage = some page <;> by_cases is : y = page <;>
    simp [pages_edit, pages_editIf, *]
  all_goals ext1 <;> grind

theorem ends_toAvailable (prev : (pool.pages page).prev ≠ some page)
    (next : (pool.pages page).next ≠ some page) : (pool.toAvailable page).missingPage =
      (if pool.missingPage = some page then (pool.pages page).next else pool.missingPage) ∧
    (pool.toAvailable page).availablePage = some page ∧
    (pool.toAvailable page).newPages = pool.newPages ∧
    (pool.toAvailable page).runtimeNodes = pool.runtimeNodes ∧
    (pool.toAvailable page).newRuntime = pool.newRuntime := by
  rw [GeneralPoolImpl.toAvailable]
  by_cases first : pool.missingPage = some page <;> simp [pages_edit, pages_editIf, *]

/-- The first page of the list gets another one before it. -/
theorem pages_allocPage (root : pool.availablePage ≠ some pool.newPages) :
    (∀ y, y ≠ pool.newPages → pool.allocPage.pages y = { pool.pages y with
      prev := if pool.availablePage = some y then some pool.newPages else (pool.pages y).prev }) ∧
    (pool.allocPage.pages pool.newPages).prev = none ∧
    (pool.allocPage.pages pool.newPages).next = pool.availablePage ∧
    (pool.allocPage.pages pool.newPages).miss = 0 ∧
    (pool.allocPage.pages pool.newPages).available = some firstNode ∧
    (pool.allocPage.pages pool.newPages).availableSize = defaultPageSize ∧
    (pool.allocPage.pages pool.newPages).nodes firstNode =
      { owner := some pool.newPages, size := defaultPageSize - nodeSize } := by
  rw [GeneralPoolImpl.allocPage]
  refine ⟨fun y other => ?_, ?_, ?_, ?_, ?_, ?_, ?_⟩
  · simp [pages_edit, pages_editIf, other]
    ext1 <;> grind
  all_goals simp [pages_edit, pages_editIf, root, GeneralPoolPage.edit, GeneralPoolNode.clear]

theorem ends_allocPage (pool : GeneralPoolImpl) : pool.allocPage.availablePage = some pool.newPages ∧
    pool.allocPage.missingPage = pool.missingPage ∧
    pool.allocPage.newPages = pool.newPages + 1 ∧
    pool.allocPage.runtimeNodes = pool.runtimeNodes ∧
    pool.allocPage.newRuntime = pool.newRuntime := by
  simp [GeneralPoolImpl.allocPage]

end GeneralPoolImpl

/-! ## The two lists -/

/-- The pages share out into two lists, and each is in order. -/
structure Paged (pool : GeneralPoolImpl) (offs : Nat → List Nat) (available missing : List Nat) :
    Prop where
  linked : Threaded (fun p => (pool.pages p).next) (fun p => (pool.pages p).prev) none available none
  linkedMissing : Threaded (fun p => (pool.pages p).next) (fun p => (pool.pages p).prev) none missing
    none
  root : pool.availablePage = available.head?
  rootMissing : pool.missingPage = missing.head?
  all : (available ++ missing).Perm (List.range pool.newPages)
  pages : ∀ p < pool.newPages, Kept (pool.pages p) p (offs p)

/-- The missing pages are those with too many misses. -/
structure Counted (pool : GeneralPoolImpl) (available missing : List Nat) : Prop where
  low : ∀ p ∈ available, (pool.pages p).miss ≤ maxMissCount
  high : ∀ p ∈ missing, maxMissCount < (pool.pages p).miss

/-- Nothing in the pages has changed. -/
structure SameContents (pool pool' : GeneralPoolImpl) : Prop where
  nodes : ∀ p, (pool'.pages p).nodes = (pool.pages p).nodes
  available : ∀ p, (pool'.pages p).available = (pool.pages p).available
  newPages : pool'.newPages = pool.newPages
  runtimeNodes : pool'.runtimeNodes = pool.runtimeNodes
  newRuntime : pool'.newRuntime = pool.newRuntime

theorem SameContents.trans {first second third : GeneralPoolImpl} (same : SameContents first second)
    (same' : SameContents second third) : SameContents first third :=
  ⟨fun p => (same'.nodes p).trans (same.nodes p),
    fun p => (same'.available p).trans (same.available p), same'.newPages.trans same.newPages,
    same'.runtimeNodes.trans same.runtimeNodes, same'.newRuntime.trans same.newRuntime⟩

section Lists

variable {pool pool' : GeneralPoolImpl} {offs : Nat → List Nat}
  {available missing before after : List Nat} {p : Nat}

namespace Paged

theorem nodup (paged : Paged pool offs available missing) : (available ++ missing).Nodup :=
  paged.all.nodup_iff.mpr List.nodup_range

theorem kept_of_same (paged : Paged pool offs available missing)
    (same : SameContents pool pool') : ∀ p < pool'.newPages, Kept (pool'.pages p) p (offs p) := by
  intro p made
  rw [same.newPages] at made
  exact (paged.pages p made).congr (fun y => ⟨_, by rw [same.nodes]⟩) (same.available p)

theorem toMissing (paged : Paged pool offs (before ++ p :: after) missing) :
    Paged (pool.toMissing p) offs (before ++ after) (p :: missing) ∧
      SameContents pool (pool.toMissing p) ∧
      (∀ y, ((pool.toMissing p).pages y).miss = (pool.pages y).miss) ∧
        ∀ y, ((pool.toMissing p).pages y).availableSize = (pool.pages y).availableSize := by
  obtain ⟨here, -, apart⟩ := List.nodup_append.mp paged.nodup
  have fresh := (List.nodup_cons.mp (List.nodup_middle.mp here)).1
  obtain ⟨prev, next⟩ := paged.linked.at_cell
  have form := fun y => GeneralPoolImpl.pages_toMissing y
    (show (pool.pages p).prev ≠ some p by
      rw [prev]
      exact fun is => fresh (List.mem_append_left _ (List.mem_of_mem_getLast? is)))
    (by
      rw [next]
      exact fun is => fresh (List.mem_append_right _ (List.mem_of_mem_head? is)))
    (by
      rw [paged.rootMissing]
      exact fun is => apart p (by simp) p (List.mem_of_mem_head? is) rfl)
  obtain ⟨root, rootMissing, newPages, runtimeNodes, newRuntime⟩ :=
    GeneralPoolImpl.ends_toMissing pool p
  generalize pool.toMissing p = pool' at *
  have same : SameContents pool pool' := by
    refine ⟨fun y => ?_, fun y => ?_, newPages, runtimeNodes, newRuntime⟩ <;> rw [form] <;>
      split <;> subst_vars <;> rfl
  have moved : Threaded (fun p => (pool'.pages p).next) (fun p => (pool'.pages p).prev) none
        (before ++ after) none ∧
      Threaded (fun p => (pool'.pages p).next) (fun p => (pool'.pages p).prev) none
        (p :: missing) none :=
    paged.linked.move paged.linkedMissing paged.nodup
      (by simp only [form, if_true, paged.rootMissing])
      (by simp only [form, if_true])
      (fun y other => by simp only [form, if_neg other, prev, next])
      fun y other => by simp only [form, if_neg other, prev, next, paged.rootMissing]
  refine ⟨⟨moved.1, moved.2, ?_, rootMissing, ?_, paged.kept_of_same same⟩, same, fun y => ?_,
    fun y => ?_⟩
  · rw [root, paged.root, next]
    cases before with
    | nil => simp
    | cons first before =>
        have other : first ≠ p := fun is => fresh (by simp [is])
        simp [other]
  · rw [newPages]
    refine List.Perm.trans ?_ paged.all
    simpa using List.Perm.append_left before List.perm_middle
  · rw [form]
    split <;> subst_vars <;> rfl
  · rw [form]
    split <;> subst_vars <;> rfl

theorem toAvailable (paged : Paged pool offs available (before ++ p :: after)) :
    Paged (pool.toAvailable p) offs (p :: available) (before ++ after) ∧
      SameContents pool (pool.toAvailable p) ∧ ((pool.toAvailable p).pages p).miss = 0 ∧
      ∀ y, y ≠ p → ((pool.toAvailable p).pages y).miss = (pool.pages y).miss := by
  have nodup := (List.perm_append_comm.nodup_iff.mp paged.nodup)
  obtain ⟨here, -, apart⟩ := List.nodup_append.mp nodup
  have fresh := (List.nodup_cons.mp (List.nodup_middle.mp here)).1
  obtain ⟨prev, next⟩ := paged.linkedMissing.at_cell
  have prev_ne : (pool.pages p).prev ≠ some p := by
    rw [prev]
    exact fun is => fresh (List.mem_append_left _ (List.mem_of_mem_getLast? is))
  have next_ne : (pool.pages p).next ≠ some p := by
    rw [next]
    exact fun is => fresh (List.mem_append_right _ (List.mem_of_mem_head? is))
  have form := fun y => GeneralPoolImpl.pages_toAvailable (y := y) prev_ne next_ne (by
    rw [paged.root]
    exact fun is => apart p (by simp) p (List.mem_of_mem_head? is) rfl)
  obtain ⟨rootMissing, root, newPages, runtimeNodes, newRuntime⟩ :=
    GeneralPoolImpl.ends_toAvailable prev_ne next_ne
  generalize pool.toAvailable p = pool' at *
  have same : SameContents pool pool' := by
    refine ⟨fun y => ?_, fun y => ?_, newPages, runtimeNodes, newRuntime⟩ <;> rw [form] <;>
      split <;> subst_vars <;> rfl
  have moved : Threaded (fun p => (pool'.pages p).next) (fun p => (pool'.pages p).prev) none
        (before ++ after) none ∧
      Threaded (fun p => (pool'.pages p).next) (fun p => (pool'.pages p).prev) none
        (p :: available) none :=
    paged.linkedMissing.move paged.linked nodup
      (by simp only [form, if_true, paged.root])
      (by simp only [form, if_true])
      (fun y other => by simp only [form, if_neg other, prev, next])
      fun y other => by simp only [form, if_neg other, prev, next, paged.root]
  refine ⟨⟨moved.2, moved.1, root, ?_, ?_, paged.kept_of_same same⟩, same, ?_, fun y other => ?_⟩
  · rw [rootMissing, paged.rootMissing, next]
    cases before with
    | nil => simp
    | cons first before =>
        have other : first ≠ p := fun is => fresh (by simp [is])
        simp [other]
  · rw [newPages]
    refine List.Perm.trans ?_ paged.all
    simpa using (@List.perm_middle _ p (available ++ before) after).symm
  · rw [form, if_pos rfl]
  · rw [form, if_neg other]

/-- The one node of a new page. -/
theorem kept_new {page : GeneralPoolPage}
    (node : page.nodes firstNode = { owner := some p, size := defaultPageSize - nodeSize })
    (root : page.available = some firstNode) : Kept page p [firstNode] := by
  have one : frees page [firstNode] = [firstNode] := by
    rw [frees_cons_free (by rw [node])]
    rfl
  refine ⟨⟨?_, ?_, trivial⟩, rfl, ⟨rfl, ?_⟩, ?_, ?_, ?_, List.isChain_singleton _, ?_⟩
  · simp only [node]
  · simp only [node]
    rfl
  · rw [node]
    rfl
  · rw [one]
    exact ⟨by simp only [node], by simp only [node]; rfl, trivial⟩
  · rw [root, one]
    rfl
  · intro n member allocated
    obtain rfl := List.mem_singleton.mp member
    rw [node] at allocated
    contradiction
  · intro n member
    obtain rfl := List.mem_singleton.mp member
    rw [node]

theorem made (paged : Paged pool offs available missing) {y : Nat}
    (member : y ∈ available ++ missing) : y < pool.newPages :=
  List.mem_range.mp (paged.all.mem_iff.mp member)

theorem root_ne (paged : Paged pool offs available missing) :
    pool.availablePage ≠ some pool.newPages := by
  rw [paged.root]
  exact fun is => Nat.lt_irrefl _
    (paged.made (List.mem_append_left _ (List.mem_of_mem_head? is)))

theorem allocPage (paged : Paged pool offs available missing)
    (counted : Counted pool available missing) :
    Paged pool.allocPage (Function.update offs pool.newPages [firstNode])
        (pool.newPages :: available) missing ∧
      Counted pool.allocPage (pool.newPages :: available) missing := by
  obtain ⟨others, prev, next, miss, root, -, node⟩ :=
    GeneralPoolImpl.pages_allocPage paged.root_ne
  obtain ⟨first, firstMissing, newPages, -, -⟩ := GeneralPoolImpl.ends_allocPage pool
  have other (y : Nat) (member : y ∈ available ++ missing) : y ≠ pool.newPages :=
    Nat.ne_of_lt (paged.made member)
  have apart := (List.nodup_append.mp paged.nodup).2.2
  refine ⟨⟨?_, ?_, by rw [first]; rfl, by rw [firstMissing, paged.rootMissing], ?_, ?_⟩, ?_, ?_⟩
  · have linked : Threaded (fun p => (pool.pages p).next) (fun p => (pool.pages p).prev) none
        ([] ++ available) none := paged.linked
    refine linked.link ?_ prev ?_ (by simp) (fun y is => ?_) (fun y member _ => ?_)
      fun y member inner => ?_
    · have nodup := (List.nodup_append.mp paged.nodup).1
      exact List.nodup_cons.mpr ⟨fun member => other _ (List.mem_append_left _ member) rfl, nodup⟩
    · rw [next, paged.root]
    · rw [others y (other y (List.mem_append_left _ (List.mem_of_mem_head? is)))]
      exact if_pos (paged.root.trans is)
    · rw [others y (other y (List.mem_append_left _ member))]
    · rw [others y (other y (List.mem_append_left _ member))]
      exact if_neg fun is => inner (paged.root.symm.trans is)
  · refine paged.linkedMissing.congr (fun y member => ?_) fun y member => ?_ <;>
      rw [others y (other y (List.mem_append_right _ member))]
    refine if_neg fun is => ?_
    rw [paged.root] at is
    exact apart y (List.mem_of_mem_head? is) y member rfl
  · rw [newPages, List.range_succ, List.cons_append]
    exact (paged.all.cons _).trans (List.perm_append_singleton _ _).symm
  · intro p made
    by_cases new : p = pool.newPages
    · subst new
      rw [Function.update_self]
      exact kept_new node root
    · rw [Function.update_of_ne new, others p new]
      exact (paged.pages p (by omega)).congr (fun y => ⟨_, rfl⟩) rfl
  · intro p member
    rcases List.mem_cons.mp member with rfl | member
    · rw [miss]
      exact Nat.zero_le _
    · rw [others p (other p (List.mem_append_left _ member))]
      exact counted.low p member
  · intro p member
    rw [others p (other p (List.mem_append_right _ member))]
    exact counted.high p member

end Paged

/-- The nodes that a page looks through are those that are free. -/
theorem fitting_ends {page : GeneralPoolPage} {size : Nat} {start : Option Nat} {xs : List Nat}
    (chained : Chained (fun n => (page.nodes n).availableNext) start xs) {fuel : Nat}
    (enough : xs.length ≤ fuel) : GeneralPoolImpl.fitting page size fuel start =
      some (xs.find? fun n => size ≤ (page.nodes n).size) := by
  induction xs generalizing start fuel with
  | nil =>
      obtain rfl : start = none := chained
      cases fuel <;> rfl
  | cons x xs ih =>
      obtain ⟨rfl, rest⟩ := chained
      cases fuel with
      | zero => exact absurd enough (Nat.not_succ_le_zero _)
      | succ fuel =>
          rw [GeneralPoolImpl.fitting]
          split
          · rename_i fits
            have found := decide_eq_true (show size ≤ (page.nodes x).size from fits)
            rw [List.find?_cons, found]
          · rename_i small
            rw [List.find?_cons_of_neg (by simpa using small)]
            exact ih rest (Nat.le_of_succ_le_succ enough)

theorem Kept.fitting {page : GeneralPoolPage} {row : List Nat} (kept : Kept page p row)
    (size : Nat) : GeneralPoolImpl.fitting page size defaultPageSize page.available =
      some ((frees page row).find? fun n => size ≤ (page.nodes n).size) := by
  have chained := kept.available.chained
  rw [← kept.root] at chained
  refine fitting_ends chained ?_
  have size := (Tiles.within kept.tiles).1
  have shorter : (frees page row).length ≤ row.length := List.length_filter_le ..
  omega

/-- A page is counted as too full. -/
theorem Paged.missed (paged : Paged pool offs available missing) (p : Nat) :
    Paged (pool.edit p fun page => { page with miss := (pool.pages p).miss + 1 }) offs available
        missing ∧
      SameContents pool (pool.edit p fun page => { page with miss := (pool.pages p).miss + 1 }) := by
  have form := GeneralPoolImpl.pages_edit pool p fun page =>
    { page with miss := (pool.pages p).miss + 1 }
  obtain ⟨root, rootMissing, newPages, runtimeNodes, newRuntime⟩ := GeneralPoolImpl.ends_edit
    pool p fun page => { page with miss := (pool.pages p).miss + 1 }
  generalize pool.edit p _ = pool' at *
  have same : SameContents pool pool' := by
    refine ⟨fun y => ?_, fun y => ?_, newPages, runtimeNodes, newRuntime⟩ <;> rw [form] <;>
      split <;> subst_vars <;> rfl
  refine ⟨⟨?_, ?_, root.trans paged.root, rootMissing.trans paged.rootMissing, ?_,
    paged.kept_of_same same⟩, same⟩
  · refine paged.linked.congr (fun y _ => ?_) fun y _ => ?_ <;> rw [form] <;> split <;>
      subst_vars <;> rfl
  · refine paged.linkedMissing.congr (fun y _ => ?_) fun y _ => ?_ <;> rw [form] <;> split <;>
      subst_vars <;> rfl
  · rw [newPages]
    exact paged.all

/-- The first free node of a page that is large enough, if the page admits to one. -/
def served (pool : GeneralPoolImpl) (offs : Nat → List Nat) (size p : Nat) : Option (Nat × Nat) :=
  if size + nodeSize ≤ (pool.pages p).availableSize then
    ((frees (pool.pages p) (offs p)).find? fun n => size ≤ ((pool.pages p).nodes n).size).map (p, ·)
  else none

theorem served_congr (same : SameContents pool pool')
    (sizes : ∀ p, (pool'.pages p).availableSize = (pool.pages p).availableSize) (size : Nat) :
    served pool' offs size = served pool offs size := by
  funext p
  unfold served frees
  rw [same.nodes, sizes]

theorem of_served {size n p' : Nat} (serves : served pool offs size p = some (p', n)) : p = p' ∧
    size + nodeSize ≤ (pool.pages p).availableSize ∧ n ∈ frees (pool.pages p) (offs p) ∧
      size ≤ ((pool.pages p).nodes n).size := by
  unfold served at serves
  split at serves
  · rename_i room
    obtain ⟨n', found, is⟩ := Option.map_eq_some_iff.mp serves
    cases is
    exact ⟨rfl, room, List.mem_of_find?_eq_some found,
      by simpa using List.find?_some found⟩
  · cases serves

/-- What the loop over the available pages comes back with. -/
structure Searched (pool : GeneralPoolImpl) (offs : Nat → List Nat) (size : Nat)
    (pool' : GeneralPoolImpl) (found : Option (Nat × Nat)) : Prop where
  same : SameContents pool pool'
  paged : ∃ available missing, Paged pool' offs available missing ∧ Counted pool' available missing ∧
    ∀ p n, found = some (p, n) → p ∈ available ∧ n ∈ frees (pool'.pages p) (offs p) ∧
      size ≤ ((pool'.pages p).nodes n).size

theorem Searched.of_same {size : Nat} {found : Option (Nat × Nat)} {pool₁ : GeneralPoolImpl}
    (searched : Searched pool₁ offs size pool' found) (same : SameContents pool pool₁) :
    Searched pool offs size pool' found :=
  ⟨same.trans searched.same, searched.paged⟩

/-- The loop over the available pages ends, and moves only pages from one list to the other. -/
theorem search_ends (size : Nat) (before : List Nat) (fuel : Nat)
    (paged : Paged pool offs (before ++ after) missing)
    (counted : Counted pool (before ++ after) missing) (enough : after.length ≤ fuel) :
    ∃ pool', GeneralPoolImpl.search size fuel pool after.head? =
        some (pool', after.findSome? (served pool offs size)) ∧
      Searched pool offs size pool' (after.findSome? (served pool offs size)) ∧
        ∀ p, (pool'.pages p).availableSize = (pool.pages p).availableSize := by
  induction after generalizing pool before missing fuel with
  | nil =>
      rw [List.append_nil] at paged counted
      refine ⟨pool, by cases fuel <;> rfl, ⟨⟨fun _ => rfl, fun _ => rfl, rfl, rfl, rfl⟩, before,
        missing, paged, counted, fun p n is => ?_⟩, fun _ => rfl⟩
      contradiction
  | cons x after ih =>
      cases fuel with
      | zero => exact absurd enough (Nat.not_succ_le_zero _)
      | succ fuel =>
          have enough := Nat.le_of_succ_le_succ enough
          have next := paged.linked.at_cell.2
          have last : before ++ x :: after = (before ++ [x]) ++ after := by simp
          have member : x ∈ before ++ x :: after := by simp
          rw [List.head?_cons, GeneralPoolImpl.search, List.findSome?_cons]
          have fits := (paged.pages x (paged.made (List.mem_append_left _ member))).fitting size
          split
          · rename_i room
            rw [fits]
            have serves : served pool offs size x = ((frees (pool.pages x) (offs x)).find? fun n =>
                size ≤ ((pool.pages x).nodes n).size).map (x, ·) := if_pos room
            cases found : (frees (pool.pages x) (offs x)).find? fun n =>
                size ≤ ((pool.pages x).nodes n).size with
            | some n =>
                rw [found] at serves
                rw [serves]
                refine ⟨pool, rfl, ⟨⟨fun _ => rfl, fun _ => rfl, rfl, rfl, rfl⟩,
                  before ++ x :: after, missing, paged, counted, fun p m is => ?_⟩, fun _ => rfl⟩
                cases is
                exact ⟨member, (of_served serves).2.2⟩
            | none =>
                rw [found] at serves
                rw [serves]
                dsimp only [Option.map_none]
                rw [next]
                rw [last] at paged counted
                exact ih _ fuel paged counted enough
          · rename_i room
            have unserved : served pool offs size x = none := if_neg room
            rw [unserved]
            obtain ⟨paged', same⟩ := paged.missed x
            have misses (y : Nat) : ((pool.edit x fun page => { page with
                miss := (pool.pages x).miss + 1 }).pages y).miss =
                  if y = x then (pool.pages x).miss + 1 else (pool.pages y).miss := by
              rw [GeneralPoolImpl.pages_edit]
              split <;> rfl
            have sizes (y : Nat) : ((pool.edit x fun page => { page with
                miss := (pool.pages x).miss + 1 }).pages y).availableSize =
                  (pool.pages y).availableSize := by
              rw [GeneralPoolImpl.pages_edit]
              split <;> subst_vars <;> rfl
            dsimp only
            generalize pool.edit x _ = pool' at *
            have others (y : Nat) (other : y ≠ x) : (pool'.pages y).miss = (pool.pages y).miss :=
              (misses y).trans (if_neg other)
            obtain ⟨here, -, apart⟩ := List.nodup_append.mp paged.nodup
            have fresh := (List.nodup_cons.mp (List.nodup_middle.mp here)).1
            have high (p : Nat) (there : p ∈ missing) : maxMissCount < (pool'.pages p).miss := by
              rw [others p (apart x member p there).symm]
              exact counted.high p there
            rw [next, ← served_congr same sizes]
            split
            · -- the page is found too full once too often
              rename_i often
              obtain ⟨paged', same', misses', sizes'⟩ := paged'.toMissing
              have counted' : Counted (pool'.toMissing x) (before ++ after) (x :: missing) := by
                refine ⟨fun p there => ?_, fun p there => ?_⟩ <;> rw [misses']
                · rw [others p fun is => fresh (is ▸ there)]
                  exact counted.low p (by simp at there ⊢; tauto)
                · rcases List.mem_cons.mp there with rfl | there
                  · rw [misses, if_pos rfl]
                    exact often
                  · exact high p there
              rw [← served_congr same' sizes']
              obtain ⟨found, ends, searched, sizes''⟩ := ih _ fuel paged' counted' enough
              exact ⟨found, ends, (searched.of_same same').of_same same,
                fun p => (sizes'' p).trans ((sizes' p).trans (sizes p))⟩
            · rename_i seldom
              rw [last] at paged'
              have counted' : Counted pool' (before ++ [x] ++ after) missing := by
                refine ⟨fun p there => ?_, high⟩
                by_cases is : p = x
                · rw [is, misses, if_pos rfl]
                  exact Nat.not_lt.mp seldom
                · rw [others p is]
                  exact counted.low p (last ▸ there)
              obtain ⟨found, ends, searched, sizes'⟩ := ih _ fuel paged' counted' enough
              exact ⟨found, ends, searched.of_same same, fun p => (sizes' p).trans (sizes p)⟩

/-- One page is written to, and keeps its place in its list. -/
theorem Paged.rewritten {page' : GeneralPoolPage} {row : List Nat}
    (paged : Paged pool offs available missing) (kept : Kept page' p row)
    (prev : page'.prev = (pool.pages p).prev) (next : page'.next = (pool.pages p).next) :
    Paged (pool.edit p fun _ => page') (Function.update offs p row) available missing := by
  have form := GeneralPoolImpl.pages_edit pool p fun _ => page'
  obtain ⟨root, rootMissing, newPages, -, -⟩ := GeneralPoolImpl.ends_edit pool p fun _ => page'
  generalize pool.edit p _ = pool' at *
  have nexts (y : Nat) : (pool'.pages y).next = (pool.pages y).next := by
    rw [form]
    split
    · rw [next]; subst_vars; rfl
    · rfl
  have prevs (y : Nat) : (pool'.pages y).prev = (pool.pages y).prev := by
    rw [form]
    split
    · rw [prev]; subst_vars; rfl
    · rfl
  refine ⟨paged.linked.congr (fun y _ => nexts y) fun y _ => prevs y,
    paged.linkedMissing.congr (fun y _ => nexts y) fun y _ => prevs y, root.trans paged.root,
    rootMissing.trans paged.rootMissing, newPages ▸ paged.all, fun y made => ?_⟩
  rw [form]
  by_cases is : y = p
  · subst is
    rwa [if_pos rfl, Function.update_self]
  · rw [if_neg is, Function.update_of_ne is]
    exact paged.pages y (newPages ▸ made)

theorem Counted.congr (counted : Counted pool available missing)
    (same : ∀ y, (pool'.pages y).miss = (pool.pages y).miss) : Counted pool' available missing := by
  constructor
  · intro y member
    rw [same]
    exact counted.low y member
  · intro y member
    rw [same]
    exact counted.high y member

theorem miss_rewritten {page' : GeneralPoolPage} (miss : page'.miss = (pool.pages p).miss) (y : Nat) :
    ((pool.edit p fun _ => page').pages y).miss = (pool.pages y).miss := by
  rw [GeneralPoolImpl.pages_edit]
  split
  · rw [miss]; subst_vars; rfl
  · rfl

end Lists

/-! ## The blocks that are handed out -/

/-- Each block is the memory of its own node. -/
structure Owned (pool : GeneralPoolImpl) (offs : Nat → List Nat) (handed : List (Pointer × Nat)) :
    Prop where
  paged : ∀ page memory n, (.paged page memory, n) ∈ handed → page < pool.newPages ∧
    ∃ node, memory = getMemory node ∧ Held (pool.pages page) (offs page) node ∧
      n ≤ ((pool.pages page).nodes node).size
  runtime : ∀ block n, (.runtime block, n) ∈ handed → block < pool.newRuntime ∧
    defaultPageSize < (pool.runtimeNodes block).size + nodeSize
  distinct : (handed.map (·.1)).Nodup

section Blocks

variable {pool pool' : GeneralPoolImpl} {offs : Nat → List Nat} {handed handed' : List (Pointer × Nat)}
  {available missing : List Nat} {p n node size : Nat}

theorem Owned.of_same (owned : Owned pool offs handed) (same : SameContents pool pool') :
    Owned pool' offs handed := by
  refine ⟨fun page memory n there => ?_, fun block n there => ?_, owned.distinct⟩
  · simp only [Held, same.nodes, same.newPages]
    exact owned.paged page memory n there
  · rw [same.newRuntime, same.runtimeNodes]
    exact owned.runtime block n there

/-- Blocks whose nodes stay as they are when a page is written to. -/
theorem Owned.rewritten {page' : GeneralPoolPage} {row : List Nat} (owned : Owned pool offs handed)
    (fewer : ∀ block ∈ handed', block ∈ handed) (distinct : (handed'.map (·.1)).Nodup)
    (stays : ∀ node n, (.paged p (getMemory node), n) ∈ handed' →
      Held (pool.pages p) (offs p) node →
        Held page' row node ∧ (page'.nodes node).size = ((pool.pages p).nodes node).size) :
    Owned (pool.edit p fun _ => page') (Function.update offs p row) handed' := by
  refine ⟨fun page memory n there => ?_, fun block n there => owned.runtime block n (fewer _ there),
    distinct⟩
  obtain ⟨made, node, rfl, held, enough⟩ := owned.paged page memory n (fewer _ there)
  refine ⟨made, node, rfl, ?_⟩
  rw [GeneralPoolImpl.pages_edit]
  by_cases is : page = p
  · subst is
    obtain ⟨held', same⟩ := stays node n there held
    rw [if_pos rfl, Function.update_self, same]
    exact ⟨held', enough⟩
  · rw [if_neg is, Function.update_of_ne is]
    exact ⟨held, enough⟩

theorem Owned.held (owned : Owned pool offs handed) (there : (.paged p (getMemory node), n) ∈ handed) :
    Held (pool.pages p) (offs p) node := by
  obtain ⟨-, node', same, held, -⟩ := owned.paged p _ n there
  obtain rfl : node = node' := Nat.add_right_cancel same
  exact held

/-- A pool in order, with the blocks that it has handed out. -/
def Managed (pool : GeneralPoolImpl) (handed : List (Pointer × Nat)) : Prop :=
  ∃ offs available missing, Paged pool offs available missing ∧ Counted pool available missing ∧
    Owned pool offs handed

theorem Owned.take (owned : Owned pool offs handed) (paged : Paged pool offs available missing)
    (counted : Counted pool available missing) (member : p ∈ available)
    (free : node ∈ frees (pool.pages p) (offs p)) (enough : size ≤ ((pool.pages p).nodes node).size)
    (asked : n ≤ size) (realSize : Nat) :
    Managed (pool.edit p (GeneralPoolImpl.take · node size realSize))
      ((.paged p (getMemory node), n) :: handed) := by
  have made := paged.made (List.mem_append_left missing member)
  have takes := (paged.pages p made).take free enough realSize
  obtain ⟨row, kept, shows⟩ := takes.kept
  refine ⟨Function.update offs p row, available, missing, paged.rewritten kept takes.prev takes.next,
    counted.congr (miss_rewritten takes.miss), ?_⟩
  have old : Owned (pool.edit p fun _ => GeneralPoolImpl.take (pool.pages p) node size realSize)
      (Function.update offs p row) handed :=
    owned.rewritten (fun _ => id) owned.distinct fun node n _ held =>
      ⟨(shows node).mpr (.inr held), takes.sizes node held⟩
  refine ⟨fun page memory n' there => ?_, fun block n' there => ?_, ?_⟩
  · rcases List.mem_cons.mp there with new | there
    · cases new
      refine ⟨made, node, rfl, ?_⟩
      rw [GeneralPoolImpl.pages_edit, if_pos rfl, Function.update_self]
      exact ⟨(shows node).mpr (.inl rfl), asked.trans takes.enough⟩
    · exact old.paged page memory n' there
  · exact old.runtime block n' ((List.mem_cons.mp there).resolve_left (by simp))
  · refine List.nodup_cons.mpr ⟨fun there => ?_, owned.distinct⟩
    obtain ⟨⟨pointer, n'⟩, there, rfl⟩ := List.mem_map.mp there
    exact takes.fresh (owned.held there)

/-- Sizes are rounded up to whole units. -/
theorem padded_units (n : Nat) :
    ∃ units, 0 < units ∧ GeneralPoolImpl.padded n = units * minAllocSize ∧
      n ≤ units * minAllocSize := by
  rw [GeneralPoolImpl.padded]
  have least : minAllocSize ≤ (if n < minAllocSize then minAllocSize else n) ∧
      n ≤ if n < minAllocSize then minAllocSize else n := by
    split <;> omega
  generalize (if n < minAllocSize then minAllocSize else n) = m at *
  by_cases whole : m % minAllocSize = 0
  · refine ⟨m / minAllocSize, ?_, by rw [if_pos whole, Nat.add_zero], ?_⟩ <;>
      simp only [minAllocSize] at * <;> omega
  · refine ⟨m / minAllocSize + 1, ?_, by rw [if_neg whole], ?_⟩ <;>
      simp only [minAllocSize] at * <;> omega

theorem le_padded : n ≤ GeneralPoolImpl.padded n := by
  obtain ⟨units, -, is, le⟩ := padded_units n
  rwa [is]

theorem padded_padded : GeneralPoolImpl.padded (GeneralPoolImpl.padded n) =
    GeneralPoolImpl.padded n := by
  obtain ⟨units, some, is, -⟩ := padded_units n
  rw [is, GeneralPoolImpl.padded]
  have least : 0 < minAllocSize := by decide
  have large : ¬units * minAllocSize < minAllocSize :=
    Nat.not_lt.mpr (Nat.le_mul_of_pos_left _ some)
  rw [if_neg large, Nat.mul_mod_left, if_pos rfl, Nat.mul_div_cancel _ least, Nat.add_zero]

/-- A block of the default allocator. -/
theorem Owned.runtimeBlock (owned : Owned pool offs handed) {header : GeneralPoolNode}
    (large : defaultPageSize < header.size + nodeSize) :
    Owned { pool with
      runtimeNodes := Function.update pool.runtimeNodes pool.newRuntime header
      newRuntime := pool.newRuntime + 1 } offs ((.runtime pool.newRuntime, n) :: handed) := by
  refine ⟨fun page memory n' there => ?_, fun block n' there => ?_, ?_⟩
  · exact owned.paged page memory n' ((List.mem_cons.mp there).resolve_left (by simp))
  · rcases List.mem_cons.mp there with new | there
    · cases new
      refine ⟨Nat.lt_succ_self _, ?_⟩
      simpa using large
    · obtain ⟨made, large'⟩ := owned.runtime block n' there
      refine ⟨Nat.lt_succ_of_lt made, ?_⟩
      simpa [Nat.ne_of_lt made] using large'
  · refine List.nodup_cons.mpr ⟨fun there => ?_, owned.distinct⟩
    obtain ⟨⟨pointer, n'⟩, there, rfl⟩ := List.mem_map.mp there
    exact Nat.lt_irrefl _ (owned.runtime pool.newRuntime n' there).1

theorem allocFrom_found {depth : Nat} (fits : ¬GeneralPoolImpl.padded n + nodeSize > defaultPageSize)
    (found : GeneralPoolImpl.search (GeneralPoolImpl.padded n) pool.newPages pool
      pool.availablePage = some (pool', some (p, node))) :
    GeneralPoolImpl.allocFrom (depth + 1) pool n = some (.paged p (getMemory node),
      pool'.edit p (GeneralPoolImpl.take · node (GeneralPoolImpl.padded n) n)) := by
  rw [GeneralPoolImpl.allocFrom]
  simp only [if_neg fits, found]

theorem allocFrom_none {depth : Nat} (fits : ¬GeneralPoolImpl.padded n + nodeSize > defaultPageSize)
    (found : GeneralPoolImpl.search (GeneralPoolImpl.padded n) pool.newPages pool
      pool.availablePage = some (pool', none)) :
    GeneralPoolImpl.allocFrom (depth + 1) pool n =
      GeneralPoolImpl.allocFrom depth pool'.allocPage (GeneralPoolImpl.padded n) := by
  rw [GeneralPoolImpl.allocFrom]
  simp only [if_neg fits, found]

/-- The whole of a new page is available. -/
theorem search_allocPage (root : pool.availablePage ≠ some pool.newPages)
    (fits : ¬size + nodeSize > defaultPageSize) :
    GeneralPoolImpl.search size pool.allocPage.newPages pool.allocPage
      pool.allocPage.availablePage = some (pool.allocPage, some (pool.newPages, firstNode)) := by
  obtain ⟨-, -, -, -, available, whole, first⟩ := GeneralPoolImpl.pages_allocPage root
  obtain ⟨ends, -, newPages, -⟩ := GeneralPoolImpl.ends_allocPage pool
  have large : (pool.allocPage.pages pool.newPages).availableSize ≥ size + nodeSize := by
    rw [whole]
    exact Nat.not_lt.mp fits
  have fitting : GeneralPoolImpl.fitting (pool.allocPage.pages pool.newPages) size defaultPageSize
      (some firstNode) = some (some firstNode) := by
    rw [defaultPageSize, GeneralPoolImpl.fitting, if_pos]
    rw [first]
    exact Nat.le_sub_of_add_le (Nat.not_lt.mp fits)
  rw [ends, newPages, GeneralPoolImpl.search, if_pos large, available, fitting]

theorem Owned.allocPage (owned : Owned pool offs handed)
    (root : pool.availablePage ≠ some pool.newPages) :
    Owned pool.allocPage (Function.update offs pool.newPages [firstNode]) handed := by
  obtain ⟨others, -⟩ := GeneralPoolImpl.pages_allocPage root
  obtain ⟨-, -, newPages, runtimeNodes, newRuntime⟩ := GeneralPoolImpl.ends_allocPage pool
  refine ⟨fun page memory n there => ?_, fun block n there => ?_, owned.distinct⟩
  · obtain ⟨made, node⟩ := owned.paged page memory n there
    have other := Nat.ne_of_lt made
    rw [newPages, Function.update_of_ne other, others page other]
    exact ⟨Nat.lt_succ_of_lt made, node⟩
  · rw [newRuntime, runtimeNodes]
    exact owned.runtime block n there

theorem Managed.alloc (managed : Managed pool handed) (n : Nat) :
    ∃ pointer pool', pool.alloc n = some (pointer, pool') ∧ Managed pool' ((pointer, n) :: handed) := by
  obtain ⟨offs, available, missing, paged, counted, owned⟩ := managed
  rw [GeneralPoolImpl.alloc]
  by_cases large : GeneralPoolImpl.padded n + nodeSize > defaultPageSize
  · rw [GeneralPoolImpl.allocFrom, if_pos large]
    exact ⟨_, _, rfl, offs, available, missing, ⟨paged.linked, paged.linkedMissing, paged.root,
      paged.rootMissing, paged.all, paged.pages⟩, ⟨counted.low, counted.high⟩,
      owned.runtimeBlock large⟩
  · have enough : available.length ≤ pool.newPages := by
      have length := paged.all.length_eq
      rw [List.length_append, List.length_range] at length
      omega
    obtain ⟨pool', ends, ⟨same, available', missing', paged', counted', fits⟩, -⟩ :=
      search_ends (GeneralPoolImpl.padded n) [] pool.newPages paged counted enough
    rw [← paged.root] at ends
    generalize available.findSome? (served pool offs (GeneralPoolImpl.padded n)) = found at *
    have owned' := owned.of_same same
    cases found with
    | some found =>
        obtain ⟨p, node⟩ := found
        obtain ⟨member, free, enough⟩ := fits p node rfl
        exact ⟨_, _, allocFrom_found large ends,
          owned'.take paged' counted' member free enough le_padded n⟩
    | none =>
        obtain ⟨paged₂, counted₂⟩ := paged'.allocPage counted'
        have searched := search_allocPage paged'.root_ne large
        rw [← padded_padded] at large searched
        refine ⟨_, _, (allocFrom_none ?_ ends).trans (allocFrom_found large searched), ?_⟩
        · rwa [padded_padded] at large
        · have fresh := GeneralPoolImpl.pages_allocPage paged'.root_ne
          have whole := fresh.2.2.2.2.2.2
          refine (owned'.allocPage paged'.root_ne).take paged₂ counted₂ List.mem_cons_self ?_ ?_
            (le_padded.trans le_padded) _
          · rw [Function.update_self]
            exact mem_frees.mpr ⟨List.mem_singleton_self _, by rw [whole]⟩
          · rw [whole]
            exact Nat.le_sub_of_add_le (Nat.not_lt.mp large)

/-- The blocks other than one that is taken back. -/
def others (handed : List (Pointer × Nat)) (pointer : Pointer) : List (Pointer × Nat) :=
  handed.filter fun block => block.1 ≠ pointer

theorem others_fewer {pointer : Pointer} : ∀ block ∈ others handed pointer, block ∈ handed :=
  fun _ there => (List.mem_filter.mp there).1

theorem others_distinct (distinct : (handed.map (·.1)).Nodup) (pointer : Pointer) :
    ((others handed pointer).map (·.1)).Nodup :=
  distinct.sublist (List.filter_sublist.map _)

/-- A page comes back from the missing pages if something of it is free again. -/
theorem Managed.comeBack (paged : Paged pool offs available missing)
    (counted : Counted pool available missing) (owned : Owned pool offs handed)
    (made : p < pool.newPages) :
    Managed (if (pool.pages p).miss > maxMissCount then pool.toAvailable p else pool) handed := by
  have member : p ∈ available ++ missing := paged.all.mem_iff.mpr (List.mem_range.mpr made)
  split
  · rename_i often
    have there : p ∈ missing := (List.mem_append.mp member).resolve_left fun here =>
      Nat.not_lt.mpr (counted.low p here) often
    obtain ⟨before, after, rfl⟩ := List.append_of_mem there
    obtain ⟨paged', same, none, misses⟩ := paged.toAvailable
    have nodup := List.perm_append_comm.nodup_iff.mp paged.nodup
    obtain ⟨here, -, apart⟩ := List.nodup_append.mp nodup
    have fresh := (List.nodup_cons.mp (List.nodup_middle.mp here)).1
    refine ⟨offs, _, _, paged', ⟨fun y low => ?_, fun y high => ?_⟩, owned.of_same same⟩
    · rcases List.mem_cons.mp low with rfl | low
      · rw [none]
        exact Nat.zero_le _
      · rw [misses y (apart p (by simp) y low).symm]
        exact counted.low y low
    · rw [misses y fun is => fresh (is ▸ high)]
      exact counted.high y (by simp at high ⊢; tauto)
  · exact ⟨offs, available, missing, paged, counted, owned⟩

/-- A page in which a node is counted and marked as free. -/
def marked (page : GeneralPoolPage) (node : Nat) : GeneralPoolPage :=
  { page.edit node ({ · with allocated := false }) with
    availableSize := unsignedInt (page.availableSize + ((page.nodes node).size + nodeSize)) }

theorem nodes_marked (page : GeneralPoolPage) (node y : Nat) : (marked page node).nodes y =
    if y = node then { page.nodes node with allocated := false } else page.nodes y := by
  simp [marked, GeneralPoolPage.nodes_edit]

/-- A node that is freed is merged with its neighbours, and its page comes back. -/
theorem Paged.free_held (paged : Paged pool offs available missing) (made : p < pool.newPages)
    (held : Held (pool.pages p) (offs p) node) :
    ∃ merged row, (marked (pool.pages p) node).freeMerge node = some merged ∧
      pool.free (.paged p (getMemory node)) =
        some (if ((pool.edit p fun _ => merged).pages p).miss > maxMissCount
          then (pool.edit p fun _ => merged).toAvailable p else pool.edit p fun _ => merged) ∧
      Kept merged p row ∧ (∀ n, Held merged row n ↔ n ≠ node ∧ Held (pool.pages p) (offs p) n) ∧
      (∀ n, n ≠ node → Held (pool.pages p) (offs p) n →
        (merged.nodes n).size = ((pool.pages p).nodes n).size) ∧
      merged.prev = (pool.pages p).prev ∧ merged.next = (pool.pages p).next ∧
      merged.miss = (pool.pages p).miss := by
  have kept := paged.pages p made
  have isNode : nodeOf (getMemory node) = node := Nat.add_sub_cancel ..
  have small : ¬((pool.pages p).nodes node).size + nodeSize > defaultPageSize := by
    have within := ((Tiles.within kept.tiles).2 node held.1).2
    rw [getMemory] at within
    omega
  obtain ⟨merged, merges, ⟨row, kept', shows⟩, sizes, ends⟩ :=
    kept.free (marked (pool.pages p) node) held (nodes_marked _ _) rfl
  refine ⟨merged, row, merges, ?_, kept', shows, sizes, ends⟩
  have twice (f g : GeneralPoolPage → GeneralPoolPage) :
      (pool.edit p f).edit p g = pool.edit p fun page => g (f page) := by
    simp [GeneralPoolImpl.edit]
  have counted : ((pool.edit p fun page => page.edit node ({ · with allocated := false })).edit p
      fun page => { page with availableSize := unsignedInt (page.availableSize +
        (((pool.pages p).nodes node).size + nodeSize)) }) =
      pool.edit p fun _ => marked (pool.pages p) node := (twice _ _).trans rfl
  rw [GeneralPoolImpl.free]
  simp only [isNode, if_neg small, kept.owner node held.1, counted]
  rw [GeneralPoolImpl.pages_edit, if_pos rfl, merges, Option.map_some, twice]

theorem Managed.free (managed : Managed pool handed) {pointer : Pointer}
    (ours : pointer ∈ handed.map (·.1)) :
    ∃ pool', pool.free pointer = some pool' ∧ Managed pool' (others handed pointer) := by
  obtain ⟨offs, available, missing, paged, counted, owned⟩ := managed
  obtain ⟨⟨pointer, n⟩, there, rfl⟩ := List.mem_map.mp ours
  clear ours
  cases pointer with
  | runtime block =>
      refine ⟨pool, ?_, offs, available, missing, paged, counted, ?_⟩
      · rw [GeneralPoolImpl.free, if_pos (owned.runtime block n there).2]
      · exact ⟨fun page memory n there => owned.paged page memory n (others_fewer _ there),
          fun block n there => owned.runtime block n (others_fewer _ there),
          others_distinct owned.distinct _⟩
  | paged p memory =>
      obtain ⟨made, node, rfl, held, -⟩ := owned.paged p memory n there
      obtain ⟨merged, row, -, ended, kept', shows, sizes, prev, next, miss⟩ :=
        paged.free_held made held
      refine ⟨_, ended, ?_⟩
      refine Managed.comeBack (paged.rewritten kept' prev next) (counted.congr (miss_rewritten miss))
        (owned.rewritten others_fewer (others_distinct owned.distinct _) fun node' n' there' held' => ?_)
        made
      have other : node' ≠ node := by
        rintro rfl
        exact absurd rfl (of_decide_eq_true (List.mem_filter.mp there').2)
      exact ⟨(shows node').mpr ⟨other, held'⟩, sizes node' other held'⟩

theorem Kept.intact {page : GeneralPoolPage} {row : List Nat} (kept : Kept page p row) :
    page.Intact row := by
  have within := (Tiles.within kept.tiles).1
  have fewer : (frees page row).length ≤ row.length := List.length_filter_le ..
  refine ⟨?_, kept.tiles, ?_, kept.merged⟩
  · have chained := kept.threaded.chained
    rw [kept.first] at chained
    exact chained.walk (by omega)
  · have chained := kept.available.chained
    rw [← kept.root] at chained
    exact chained.walk (by omega)

theorem Owned.inside (owned : Owned pool offs handed) (paged : Paged pool offs available missing)
    (block : Pointer × Nat) (there : block ∈ handed) : PoolRun.Inside { pool, handed } block := by
  obtain ⟨pointer, n⟩ := block
  cases pointer with
  | runtime block => trivial
  | paged p memory =>
      obtain ⟨made, node, rfl, held, enough⟩ := owned.paged p memory n there
      have within := (Tiles.within (paged.pages p made).tiles).2 node held.1
      exact ⟨made, by omega⟩

theorem Owned.apart (owned : Owned pool offs handed) (paged : Paged pool offs available missing) :
    handed.Pairwise Apart := by
  have distinct := List.pairwise_map.mp owned.distinct
  refine distinct.imp_of_mem fun {block block'} there there' differ => ?_
  obtain ⟨pointer, n⟩ := block
  obtain ⟨pointer', n'⟩ := block'
  cases pointer with
  | runtime block =>
      cases pointer' with
      | runtime block' => exact fun same => differ (by rw [same])
      | paged p' memory' => trivial
  | paged p memory =>
      cases pointer' with
      | runtime block' => trivial
      | paged p' memory' =>
          intro same
          subst same
          obtain ⟨made, node, rfl, held, enough⟩ := owned.paged p memory n there
          obtain ⟨-, node', rfl, held', enough'⟩ := owned.paged p memory' n' there'
          have other : node ≠ node' := fun same => differ (by rw [same])
          have apart := Tiles.apart (paged.pages p made).tiles held.1 held'.1 other
          simp only [getMemory] at apart ⊢
          omega

theorem Managed.intact (managed : Managed pool handed) : PoolRun.Intact { pool, handed } := by
  obtain ⟨offs, available, missing, paged, -, owned⟩ := managed
  have length := paged.all.length_eq
  rw [List.length_append, List.length_range] at length
  refine ⟨⟨available, missing, ?_, ?_, paged.all⟩, fun p made => ⟨offs p, (paged.pages p made).intact⟩,
    owned.inside paged, owned.apart paged⟩
  · have chained := paged.linked.chained
    rw [← paged.root] at chained
    exact chained.walk (by dsimp only; omega)
  · have chained := paged.linkedMissing.chained
    rw [← paged.rootMissing] at chained
    exact chained.walk (by dsimp only; omega)

theorem paged_none : Paged {} (fun _ => []) [] [] ∧ Counted {} [] [] :=
  ⟨⟨trivial, trivial, rfl, rfl, .refl _, fun p made => absurd made (Nat.not_lt_zero p)⟩,
    by simp, by simp⟩

theorem Managed.init : Managed .init [] := by
  obtain ⟨paged, counted⟩ := paged_none.1.allocPage paged_none.2
  exact ⟨_, _, _, paged, counted, by simp, by simp, List.nodup_nil⟩

/-- A call on blocks that were handed out returns, and leaves the pool in order. -/
theorem Managed.call {r : PoolRun} (managed : Managed r.pool r.handed) {call : PoolCall}
    (valid : r.Valid call) : ∃ r', r.call call = some r' ∧ Managed r'.pool r'.handed := by
  cases call with
  | alloc n =>
      obtain ⟨pointer, pool', result, managed'⟩ := managed.alloc n
      exact ⟨_, by rw [PoolRun.call, result]; rfl, managed'⟩
  | free pointer =>
      obtain ⟨pool', result, managed'⟩ := managed.free valid
      exact ⟨_, by rw [PoolRun.call, result]; rfl, managed'⟩

end Blocks

/-- In every run of the pool the pages stay in order, the blocks that are handed out lie in them and
apart from each other, and every call returns. -/
theorem run_intact {r : PoolRun} {calls : List PoolCall} 
    (run : Run PoolRun.Steps {} calls r) :
    r.Intact ∧ ∀ call, r.Valid call → ∃ r', r.Steps call r' := by
  have managed : Managed r.pool r.handed := by
    refine Run.invariant (I := fun r => Managed r.pool r.handed) Managed.init ?_ run
    rintro r call r' managed ⟨valid, result⟩
    obtain ⟨r'', result', managed'⟩ := managed.call valid
    obtain rfl := Option.some.inj (result.symm.trans result')
    exact managed'
  refine ⟨managed.intact, fun call valid => ?_⟩
  obtain ⟨r', result, -⟩ := managed.call valid
  exact ⟨r', valid, result⟩

/-- The second block is freed between two that are in use and handed out again in part, and a large
one needs a page of its own. -/
def reused : List PoolCall :=
  [.alloc 100, .alloc 300, .alloc 50, .free (.paged 0 192), .alloc 60, .alloc 16000]

theorem reused_intact : ∃ r : PoolRun, r.Intact ∧ r.handed =
    [(.paged 1 32, 16000), (.paged 0 192, 60), (.paged 0 544, 50), (.paged 0 32, 100)] := by
  have plays : (reused.foldlM (fun (r : PoolRun) call => if r.Valid call then r.call call else none)
      ({} : PoolRun)).map (·.handed) =
        some [(.paged 1 32, 16000), (.paged 0 192, 60), (.paged 0 544, 50), (.paged 0 32, 100)] := by
    decide
  obtain ⟨r, result, handed⟩ := Option.map_eq_some_iff.mp plays
  exact ⟨r, (run_intact (Run.guarded_of_foldlM PoolRun.Valid PoolRun.call reused result)).1, handed⟩

end Cgsf.Proof.BaseLayer
