import Cgsf.BaseLayer.GeneralPool

/-!
# The sizes of the general pool

`alloc` for every request that an `unsigned int` can hold, with the sizes that it computes wrapped as
they are there, and `size`.
-/

namespace Cgsf.BaseLayer
open Library

namespace GeneralPoolImpl

/-- The loop over the available pages, for `needed` bytes with the header. -/
def searchFor (needed size : Nat) : Nat → GeneralPoolImpl → Option Nat →
    Option (GeneralPoolImpl × Option (Nat × Nat))
  | _, pool, none => some (pool, none)
  | 0, _, some _ => none
  | fuel + 1, pool, some page =>
      let p := pool.pages page
      if p.availableSize ≥ needed then
        match fitting p size defaultPageSize p.available with
        | none => none
        | some (some node) => some (pool, some (page, node))
        | some none => searchFor needed size fuel pool p.next
      else
        let pool := pool.edit page ({ · with miss := p.miss + 1 })
        if p.miss + 1 > maxMissCount then searchFor needed size fuel (pool.toMissing page) p.next
        else searchFor needed size fuel pool p.next

/-- `alloc` with its calls of itself; nothing when they are nested deeper. A node that is found has at
least `size` bytes of a page, so what is computed from then on does not wrap. -/
def allocWrapped : Nat → GeneralPoolImpl → Nat → Option (Pointer × GeneralPoolImpl)
  | 0, _, _ => none
  | depth + 1, pool, realSize =>
      let size := unsignedInt (padded realSize)
      if unsignedInt (size + nodeSize) > defaultPageSize then
        let node := { GeneralPoolNode.clear none with size, realSize, allocated := true }
        some (.runtime pool.newRuntime, { pool with
          runtimeNodes := Function.update pool.runtimeNodes pool.newRuntime node
          newRuntime := pool.newRuntime + 1 })
      else
        match searchFor (unsignedInt (size + nodeSize)) size pool.newPages pool pool.availablePage with
        | none => none
        | some (pool, some (page, node)) =>
            some (.paged page (getMemory node), pool.edit page (take · node size realSize))
        | some (pool, none) => allocWrapped depth pool.allocPage size

/-- `alloc(n)` returns a block. -/
def Returns (pool : GeneralPoolImpl) (n : Nat) (pointer : Pointer) (pool' : GeneralPoolImpl) : Prop :=
  ∃ depth, allocWrapped depth pool n = some (pointer, pool')

/-- The header of a block. -/
def header (pool : GeneralPoolImpl) : Pointer → GeneralPoolNode
  | .runtime block => pool.runtimeNodes block
  | .paged page memory => (pool.pages page).nodes (nodeOf memory)

/-- `GeneralPool::size` -/
def size (pool : GeneralPoolImpl) (pointer : Pointer) : Nat := (pool.header pointer).realSize

/-- The bytes behind the header that no other header is in. -/
def usable (pool : GeneralPoolImpl) (pointer : Pointer) : Nat := (pool.header pointer).size

/-- A node that is not allocated in one of the available pages is large enough. -/
def Serves (pool : GeneralPoolImpl) (size : Nat) : Prop :=
  ∃ pages, walk (fun page => (pool.pages page).next) pool.newPages pool.availablePage = some pages ∧
    ∃ page ∈ pages, size + nodeSize ≤ (pool.pages page).availableSize ∧
      ∃ nodes, walk (fun node => ((pool.pages page).nodes node).availableNext) defaultPageSize
        (pool.pages page).available = some nodes ∧
          ∃ node ∈ nodes, size ≤ ((pool.pages page).nodes node).size

end GeneralPoolImpl

/-- The size is rounded up, and the header added, below 2 ^ 32. -/
def Unwrapped (n : Nat) : Prop :=
  unsignedInt (GeneralPoolImpl.padded n) = GeneralPoolImpl.padded n ∧
    unsignedInt (GeneralPoolImpl.padded n + nodeSize) = GeneralPoolImpl.padded n + nodeSize

instance (n : Nat) : Decidable (Unwrapped n) := inferInstanceAs (Decidable (_ ∧ _))

namespace PoolRun

/-- Any block is asked for, or one that was handed out is freed. -/
inductive Moves : PoolRun → PoolCall → PoolRun → Prop where
  | alloc {r : PoolRun} {n : Nat} {pointer : Pointer} {pool : GeneralPoolImpl} (fits : n < 2 ^ 32)
      (returns : r.pool.Returns n pointer pool) :
      Moves r (.alloc n) { pool, handed := (pointer, n) :: r.handed }
  | free {r : PoolRun} {pointer : Pointer} {pool : GeneralPoolImpl}
      (ours : pointer ∈ r.handed.map (·.1)) (returns : r.pool.free pointer = some pool) :
      Moves r (.free pointer) { pool, handed := r.handed.filter (·.1 ≠ pointer) }

/-- What a block that is asked for is promised. -/
def Guarantees (r : PoolRun) (n : Nat) : Prop :=
  Unwrapped n ∧ ∀ pointer pool, r.pool.Returns n pointer pool →
    n ≤ pool.usable pointer ∧ PoolRun.Inside { pool } (pointer, n) ∧
      (∀ block ∈ r.handed, Apart (pointer, n) block) ∧ pool.size pointer = n

/-- The size is computed without wrapping around, and no new page is made for a size that is not a
whole number of units. -/
structure SizesWell (r : PoolRun) (n : Nat) : Prop where
  low : n ≤ 2 ^ 32 - 2 * minAllocSize
  served : n ≠ 0 ∧ n % minAllocSize = 0 ∨ GeneralPoolImpl.padded n + nodeSize > defaultPageSize ∨
    r.pool.Serves (GeneralPoolImpl.padded n)

/-- The calls that compute without wrapping around. -/
def Calm (_ : PoolRun) : PoolCall → Prop
  | .alloc n => n ≤ 2 ^ 32 - 2 * minAllocSize
  | .free _ => True

/-- The calls for a block whose size is noted. -/
def WellSized (r : PoolRun) : PoolCall → Prop
  | .alloc n => r.SizesWell n
  | .free _ => True

end PoolRun

end Cgsf.BaseLayer

/-!
# The free space of the general pool

What a page records as available, and what of it is free.
-/

namespace Cgsf.BaseLayer
open Library

namespace GeneralPoolPage

/-- The bytes of some of these nodes, with their headers. -/
def space (page : GeneralPoolPage) (nodes : List Nat) (chosen : GeneralPoolNode → Bool) : Nat :=
  ((nodes.filter fun node => chosen (page.nodes node)).map fun node =>
    (page.nodes node).size + nodeSize).sum

/-- What is recorded as available is what is free: a page with less than a request has no node for
it, and a page with all of its bytes has no node that is handed out. -/
structure Accounted (page : GeneralPoolPage) (nodes : List Nat) : Prop where
  linked : walk (fun node => (page.nodes node).next) defaultPageSize (some firstNode) = some nodes
  sum : page.availableSize = page.space nodes fun node => !node.allocated
  skipped : ∀ size, page.availableSize < size + nodeSize → ∀ node ∈ nodes,
    (page.nodes node).allocated = false → (page.nodes node).size < size
  empty : page.availableSize = defaultPageSize ↔ ∀ node ∈ nodes, (page.nodes node).allocated = false

end GeneralPoolPage

/-- A node of `whole` bytes is split for `size` of them, or has no more. -/
def Exact (size whole : Nat) : Prop := whole = size ∨ size + nodeSize + minAllocSize ≤ whole

instance (size whole : Nat) : Decidable (Exact size whole) := inferInstanceAs (Decidable (_ ∨ _))

namespace GeneralPoolImpl

def Accounted (pool : GeneralPoolImpl) : Prop :=
  ∀ page < pool.newPages, ∃ nodes, (pool.pages page).Accounted nodes

/-- The first node that is large enough, in the first available page that admits to one. -/
def firstServing (pool : GeneralPoolImpl) (size : Nat) : Option (Nat × Nat) :=
  ((walk (fun page => (pool.pages page).next) pool.newPages pool.availablePage).getD []).findSome?
    fun page =>
      if size + nodeSize ≤ (pool.pages page).availableSize then
        (((walk (fun node => ((pool.pages page).nodes node).availableNext) defaultPageSize
          (pool.pages page).available).getD []).find?
            fun node => size ≤ ((pool.pages page).nodes node).size).map (page, ·)
      else none

/-- The size that is looked for, and that of the node that it comes from; where none serves it the
node is that of a new page. -/
def taking (pool : GeneralPoolImpl) (size : Nat) : Nat × Nat :=
  match pool.firstServing size with
  | some (page, node) => (size, ((pool.pages page).nodes node).size)
  | none => (padded size, defaultPageSize - nodeSize)

/-- A node of a page that `n` bytes come from is split for them, or has no more. -/
def TakesExactly (pool : GeneralPoolImpl) (n : Nat) : Prop :=
  unsignedInt (padded n) + nodeSize ≤ defaultPageSize →
    Exact (pool.taking (unsignedInt (padded n))).1 (pool.taking (unsignedInt (padded n))).2

instance (pool : GeneralPoolImpl) (n : Nat) : Decidable (pool.TakesExactly n) :=
  inferInstanceAs (Decidable (_ → _))

end GeneralPoolImpl

/-- The calls that hand out no node for less than it has. -/
def PoolRun.Exactly (r : PoolRun) : PoolCall → Prop
  | .alloc n => r.pool.TakesExactly n
  | .free _ => True

end Cgsf.BaseLayer
