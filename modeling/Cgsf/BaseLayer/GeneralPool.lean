import Cgsf.Library.Threaded
import Mathlib.Algebra.Ring.Nat
import Mathlib.Logic.Function.Basic

/-!
# The general pool

A page is a row of nodes, each the header of the memory behind it. Nodes are named by their offset
in the memory of the page, pages by the order in which they were made.
-/

namespace Cgsf.BaseLayer
open Library

def defaultPageSize : Nat := 1024 * 16

def maxMissCount : Nat := 8

def minAllocSize : Nat := 32

/-- `sizeof(GeneralPool_Node)`, where a pointer is an `unsigned int`. -/
def nodeSize : Nat := 32

/-- An `unsigned int` that has been added to. -/
def unsignedInt (n : Nat) : Nat := n % 2 ^ 32

@[ext]
structure GeneralPoolNode where
  owner : Option Nat := none
  size : Nat := 0
  realSize : Nat := 0
  availablePrev : Option Nat := none
  availableNext : Option Nat := none
  prev : Option Nat := none
  next : Option Nat := none
  allocated : Bool := false
  deriving DecidableEq, Repr

def GeneralPoolNode.clear (owner : Option Nat) : GeneralPoolNode := { owner }

@[ext]
structure GeneralPoolPage where
  prev : Option Nat := none
  next : Option Nat := none
  available : Option Nat := none
  availableSize : Nat := 0
  miss : Nat := 0
  nodes : Nat → GeneralPoolNode := fun _ => {}

/-- The node at the start of the memory. -/
def firstNode : Nat := 0

/-- Where the memory of a node starts, and back. -/
def getMemory (node : Nat) : Nat := node + nodeSize

def nodeOf (memory : Nat) : Nat := memory - nodeSize

namespace GeneralPoolPage

/-- One node is written to. -/
def edit (page : GeneralPoolPage) (node : Nat) (f : GeneralPoolNode → GeneralPoolNode) :
    GeneralPoolPage :=
  { page with nodes := Function.update page.nodes node (f (page.nodes node)) }

/-- One node is written to, if there is one. -/
def editIf (page : GeneralPoolPage) (node : Option Nat) (f : GeneralPoolNode → GeneralPoolNode) :
    GeneralPoolPage :=
  match node with
  | some node => page.edit node f
  | none => page

def removeAvailableList (page : GeneralPoolPage) (node : Nat) : GeneralPoolPage :=
  let page := match (page.nodes node).availablePrev with
    | none => { page with available := (page.nodes node).availableNext }
    | some before =>
        page.edit before ({ · with availableNext := (page.nodes node).availableNext })
  let page := page.editIf (page.nodes node).availableNext
    ({ · with availablePrev := (page.nodes node).availablePrev })
  page.edit node ({ · with availablePrev := none, availableNext := none, allocated := true })

def splitAllocNode (page : GeneralPoolPage) (node size : Nat) : GeneralPoolPage :=
  let new := getMemory node + size
  let page := page.edit new fun _ => .clear (page.nodes node).owner
  let page := page.edit new ({ · with size := (page.nodes node).size - size - nodeSize })
  let page := page.edit node ({ · with size, allocated := true })
  let page := match (page.nodes node).availablePrev with
    | none => { page with available := some new }.edit new ({ · with availablePrev := none })
    | some before => (page.edit before ({ · with availableNext := some new })).edit new
        ({ · with availablePrev := some before })
  let page := page.edit new ({ · with availableNext := (page.nodes node).availableNext })
  let page := page.editIf (page.nodes node).availableNext ({ · with availablePrev := some new })
  let page := page.edit node ({ · with availablePrev := none, availableNext := none })
  let page := page.edit new
    ({ · with prev := some node, next := (page.nodes node).next })
  let page := page.editIf (page.nodes node).next ({ · with prev := some new })
  page.edit node ({ · with next := some new })

def freeMergePrevAndNext (page : GeneralPoolPage) (node prevNode nextNode : Nat) :
    GeneralPoolPage :=
  let page := page.edit prevNode
    ({ · with availableNext := (page.nodes nextNode).availableNext })
  let page := page.editIf (page.nodes nextNode).availableNext
    ({ · with availablePrev := some prevNode })
  let page := page.edit prevNode ({ · with next := (page.nodes nextNode).next })
  let page := page.editIf (page.nodes nextNode).next ({ · with prev := some prevNode })
  page.edit prevNode fun n =>
    { n with size := n.size + ((page.nodes node).size + nodeSize +
      (page.nodes nextNode).size + nodeSize) }

def freeMergePrev (page : GeneralPoolPage) (node prevNode : Nat) : GeneralPoolPage :=
  let page := page.edit prevNode ({ · with next := (page.nodes node).next })
  let page := page.editIf (page.nodes node).next ({ · with prev := some prevNode })
  page.edit prevNode fun n => { n with size := n.size + ((page.nodes node).size + nodeSize) }

def freeMergeNext (page : GeneralPoolPage) (node nextNode : Nat) : GeneralPoolPage :=
  let page := match (page.nodes nextNode).availableNext with
    | some after => (page.edit after ({ · with availablePrev := some node })).edit node
        ({ · with availableNext := some after })
    | none => page
  let page := match (page.nodes nextNode).availablePrev with
    | some before => (page.edit before ({ · with availableNext := some node })).edit node
        ({ · with availablePrev := some before })
    | none => { page with available := some node }
  let page := page.edit node ({ · with next := (page.nodes nextNode).next })
  let page := page.editIf (page.nodes nextNode).next ({ · with prev := some node })
  page.edit node fun n => { n with size := n.size + ((page.nodes nextNode).size + nodeSize) }

/-- The nearest node before that is not allocated; nothing when the loop goes on for longer than a
page has nodes. -/
def freeBefore (page : GeneralPoolPage) : Nat → Option Nat → Option (Option Nat)
  | _, none => some none
  | 0, some _ => none
  | fuel + 1, some prevNode =>
      if (page.nodes prevNode).allocated then page.freeBefore fuel (page.nodes prevNode).prev
      else some (some prevNode)

def freeMergeNone (page : GeneralPoolPage) (node : Nat) : Option GeneralPoolPage :=
  match page.available with
  | some first =>
      (page.freeBefore defaultPageSize (page.nodes node).prev).map fun
        | some prevNode =>
            let page := match (page.nodes prevNode).availableNext with
              | some after => (page.edit after ({ · with availablePrev := some node })).edit node
                  ({ · with availableNext := some after })
              | none => page
            (page.edit prevNode ({ · with availableNext := some node })).edit node
              ({ · with availablePrev := some prevNode })
        | none =>
            let page := page.edit first ({ · with availablePrev := some node })
            { page.edit node ({ · with availableNext := some first }) with available := some node }
  | none => some { page with available := some node }

/-- The neighbours of a freed node decide what it is merged with. -/
def freeMerge (page : GeneralPoolPage) (node : Nat) : Option GeneralPoolPage :=
  match (page.nodes node).prev, (page.nodes node).next with
  | some prevNode, some nextNode =>
      if !(page.nodes prevNode).allocated then
        if !(page.nodes nextNode).allocated then
          some (page.freeMergePrevAndNext node prevNode nextNode)
        else some (page.freeMergePrev node prevNode)
      else if !(page.nodes nextNode).allocated then some (page.freeMergeNext node nextNode)
      else page.freeMergeNone node
  | some prevNode, none =>
      if !(page.nodes prevNode).allocated then some (page.freeMergePrev node prevNode)
      else page.freeMergeNone node
  | none, some nextNode =>
      if !(page.nodes nextNode).allocated then some (page.freeMergeNext node nextNode)
      else page.freeMergeNone node
  | none, none => page.freeMergeNone node

end GeneralPoolPage

/-- What `alloc` returns: memory in a page, or memory of the default allocator. -/
inductive Pointer where
  | paged (page memory : Nat)
  | runtime (block : Nat)
  deriving DecidableEq, Repr

/-- `runtimeNodes` are the headers of the blocks of the default allocator, `newRuntime` of which
were made. -/
structure GeneralPoolImpl where
  pages : Nat → GeneralPoolPage := fun _ => {}
  newPages : Nat := 0
  missingPage : Option Nat := none
  availablePage : Option Nat := none
  runtimeNodes : Nat → GeneralPoolNode := fun _ => {}
  newRuntime : Nat := 0

namespace GeneralPoolImpl

/-- One page is written to. -/
def edit (pool : GeneralPoolImpl) (page : Nat) (f : GeneralPoolPage → GeneralPoolPage) :
    GeneralPoolImpl :=
  { pool with pages := Function.update pool.pages page (f (pool.pages page)) }

def editIf (pool : GeneralPoolImpl) (page : Option Nat) (f : GeneralPoolPage → GeneralPoolPage) :
    GeneralPoolImpl :=
  match page with
  | some page => pool.edit page f
  | none => pool

def allocPage (pool : GeneralPoolImpl) : GeneralPoolImpl :=
  let page := pool.newPages
  let pool := { pool with newPages := page + 1 }
  let pool := pool.edit page fun _ =>
    { prev := none, next := pool.availablePage, availableSize := defaultPageSize }
  let pool := pool.editIf pool.availablePage ({ · with prev := some page })
  let pool := { pool with availablePage := some page }
  pool.edit page fun p =>
    { p.edit firstNode fun _ => { GeneralPoolNode.clear (some page) with
        size := p.availableSize - nodeSize } with
      available := some firstNode }

/-- `GeneralPool_Impl()` -/
def init : GeneralPoolImpl := allocPage {}

/-- The first available node that is large enough; nothing when the loop does not end. -/
def fitting (page : GeneralPoolPage) (size : Nat) : Nat → Option Nat → Option (Option Nat)
  | _, none => some none
  | 0, some _ => none
  | fuel + 1, some node =>
      if (page.nodes node).size ≥ size then some (some node)
      else fitting page size fuel (page.nodes node).availableNext

/-- A page that is often too full goes to the missing pages. -/
def toMissing (pool : GeneralPoolImpl) (page : Nat) : GeneralPoolImpl :=
  let next := (pool.pages page).next
  let pool := pool.editIf (pool.pages page).prev ({ · with next })
  let pool := pool.editIf (pool.pages page).next ({ · with prev := (pool.pages page).prev })
  let pool := if pool.availablePage = some page then { pool with availablePage := next } else pool
  let pool := pool.edit page ({ · with prev := none, next := pool.missingPage })
  let pool := pool.editIf pool.missingPage ({ · with prev := some page })
  { pool with missingPage := some page }

/-- The loop over the available pages of `alloc`, up to the page and node that it takes. -/
def search (size : Nat) : Nat → GeneralPoolImpl → Option Nat →
    Option (GeneralPoolImpl × Option (Nat × Nat))
  | _, pool, none => some (pool, none)
  | 0, _, some _ => none
  | fuel + 1, pool, some page =>
      let p := pool.pages page
      if p.availableSize ≥ size + nodeSize then
        match fitting p size defaultPageSize p.available with
        | none => none
        | some (some node) => some (pool, some (page, node))
        | some none => search size fuel pool p.next
      else
        let pool := pool.edit page ({ · with miss := p.miss + 1 })
        if p.miss + 1 > maxMissCount then search size fuel (pool.toMissing page) p.next
        else search size fuel pool p.next

/-- A node is split if the rest is worth it, else handed out whole. -/
def take (p : GeneralPoolPage) (node size realSize : Nat) : GeneralPoolPage :=
  let p := { p with availableSize := p.availableSize - (size + nodeSize) }
  let p := if (p.nodes node).size ≥ size + nodeSize + minAllocSize then p.splitAllocNode node size
    else p.removeAvailableList node
  p.edit node ({ · with realSize })

def padded (size : Nat) : Nat :=
  let size := if size < minAllocSize then minAllocSize else size
  (size / minAllocSize + if size % minAllocSize = 0 then 0 else 1) * minAllocSize

/-- `alloc`, which calls itself after a new page was made; nothing when a loop does not end or the
calls are nested deeper. -/
def allocFrom : Nat → GeneralPoolImpl → Nat → Option (Pointer × GeneralPoolImpl)
  | 0, _, _ => none
  | depth + 1, pool, realSize =>
      let size := padded realSize
      if size + nodeSize > defaultPageSize then
        let node := { GeneralPoolNode.clear none with size, realSize, allocated := true }
        some (.runtime pool.newRuntime, { pool with
          runtimeNodes := Function.update pool.runtimeNodes pool.newRuntime node
          newRuntime := pool.newRuntime + 1 })
      else
        match search size pool.newPages pool pool.availablePage with
        | none => none
        | some (pool, some (page, node)) =>
            some (.paged page (getMemory node), pool.edit page (take · node size realSize))
        | some (pool, none) => allocFrom depth pool.allocPage size

def alloc (pool : GeneralPoolImpl) (size : Nat) : Option (Pointer × GeneralPoolImpl) :=
  allocFrom 2 pool size

/-- A page of which something was freed comes back from the missing pages. -/
def toAvailable (pool : GeneralPoolImpl) (page : Nat) : GeneralPoolImpl :=
  let pool := pool.edit page ({ · with miss := 0 })
  let pool := pool.editIf (pool.pages page).prev ({ · with next := (pool.pages page).next })
  let pool := pool.editIf (pool.pages page).next ({ · with prev := (pool.pages page).prev })
  let pool := if pool.missingPage = some page then
    { pool with missingPage := (pool.pages page).next } else pool
  let pool := pool.edit page ({ · with prev := none, next := pool.availablePage })
  let pool := pool.editIf pool.availablePage ({ · with prev := some page })
  { pool with availablePage := some page }

/-- Nothing when a header does not belong to its allocator or a loop does not end. -/
def free (pool : GeneralPoolImpl) : Pointer → Option GeneralPoolImpl
  | .runtime block =>
      if (pool.runtimeNodes block).size + nodeSize > defaultPageSize then some pool else none
  | .paged page memory =>
      let node := nodeOf memory
      let header := (pool.pages page).nodes node
      if header.size + nodeSize > defaultPageSize then none
      else
        match header.owner with
        | none => none
        | some owner =>
            let pool := pool.edit page fun p => p.edit node ({ · with allocated := false })
            let pool := pool.edit owner fun p =>
              { p with availableSize := unsignedInt (p.availableSize + (header.size + nodeSize)) }
            ((pool.pages owner).freeMerge node).map fun merged =>
              let pool := pool.edit owner fun _ => merged
              if (pool.pages owner).miss > maxMissCount then pool.toAvailable owner else pool

end GeneralPoolImpl

inductive PoolCall where
  | alloc (n : Nat)
  | free (p : Pointer)
  deriving DecidableEq, Repr

/-- A pool and the blocks that were handed out and not yet freed, with the sizes asked for. -/
structure PoolRun where
  pool : GeneralPoolImpl := .init
  handed : List (Pointer × Nat) := []

namespace PoolRun

/-- A block smaller than a page is asked for, or one that was handed out is freed. -/
def Valid (r : PoolRun) : PoolCall → Prop
  | .alloc n => n < defaultPageSize
  | .free p => p ∈ r.handed.map (·.1)

instance (r : PoolRun) : (call : PoolCall) → Decidable (r.Valid call)
  | .alloc n => inferInstanceAs (Decidable (n < defaultPageSize))
  | .free p => inferInstanceAs (Decidable (p ∈ r.handed.map (·.1)))

/-- Nothing when the call does not return. -/
def call (r : PoolRun) : PoolCall → Option PoolRun
  | .alloc n => (r.pool.alloc n).map fun (p, pool) => { pool, handed := (p, n) :: r.handed }
  | .free p => (r.pool.free p).map fun pool => { pool, handed := r.handed.filter (·.1 ≠ p) }

def Steps (r : PoolRun) (c : PoolCall) (r' : PoolRun) : Prop := r.Valid c ∧ r.call c = some r'

end PoolRun

/-- Each node starts where the memory of the one before it ends. -/
def Tiles (nodes : Nat → GeneralPoolNode) : Nat → List Nat → Nat → Prop
  | start, [], stop => start = stop
  | start, node :: rest, stop =>
      node = start ∧ Tiles nodes (getMemory node + (nodes node).size) rest stop

/-- The nodes met from the first node on tile the page; those met from `available` on are the ones
of them that are not allocated, in their order, and no two of these are neighbours. -/
structure GeneralPoolPage.Intact (page : GeneralPoolPage) (nodes : List Nat) : Prop where
  linked : walk (fun node => (page.nodes node).next) defaultPageSize (some firstNode) = some nodes
  tiles : Tiles page.nodes firstNode nodes defaultPageSize
  available : walk (fun node => (page.nodes node).availableNext) defaultPageSize page.available =
    some (nodes.filter fun node => !(page.nodes node).allocated)
  merged : nodes.IsChain fun node next =>
    (page.nodes node).allocated = true ∨ (page.nodes next).allocated = true

/-- Blocks of one page do not overlap; those of the default allocator are different. -/
def Apart : Pointer × Nat → Pointer × Nat → Prop
  | (.paged page memory, n), (.paged page' memory', n') =>
      page = page' → memory + n ≤ memory' ∨ memory' + n' ≤ memory
  | (.runtime block, _), (.runtime block', _) => block ≠ block'
  | _, _ => True

/-- A block of a page lies in the page. -/
def PoolRun.Inside (r : PoolRun) : Pointer × Nat → Prop
  | (.paged page memory, n) => page < r.pool.newPages ∧ memory + n ≤ defaultPageSize
  | (.runtime _, _) => True

structure PoolRun.Intact (r : PoolRun) : Prop where
  pages : ∃ available missing,
    walk (fun page => (r.pool.pages page).next) r.pool.newPages r.pool.availablePage =
      some available ∧
    walk (fun page => (r.pool.pages page).next) r.pool.newPages r.pool.missingPage = some missing ∧
    (available ++ missing).Perm (List.range r.pool.newPages)
  nodes : ∀ page < r.pool.newPages, ∃ nodes, (r.pool.pages page).Intact nodes
  inside : ∀ block ∈ r.handed, r.Inside block
  apart : r.handed.Pairwise Apart

end Cgsf.BaseLayer
