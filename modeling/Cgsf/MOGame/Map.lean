import Cgsf.Library.BestFirst
import Mathlib.Data.Int.Order.Basic
import Mathlib.Data.UInt

/-!
# Tile maps and the search for a path

One `FindPath` object serves all maps, and what it noted of a tile stays there until the next search
comes by.
-/

namespace Cgsf.MOGame
open Library

structure Point where
  x : Int
  y : Int
  deriving DecidableEq, Repr

abbrev Path := List Point

inductive BlockType where
  | none | wall | character | monster
  deriving DecidableEq, Repr

structure MetaTile where
  occupation : BlockType → Nat := fun _ => 0
  blockmask : UInt8 := 0

structure Map where
  mWidth : Int
  mHeight : Int
  mTileWidth : Int
  mTileHeight : Int
  mMetaTiles : List MetaTile
  width_nonneg : 0 ≤ mWidth
  height_nonneg : 0 ≤ mHeight
  tiles_length : (mMetaTiles.length : Int) = mWidth * mHeight

namespace Map

def blockmaskWall : UInt8 := 0x80
def blockmaskCharacter : UInt8 := 0x01
def blockmaskMonster : UInt8 := 0x02

def uintMax : Nat := 2 ^ 32 - 1

variable (map : Map)

def contains (x y : Int) : Bool := 0 ≤ x ∧ 0 ≤ y ∧ x < map.mWidth ∧ y < map.mHeight

/-- The bit of a kind of occupant. -/
def maskBit : BlockType → UInt8
  | .none => 0
  | .wall => blockmaskWall
  | .character => blockmaskCharacter
  | .monster => blockmaskMonster

def metaTile (x y : Int) : MetaTile := map.mMetaTiles.getD (x + y * map.mWidth).toNat {}

def setMetaTile (x y : Int) (tile : MetaTile) : Map :=
  { map with
    mMetaTiles := map.mMetaTiles.set (x + y * map.mWidth).toNat tile
    tiles_length := by rw [List.length_set, map.tiles_length] }

def blockTile (x y : Int) (type : BlockType) : Map :=
  if type = .none ∨ !map.contains x y then map
  else
    let metaTile := map.metaTile x y
    if metaTile.occupation type < uintMax then
      map.setMetaTile x y {
        occupation := Function.update metaTile.occupation type (metaTile.occupation type + 1)
        blockmask := metaTile.blockmask ||| maskBit type }
    else map

/-- `none` where the assertion fails. -/
def freeTile (x y : Int) (type : BlockType) : Option Map :=
  if type = .none ∨ !map.contains x y then some map
  else
    let metaTile := map.metaTile x y
    if metaTile.occupation type = 0 then none
    else
      let left := metaTile.occupation type - 1
      some (map.setMetaTile x y {
        occupation := Function.update metaTile.occupation type left
        blockmask :=
          if left = 0 then metaTile.blockmask &&& (maskBit type ^^^ 0xff) else metaTile.blockmask })

def getWalk (x y : Int) (walkmask : UInt8) : Bool :=
  map.contains x y && (map.metaTile x y).blockmask &&& walkmask == 0

end Map

structure PathInfo where
  gcost : Int := 0
  hcost : Int := 0
  whichList : Nat := 0
  parentX : Int := 0
  parentY : Int := 0
  deriving DecidableEq, Repr

structure Location where
  x : Int
  y : Int
  fcost : Int
  deriving DecidableEq, Repr

/-- The comparison that puts the least cost to the top of the open list. -/
def Location.Less (a b : Location) : Prop := a.fcost > b.fcost

structure FindPath where
  mWidth : Int := 0
  mPathInfos : List PathInfo := []
  mOnClosedList : Nat := 1
  mOnOpenList : Nat := 2
  deriving DecidableEq, Repr

namespace FindPath

def basicCost : Int := 100
def diagonalCost : Int := basicCost * 362 / 256

/-- `at` throws where there is no such place. -/
def getInfo (f : FindPath) (x y : Int) : Option PathInfo :=
  if x + y * f.mWidth < 0 then none else f.mPathInfos[(x + y * f.mWidth).toNat]?

def setInfo (f : FindPath) (x y : Int) (info : PathInfo) : FindPath :=
  { f with mPathInfos := f.mPathInfos.set (x + y * f.mWidth).toNat info }

def prepare (f : FindPath) (map : Map) : FindPath :=
  let f :=
    if f.mOnOpenList < Map.uintMax - 2 then
      { f with mOnClosedList := f.mOnClosedList + 2, mOnOpenList := f.mOnOpenList + 2 }
    else
      { f with
        mOnClosedList := 1
        mOnOpenList := 2
        mPathInfos := f.mPathInfos.map fun info => { info with whichList := 0 } }
  let size := (map.mWidth * map.mHeight).toNat
  { f with
    mPathInfos := f.mPathInfos ++ List.replicate (size - f.mPathInfos.length) ({} : PathInfo)
    mWidth := map.mWidth }

/-- What the search changes: the notes on the tiles, the open list and whether the target was
found. -/
structure Search (Q : Type) where
  find : FindPath
  openList : Q
  foundPath : Bool

section search

variable {Q : Type} (queue : PriorityQueue Location Q Location.Less)
variable (map : Map) (walkmask : UInt8) (dest : Point) (maxCost : Int)

/-- Straight moves first cost as much as the basic cost and are then demoted by 1. -/
def moveCost (dx dy : Int) : Int :=
  let cost := if dx = 0 ∨ dy = 0 then basicCost else diagonalCost
  if dx = 0 ∨ dy = 0 then cost + 1 else cost

def estimate (x y : Int) : Int :=
  let dx := |x - dest.x|
  let dy := |y - dest.y|
  |dx - dy| * basicCost + min dx dy * diagonalCost

/-- One turn of the inner loop. -/
def checkAdjacent (curr : Location) (s : Search Q) (direction : Int × Int) : Option (Search Q) :=
  let (dx, dy) := direction
  let x := curr.x + dx
  let y := curr.y + dy
  if (dx = 0 ∧ dy = 0) ∨ !map.contains x y then some s
  else do
    let newTile ← s.find.getInfo x y
    if newTile.whichList = s.find.mOnClosedList ∨ !map.getWalk x y walkmask then some s
    else if (dx ≠ 0 ∧ dy ≠ 0) ∧
        (!map.getWalk curr.x (curr.y + dy) walkmask ∨ !map.getWalk (curr.x + dx) curr.y walkmask) then
      some s
    else
      let currInfo ← s.find.getInfo curr.x curr.y
      let gcost := currInfo.gcost + moveCost dx dy
      if gcost > maxCost * basicCost then some s
      else if newTile.whichList ≠ s.find.mOnOpenList then
        let hcost := estimate dest x y
        let newTile := { newTile with gcost, hcost, parentX := curr.x, parentY := curr.y }
        if x ≠ dest.x ∨ y ≠ dest.y then
          some { s with
            find := s.find.setInfo x y { newTile with whichList := s.find.mOnOpenList }
            openList := queue.push s.openList ⟨x, y, gcost + hcost⟩ }
        else some { s with find := s.find.setInfo x y newTile, foundPath := true }
      else if gcost < newTile.gcost then
        some { s with
          find := s.find.setInfo x y { newTile with gcost, parentX := curr.x, parentY := curr.y }
          openList := queue.push s.openList ⟨x, y, gcost + newTile.hcost⟩ }
      else some s

def directions : List (Int × Int) :=
  [-1, 0, 1].flatMap fun dy => [-1, 0, 1].map fun dx => (dx, dy)

/-- The `while` loop over the open list. -/
def searchLoop : Nat → Search Q → Option (Search Q)
  | 0, _ => none
  | fuel + 1, s =>
      match queue.top s.openList with
      | none => some s
      | some curr =>
          if s.foundPath then some s
          else do
            let s := { s with openList := queue.pop s.openList }
            let currInfo ← s.find.getInfo curr.x curr.y
            if currInfo.whichList = s.find.mOnClosedList then searchLoop fuel s
            else
              let currInfo := { currInfo with whichList := s.find.mOnClosedList }
              let s := { s with find := s.find.setInfo curr.x curr.y currInfo }
              let s ← directions.foldlM (checkAdjacent queue map walkmask dest maxCost curr) s
              searchLoop fuel s

/-- The loop that follows the parents back to the start. -/
def extract (f : FindPath) (start : Point) : Nat → Int → Int → Path → Option Path
  | 0, _, _, _ => none
  | fuel + 1, pathX, pathY, path =>
      if pathX ≠ start.x ∨ pathY ≠ start.y then do
        let tile ← f.getInfo pathX pathY
        extract f start fuel tile.parentX tile.parentY (⟨pathX, pathY⟩ :: path)
      else some path

/-- Every turn of the search closes a tile or takes a location off the open list, which gets at most
nine for a closed tile; every step back has a lower cost. -/
def findPath (f : FindPath) (start : Point) : Option (FindPath × Path) :=
  if !map.getWalk dest.x dest.y walkmask then some (f, [])
  else do
    let f := f.prepare map
    let startTile ← f.getInfo start.x start.y
    let f := f.setInfo start.x start.y { startTile with gcost := 0 }
    let openList := queue.push queue.empty ⟨start.x, start.y, 0⟩
    let s ← searchLoop queue map walkmask dest maxCost (10 * f.mPathInfos.length + 2)
      ⟨f, openList, false⟩
    if s.foundPath then
      let found ← s.find.getInfo dest.x dest.y
      let path ← s.find.extract start (found.gcost.toNat + 1) dest.x dest.y []
      return (s.find, path)
    else return (s.find, [])

end search

end FindPath

/-- A call of `Map::findPath`. -/
structure PathRequest where
  map : Map
  start : Point
  dest : Point
  walkmask : UInt8
  maxCost : Int

def PathRequest.serve {Q : Type} (queue : PriorityQueue Location Q Location.Less)
    (request : PathRequest) (f : FindPath) : Option (FindPath × Path) :=
  f.findPath queue request.map request.walkmask request.dest request.maxCost request.start

end Cgsf.MOGame
