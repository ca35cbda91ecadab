import Cgsf.MOGame.Map
import Mathlib.Logic.Function.Basic

/-!
# What is on a map

The entities of a map are kept once more in square zones, so that whoever stands near a place is
found without looking at all of them.
-/

namespace Cgsf.MOGame

inductive EntityType where
  | item | npc | monster | character | effect | other
  deriving DecidableEq, Repr

namespace EntityType

def isVisible (type : EntityType) : Bool := type ≠ .other

def canMove (type : EntityType) : Bool := type = .character ∨ type = .monster ∨ type = .npc

end EntityType

def Point.inRangeOf (p q : Point) (radius : Int) : Bool :=
  |p.x - q.x| ≤ radius ∧ |p.y - q.y| ≤ radius

/-- Ordered sets of zones. -/
abbrev MapRegion := List Nat

def zoneDiam : Int := 256

/-- Characters are stored first, then what else can move, then the rest. -/
structure MapZone (E : Type) where
  nbCharacters : Nat := 0
  nbMovingObjects : Nat := 0
  objects : List E := []
  destinations : MapRegion := []
  deriving DecidableEq, Repr

namespace MapZone

variable {E : Type} (type : E → EntityType)

/-- The second case of the switch, into which the first one falls. -/
def insertMoving (z : MapZone E) (obj : E) : Option (MapZone E) := do
  if z.nbMovingObjects ≠ z.objects.length then
    let fixed ← z.objects[z.nbMovingObjects]?
    return { z with
      objects := (z.objects ++ [fixed]).set z.nbMovingObjects obj
      nbMovingObjects := z.nbMovingObjects + 1 }
  else
    return { z with
      objects := z.objects ++ [obj]
      nbMovingObjects := z.nbMovingObjects + 1 }

def insert (z : MapZone E) (obj : E) : Option (MapZone E) :=
  match type obj with
  | .character =>
      if z.nbCharacters ≠ z.nbMovingObjects then do
        let moving ← z.objects[z.nbCharacters]?
        let objects ← if z.nbMovingObjects ≠ z.objects.length then do
            let fixed ← z.objects[z.nbMovingObjects]?
            pure ((z.objects ++ [fixed]).set z.nbMovingObjects moving)
          else pure (z.objects ++ [moving])
        return { z with
          objects := objects.set z.nbCharacters obj
          nbCharacters := z.nbCharacters + 1
          nbMovingObjects := z.nbMovingObjects + 1 }
      else { z with nbCharacters := z.nbCharacters + 1 }.insertMoving obj
  | .monster | .npc => z.insertMoving obj
  | _ => some { z with objects := z.objects ++ [obj] }

variable [DecidableEq E]

/-- The part of the objects in which an entity is looked for. -/
def bounds (z : MapZone E) (obj : E) : Nat × Nat :=
  match type obj with
  | .character => (0, z.nbCharacters)
  | .monster | .npc => (z.nbCharacters, z.nbMovingObjects)
  | _ => (z.nbMovingObjects, z.objects.length)

/-- The last of a part is put where the hole is. -/
def fillHole (objects : List E) (pos count : Nat) : Option (List E × Nat × Nat) :=
  if pos < count then do
    let other ← objects[count - 1]?
    return (objects.set pos other, count - 1, count - 1)
  else some (objects, pos, count)

/-- `none` where the entity is not found, for which there is an assertion. -/
def remove (z : MapZone E) (obj : E) : Option (MapZone E) := do
  let (first, last) := z.bounds type obj
  let offset ← ((z.objects.take last).drop first).idxOf? obj
  let (objects, pos, nbCharacters) ← fillHole z.objects (first + offset) z.nbCharacters
  let (objects, pos, nbMovingObjects) ← fillHole objects pos z.nbMovingObjects
  let other ← objects[objects.length - 1]?
  return { z with objects := (objects.set pos other).dropLast, nbCharacters, nbMovingObjects }

end MapZone

def addZone (r : MapRegion) (z : Nat) : MapRegion :=
  let before := r.takeWhile (· < z)
  let rest := r.dropWhile (· < z)
  if rest.head? = some z then r else before ++ z :: rest

/-- `std::set_union`. -/
def setUnion : MapRegion → MapRegion → MapRegion
  | [], s => s
  | r, [] => r
  | a :: r, b :: s =>
      if a < b then a :: setUnion r (b :: s)
      else if b < a then b :: setUnion (a :: r) s
      else a :: setUnion r s

/-- The entities of a map, with where they are and where they were before the last update. -/
structure MapContent (E : Type) where
  entities : List E := []
  zones : List (MapZone E)
  mapWidth : Nat
  mapHeight : Nat
  position : E → Point
  oldPosition : E → Point

/-- Iterates through the zones of a region; an empty one means the entire map. -/
structure ZoneIterator where
  region : MapRegion
  pos : Nat
  current : Option Nat
  deriving DecidableEq, Repr

structure EntityIterator (E : Type) where
  iterator : ZoneIterator
  pos : Nat
  current : Option E

/-- The iterators differ in the part of a zone that they pass. -/
inductive IteratorType where
  | character | being | fixedActor | actor
  deriving DecidableEq, Repr

namespace IteratorType

variable {E : Type}

def first : IteratorType → MapZone E → Nat
  | .fixedActor, z => z.nbMovingObjects
  | _, _ => 0

def last : IteratorType → MapZone E → Nat
  | .character, z => z.nbCharacters
  | .being, z => z.nbMovingObjects
  | .fixedActor, z => z.objects.length
  | .actor, z => z.objects.length

end IteratorType

namespace MapContent

section regions

variable {E : Type} (m : MapContent E)

/-- The zones of the loops over `y` and `x`, both ends included. -/
def fillZones (r : MapRegion) (ax ay bx by₁ : Int) : MapRegion :=
  let upTo (lo hi : Int) : List Int := (List.range (hi - lo + 1).toNat).map fun (n : Nat) => lo + (n : Int)
  (upTo ay by₁).foldl (fun r y =>
    (upTo ax bx).foldl (fun r x => addZone r (x + y * (m.mapWidth : Int)).toNat) r) r

def fillRegion (r : MapRegion) (p : Point) (radius : Int) : MapRegion :=
  m.fillZones r
    (if p.x > radius then (p.x - radius).tdiv zoneDiam else 0)
    (if p.y > radius then (p.y - radius).tdiv zoneDiam else 0)
    (min ((p.x + radius).tdiv zoneDiam) ((m.mapWidth : Int) - 1))
    (min ((p.y + radius).tdiv zoneDiam) ((m.mapHeight : Int) - 1))

def getZone (pos : Point) : Nat :=
  (pos.x.tdiv zoneDiam + pos.y.tdiv zoneDiam * (m.mapWidth : Int)).toNat

def setZone (i : Nat) (z : MapZone E) : MapContent E := { m with zones := m.zones.set i z }

def zoneIterator (region : MapRegion) : ZoneIterator := ⟨region, 0, some (region.headD 0)⟩

def nextZone (it : ZoneIterator) : ZoneIterator :=
  let pos := it.pos + 1
  if it.region ≠ [] then
    if pos ≠ it.region.length then { it with pos, current := it.region[pos]? }
    else { it with pos, current := none }
  else if pos ≠ m.mapWidth * m.mapHeight then { it with pos, current := some pos }
  else { it with pos, current := none }

variable (t : IteratorType)

/-- Passes the zones in which there is nothing for the iterator. -/
def skipZones : Nat → ZoneIterator → Option ZoneIterator
  | 0, _ => none
  | fuel + 1, it =>
      match it.current with
      | none => some it
      | some i => do
          let z ← m.zones[i]?
          if t.first z = t.last z then skipZones fuel (m.nextZone it) else some it

def arrive (it : ZoneIterator) : Option (EntityIterator E) :=
  match it.current with
  | none => some ⟨it, 0, none⟩
  | some i => do
      let z ← m.zones[i]?
      let current ← z.objects[t.first z]?
      return ⟨it, t.first z, current⟩

def entityIterator (it : ZoneIterator) : Option (EntityIterator E) := do
  m.arrive t (← m.skipZones t (it.region.length + m.mapWidth * m.mapHeight + 1) it)

def nextEntity (it : EntityIterator E) : Option (EntityIterator E) := do
  let z ← m.zones[← it.iterator.current]?
  if it.pos + 1 = t.last z then m.entityIterator t (m.nextZone it.iterator)
  else
    let current ← z.objects[it.pos + 1]?
    return { it with pos := it.pos + 1, current }

/-- What a loop over an iterator sees. -/
def visit : Nat → EntityIterator E → Option (List E)
  | 0, _ => none
  | fuel + 1, it =>
      match it.iterator.current with
      | none => some []
      | some _ => do
          let e ← it.current
          return e :: (← visit fuel (← m.nextEntity t it))

/-- No loop sees more than this. -/
def visitFuel (region : MapRegion) : Nat :=
  (region.length + m.mapWidth * m.mapHeight) * (m.zones.map fun z => z.objects.length).sum + 1

def visitAll (region : MapRegion) : Option (List E) := do
  m.visit t (m.visitFuel region) (← m.entityIterator t (zoneIterator region))

end regions

section changes

variable {E : Type} [DecidableEq E] (type : E → EntityType) (m : MapContent E)

def insertIntoZone (e : E) : Option (MapContent E) :=
  if (type e).isVisible then do
    let i := m.getZone (m.position e)
    let z ← m.zones[i]?
    return m.setZone i (← MapZone.insert type z e)
  else some m

/-- The entity is put where it is to be and then inserted. -/
def insert (e : E) (p : Point) : Option (MapContent E) := do
  let m ← insertIntoZone type { m with position := Function.update m.position e p } e
  return { m with
    entities := m.entities ++ [e]
    oldPosition := if (type e).canMove then Function.update m.oldPosition e p else m.oldPosition }

def remove (e : E) : Option (MapContent E) := do
  let m := { m with entities := m.entities.erase e }
  if (type e).isVisible then
    let i := m.getZone (m.position e)
    let z ← m.zones[i]?
    return m.setZone i (← MapZone.remove type z e)
  else return m

/-- `none` for a being that is immobile. -/
def move (e : E) : Option Point → MapContent E
  | none => m
  | some p => { m with
      oldPosition := Function.update m.oldPosition e (m.position e)
      position := Function.update m.position e p }

def changeZone (e : E) : Option (MapContent E) :=
  if !(type e).canMove then some m
  else
    let i := m.getZone (m.oldPosition e)
    let j := m.getZone (m.position e)
    if i = j then some m
    else do
      let src ← m.zones[i]?
      let src ← MapZone.remove type { src with destinations := addZone src.destinations j } e
      let dst ← m.zones[j]?
      let dst ← MapZone.insert type dst e
      return (m.setZone i src).setZone j dst

def clearDestinations : MapContent E :=
  { m with zones := m.zones.map fun z => { z with destinations := [] } }

def update (moves : E → Option Point) : Option (MapContent E) := do
  let beings ← m.visitAll .being []
  let m := (beings.foldl (fun m e => m.move e (moves e)) m).clearDestinations
  m.entities.foldlM (fun m e => m.changeZone type e) m

def getAroundPoint (t : IteratorType) (p : Point) (radius : Int) : Option (List E) :=
  m.visitAll t (m.fillRegion [] p radius)

def getAroundBeing (t : IteratorType) (e : E) (radius : Int) : Option (List E) := do
  let r₁ := m.fillRegion [] (m.oldPosition e) radius
  let r₂ ← r₁.foldlM (fun r₂ i => do
    let r₄ := (← m.zones[i]?).destinations
    return if r₄ = [] then r₂ else setUnion r₂ r₄) r₁
  m.visitAll t (m.fillRegion r₂ (m.position e) radius)

end changes

/-- The content of a map of so many pixels. -/
def ofSize {E : Type} (width height : Nat) : MapContent E :=
  let mapWidth := (width + 255) / 256 % 65536
  let mapHeight := (height + 255) / 256 % 65536
  { zones := List.replicate (mapWidth * mapHeight) {}
    mapWidth
    mapHeight
    position := fun _ => ⟨0, 0⟩
    oldPosition := fun _ => ⟨0, 0⟩ }

end MapContent

inductive MapEvent (E : Type) where
  | insert (e : E) (p : Point)
  | remove (e : E)
  | update (moves : E → Option Point)

/-- `none` where an assertion fails or something is read that is not there. -/
def MapContent.step {E : Type} [DecidableEq E] (type : E → EntityType) (m : MapContent E) :
    MapEvent E → Option (MapContent E)
  | .insert e p => m.insert type e p
  | .remove e => m.remove type e
  | .update moves => m.update type moves

/-- A bit that is set stands for an id that is free. -/
structure ObjectBucket (E : Type) where
  bitmap : List (BitVec 32) := List.replicate 8 (~~~(0 : BitVec 32))
  free : Nat := 256
  nextObject : Nat := 0
  objects : Nat → Option E := fun _ => none

namespace ObjectBucket

variable {E : Type} (b : ObjectBucket E)

def word (i : Nat) : BitVec 32 := b.bitmap.getD i 0

def isAllocated (i : Nat) : Bool := b.word (i / 32) &&& 1#32 <<< (i % 32) == 0

/-- The `while` loop over the bits of an `int`. -/
def lowestBit : Nat → BitVec 32 → Nat → Option Nat
  | 0, _, _ => none
  | fuel + 1, bits, j =>
      if bits &&& 1#32 = 0 then lowestBit fuel (bits.sshiftRight 1) (j + 1) else some j

/-- The word of the bitmap in which there is a free id. -/
def freeBucket : Option Nat :=
  if b.word b.nextObject ≠ 0 then some b.nextObject
  else (List.range 8).find? fun i => b.word i ≠ 0

/-- Gives no id where the bucket is full, and no result where the assertion fails. -/
def allocate : Option (Option Nat × ObjectBucket E) :=
  if b.free = 0 then some (none, b)
  else do
    let freeBucket ← b.freeBucket
    let j ← lowestBit 32 (b.word freeBucket) 0
    let bitmap := b.bitmap.set freeBucket (b.word freeBucket &&& ~~~(1#32 <<< j))
    return (some (j + freeBucket * 32), { b with
      bitmap
      nextObject := freeBucket
      free := b.free - 1 })

def deallocate (i : Nat) : Option (ObjectBucket E) :=
  if b.isAllocated i then
    some { b with
      bitmap := b.bitmap.set (i / 32) (b.word (i / 32) ||| 1#32 <<< (i % 32))
      free := b.free + 1 }
  else none

end ObjectBucket

/-- The part of a map's content that gives the beings their ids. -/
structure PublicIds (E : Type) where
  entities : List E
  buckets : List (Option (ObjectBucket E))
  lastBucket : Nat
  publicId : E → Nat

namespace PublicIds

variable {E : Type}

/-- The id 0 is skipped. -/
def start : PublicIds E where
  entities := []
  buckets := (do some (← ObjectBucket.allocate {}).2) :: List.replicate 255 none
  lastBucket := 0
  publicId := fun _ => 65535

variable [DecidableEq E] (m : PublicIds E)

def give (obj : E) (i j : Nat) (b : ObjectBucket E) : PublicIds E :=
  { m with
    buckets := m.buckets.set i (some { b with objects := Function.update b.objects j (some obj) })
    lastBucket := i
    publicId := Function.update m.publicId obj (i * 256 + j) }

/-- The loop over all buckets, from bucket `i` on. -/
def allocateFrom (obj : E) : Nat → Nat → Option (Bool × PublicIds E)
  | _, 0 => some (false, m)
  | i, more + 1 => do
      let b := (← m.buckets[i]?).getD {}
      let (j, b) ← b.allocate
      match j with
      | some j => return (true, m.give obj i j b)
      | none => allocateFrom obj (i + 1) more

def allocate (obj : E) : Option (Bool × PublicIds E) := do
  let b ← (← m.buckets[m.lastBucket]?)
  let (i, b) ← b.allocate
  match i with
  | some i => return (true, m.give obj m.lastBucket i b)
  | none => m.allocateFrom obj 0 256

def deallocate (obj : E) : Option (PublicIds E) := do
  let id := m.publicId obj % 65536
  let b ← (← m.buckets[id / 256]?)
  return { m with buckets := m.buckets.set (id / 256) (some (← b.deallocate (id % 256))) }

def findEntityById (publicId : Nat) : Option E := do
  let b ← (← m.buckets[publicId / 256]?)
  if b.isAllocated (publicId % 256) then b.objects (publicId % 256) else none

/-- `MapComposite::insert` for an entity that can move. -/
def insert (obj : E) : Option (Bool × PublicIds E) := do
  let (allocated, m) ← m.allocate obj
  return (allocated, if allocated then { m with entities := m.entities ++ [obj] } else m)

def remove (obj : E) : Option (PublicIds E) := do
  ({ m with entities := m.entities.erase obj } : PublicIds E).deallocate obj

end PublicIds

inductive IdEvent (E : Type) where
  | insert (obj : E)
  | remove (obj : E)

def PublicIds.step {E : Type} [DecidableEq E] (m : PublicIds E) : IdEvent E → Option (PublicIds E)
  | .insert obj => (m.insert obj).map Prod.snd
  | .remove obj => m.remove obj

end Cgsf.MOGame
