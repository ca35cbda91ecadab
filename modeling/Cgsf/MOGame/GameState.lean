import Cgsf.MOGame.MapComposite

/-!
# Actors on the tiles

An actor blocks the tile it stands on, so that others do not walk there.
-/

namespace Cgsf.MOGame

/-- What the components of an entity set. -/
def EntityType.blockType : EntityType → BlockType
  | .character => .character
  | .monster => .monster
  | _ => .none

/-- The maps and the entities that exist. -/
structure GameState (E : Type) where
  maps : Nat → Map
  entities : List E := []
  mMap : E → Option Nat := fun _ => none
  mPos : E → Point := fun _ => ⟨0, 0⟩

/-- What becomes of a character that is disconnected: it leaves, or, being dead, it has a script or
is sent to where it respawns. -/
inductive Death where
  | alive
  | callback
  | respawn (i : Nat) (p : Point)

def Map.tile (map : Map) (p : Point) : Point :=
  ⟨p.x.tdiv map.mTileWidth, p.y.tdiv map.mTileHeight⟩

namespace GameState

variable {E : Type} [DecidableEq E] (type : E → EntityType)
variable (s : GameState E)

def withMap (i : Nat) (map : Map) : GameState E := { s with maps := Function.update s.maps i map }

def block (e : E) (i : Nat) (p : Point) : GameState E :=
  let tile := (s.maps i).tile p
  s.withMap i ((s.maps i).blockTile tile.x tile.y (type e).blockType)

def free (e : E) (i : Nat) (p : Point) : Option (GameState E) := do
  let tile := (s.maps i).tile p
  return s.withMap i (← (s.maps i).freeTile tile.x tile.y (type e).blockType)

/-- `ActorComponent::removed`. -/
def removed (e : E) : Option (GameState E) :=
  match s.mMap e with
  | none => some s
  | some i => s.free type e i (s.mPos e)

/-- `Entity::setMap` with `ActorComponent::mapChanged`. -/
def setMap (e : E) (i : Nat) : GameState E :=
  { s with mMap := Function.update s.mMap e (some i) }.block type e i (s.mPos e)

def setPosition (e : E) (p : Point) : Option (GameState E) := do
  let s ← match s.mMap e with
    | none => some s
    | some i =>
        if (s.maps i).tile (s.mPos e) ≠ (s.maps i).tile p then
          (s.free type e i (s.mPos e)).map fun s => s.block type e i p
        else some s
  return { s with mPos := Function.update s.mPos e p }

/-- What spawn areas, scripts and items do: a new entity is put on a map. -/
def create (e : E) (i : Nat) (p : Point) : Option (GameState E) :=
  let s := { s with
    entities := s.entities ++ [e]
    mMap := Function.update s.mMap e none
    mPos := Function.update s.mPos e ⟨0, 0⟩ }
  (s.setMap type e i).setPosition type e p

/-- Whoever is beyond the map gets an arbitrary small position. -/
def checkPosition (e : E) (i : Nat) : Option (GameState E) :=
  if (type e).isVisible ∧ ((s.mPos e).x.tdiv (s.maps i).mTileWidth ≥ (s.maps i).mWidth ∨
      (s.mPos e).y.tdiv (s.maps i).mTileHeight ≥ (s.maps i).mHeight) then
    s.setPosition type e ⟨100, 100⟩
  else some s

/-- `GameState::insert`; `allocated` tells whether there was an id left. -/
def insert (e : E) (allocated : Bool) : Option (Bool × GameState E) := do
  let i ← s.mMap e
  let s ← s.checkPosition type e i
  if (type e).isVisible ∧ (type e).canMove ∧ !allocated then return (false, s)
  else return (true, s.setMap type e i)

def delete (e : E) : GameState E := { s with entities := s.entities.erase e }

def insertOrDelete (e : E) (allocated : Bool) : Option (GameState E) := do
  let (inserted, s) ← s.insert type e allocated
  return if inserted then s else s.delete e

def disconnected (e : E) (death : Death) : Option (GameState E) :=
  match death with
  | .alive => s.removed type e
  | .callback => some s
  | .respawn i p => do
      let s ← s.removed type e
      (s.setMap type e i).setPosition type e p

/-- A delayed removal. -/
def removeEvent (e : E) (death : Death) : Option (GameState E) := do
  let s ← s.removed type e
  let s ← if type e = .character then s.disconnected type e death else some s
  return s.delete e

def computerDisconnected (e : E) (death : Death) : Option (GameState E) := do
  let s ← s.disconnected type e death
  return s.delete e

/-- `connected` tells whether the client is still there, `active` whether the map is on this
server. -/
def warp (e : E) (i : Nat) (p : Point) (connected active allocated : Bool) (death : Death) :
    Option (GameState E) := do
  let s ← s.removed type e
  let s ← (s.setMap type e i).setPosition type e p
  if !connected ∨ !active then return s
  else
    let (inserted, s) ← s.insert type e allocated
    if inserted then return s
    else s.computerDisconnected type e death

end GameState

inductive GameEvent (E : Type) where
  | create (e : E) (i : Nat) (p : Point)
  | insert (e : E) (allocated : Bool)
  | move (e : E) (p : Point)
  | remove (e : E) (death : Death)
  | disconnect (e : E) (death : Death)
  | warp (e : E) (i : Nat) (p : Point) (connected active allocated : Bool) (death : Death)

/-- `none` where an assertion fails. -/
def GameState.step {E : Type} [DecidableEq E] (type : E → EntityType) (s : GameState E) :
    GameEvent E → Option (GameState E)
  | .create e i p => s.create type e i p
  | .insert e allocated => s.insertOrDelete type e allocated
  | .move e p => s.setPosition type e p
  | .remove e death => s.removeEvent type e death
  | .disconnect e death => s.computerDisconnected type e death
  | .warp e i p connected active allocated death =>
      s.warp type e i p connected active allocated death

end Cgsf.MOGame
