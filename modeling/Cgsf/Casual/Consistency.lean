import Cgsf.Casual.LogicEntry

/-!
# What the containers of the server should say
-/

namespace Cgsf.Casual
open Std SFLogicEntry

/-- The containers of a room in use list the same players, one to four, each under its own serial,
in its own team and with its own room index. -/
structure RoomConsistent (s : SFLogicEntry) (r : RoomRef) : Prop where
  observers : (s.rooms r).observers.Nodup
  size : 1 ≤ (s.rooms r).observers.length ∧ (s.rooms r).observers.length ≤ maxRoomMember
  members : ∀ (k : Int) p, (s.rooms r).roomMemberMap[k]? = some p ↔
    p ∈ (s.rooms r).observers ∧ (s.players p).serial = k
  teams : ∀ t (k : Int) p, ((s.rooms r).teams t).memberMap[k]? = some p ↔
    p ∈ (s.rooms r).observers ∧ (s.players p).serial = k ∧ (s.players p).teamType = t
  teamObservers : ∀ t p, p ∈ ((s.rooms r).teams t).observers ↔
    p ∈ (s.rooms r).observers ∧ (s.players p).teamType = t
  chief : ∃ p ∈ (s.rooms r).observers, (s.rooms r).roomChief = some p
  roomIndex : (s.rooms r).roomIndex = r ∧
    ∀ p ∈ (s.rooms r).observers, (s.players p).roomIndex = r

structure Consistent (s : SFLogicEntry) : Prop where
  rooms : ∀ (k : Nat) r, s.activeRooms[k]? = some r → RoomConsistent s r
  distinct : ∀ (k k' : Nat) r, s.activeRooms[k]? = some r → s.activeRooms[k']? = some r → k = k'
  belongs : ∀ p, inRoom (s.players p).state = true ↔
    ∃ (k : Nat) (r : RoomRef), s.activeRooms[k]? = some r ∧ p ∈ (s.rooms r).observers
  lobby : ∀ (k : Int) p, s.lobby[k]? = some p ↔
    (s.players p).state = .lobby ∧ (s.players p).serial = k

/-- Nothing in the lobby, in a room, in its teams or among its peers is about the player. -/
structure Forgotten (s : SFLogicEntry) (p : PlayerRef) (serial : Int) : Prop where
  lobby : serial ∉ s.lobby ∧ ∀ k : Int, s.lobby[k]? ≠ some p
  room : ∀ r, r < maxRoomCount → p ∉ (s.rooms r).observers ∧ serial ∉ (s.rooms r).roomMemberMap ∧
    ∀ k : Int, (s.rooms r).roomMemberMap[k]? ≠ some p
  team : ∀ r, r < maxRoomCount → ∀ t, p ∉ ((s.rooms r).teams t).observers ∧
    serial ∉ ((s.rooms r).teams t).memberMap ∧
    ∀ k : Int, ((s.rooms r).teams t).memberMap[k]? ≠ some p
  peers : ∀ r, r < maxRoomCount → serial ∉ (s.rooms r).peerMap

/-- The maps of the room manager share out the rooms of the start; the unused ones are the ones in
the none state, and they hold nobody. -/
structure Partitioned (s : SFLogicEntry) : Prop where
  empty : ∀ (k : Nat) r, s.emptyRooms[k]? = some r ↔
    k = r ∧ r < maxRoomCount ∧ (s.rooms r).state = .none
  active : ∀ (k : Nat) r, s.activeRooms[k]? = some r ↔
    k = r ∧ r < maxRoomCount ∧ (s.rooms r).state ≠ .none
  vacant : ∀ (k : Nat) r, s.emptyRooms[k]? = some r → (s.rooms r).observers = [] ∧
    (s.rooms r).roomMemberMap.isEmpty ∧ (s.rooms r).peerMap.isEmpty ∧
    ∀ t, ((s.rooms r).teams t).observers = [] ∧ ((s.rooms r).teams t).memberMap.isEmpty

/-- A room goes from the map of the rooms in use to the map of the others. -/
def Recalled (s s' : SFLogicEntry) (r : RoomRef) : Prop :=
  s.activeRooms[r]? = some r ∧ s'.emptyRooms[r]? = some r

/-! ## What a player that asks to enter a room is told -/

def Member (s : SFLogicEntry) (p : PlayerRef) (roomIndex : Int) : Prop :=
  ∃ r : RoomRef, (r : Int) = roomIndex ∧ r < maxRoomCount ∧ p ∈ (s.rooms r).observers

/-- The player's client got both replies since `s`. -/
def Replied (s s' : SFLogicEntry) (p : PlayerRef) (gameMode roomIndex : Int) : Prop :=
  ((s.players p).serial, .enterRoom gameMode roomIndex) ∈ s'.sent.drop s.sent.length ∧
    ∃ info, ((s.players p).serial, .roomMember info) ∈ s'.sent.drop s.sent.length

/-- The room takes new players, but has no place left. -/
def Crowded (s : SFLogicEntry) (roomIndex : Int) : Prop :=
  ∃ r : RoomRef, (r : Int) = roomIndex ∧ r < maxRoomCount ∧
    ((s.rooms r).state = .wait ∨ (s.rooms r).state = .play) ∧
    maxRoomMember ≤ (s.rooms r).observers.length

/-- Where a player goes that enters: a game that has begun makes it load first. -/
def enteredState (s : SFLogicEntry) (roomIndex : Int) : PlayerState :=
  if (s.rooms roomIndex.toNat).state = .play then .loading else .room

end Cgsf.Casual
