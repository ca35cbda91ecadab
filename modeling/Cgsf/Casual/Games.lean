import Cgsf.Casual.LogicEntry

/-!
# The games of the server

What the games see of rooms and players, and what one event can do to it. `hall` is the view of a
state of the server.
-/

namespace Cgsf.Casual
open Std SFLogicEntry

structure RoomView where
  members : List PlayerRef
  state : RoomState
  gameMode : Int
  currentGameMode : Option Int
  listed : Int → Prop

structure PlayerView where
  serial : Int
  state : PlayerState
  loadingComplete : Bool
  deriving DecidableEq, Repr

structure Hall where
  gameModes : List Int
  connected : Int → Option PlayerRef
  rooms : RoomRef → RoomView
  players : PlayerRef → PlayerView

def SFRoom.view (room : SFRoom) : RoomView where
  members := room.observers
  state := room.state
  gameMode := room.gameMode
  currentGameMode := room.currentGameMode
  listed := (· ∈ room.peerMap)

def SFPlayer.view (player : SFPlayer) : PlayerView where
  serial := player.serial
  state := player.state
  loadingComplete := player.loadingComplete

def hall (s : SFLogicEntry) : Hall where
  gameModes := s.gameModes
  connected serial := s.playerMap[serial]?
  rooms r := (s.rooms r).view
  players p := (s.players p).view

/-- The database answers requests that are on their way. -/
def SFLogicEntry.Possible (s : SFLogicEntry) (event : Event) : Prop :=
  match event with
  | .answer request _ | .noAnswer request => request < s.dbRequests.length
  | _ => True

/-- The player that an event takes away, by its own packet or because its connection ends. -/
def SFLogicEntry.leaver (s : SFLogicEntry) (event : Event) : Option PlayerRef :=
  match event with
  | .disconnect serial => s.playerMap[serial]?
  | .data serial .leaveRoom _ => s.playerMap[serial]?
  | _ => none

/-- The room that a player in the lobby asks to enter. -/
def SFLogicEntry.entrance (s : SFLogicEntry) (event : Event) : Option RoomRef :=
  match event with
  | .data serial (.enterRoom _ roomIndex) _ =>
      s.playerMap[serial]?.bind fun p =>
        if (s.players p).state = .lobby ∧ SFPlayerLobby.addressMissing s p = false then
          SFRoomManager.getRoom s roomIndex
        else none
  | _ => none

namespace Hall

variable (h h' : Hall)

def Seated (p : PlayerRef) : Prop := ∃ r, r < maxRoomCount ∧ p ∈ (h.rooms r).members

/-- Nothing happened to the players in rooms, apart from some. -/
structure Spared (apart : PlayerRef → Prop) : Prop where
  modes : h'.gameModes = h.gameModes
  players : ∀ p, h.Seated p → ¬apart p → h'.players p = h.players p

def Sets (r : RoomRef) (room : RoomView) : Prop := h'.rooms = Function.update h.rooms r room

/-- The player that says it has loaded. -/
def completing (event : Event) : Option PlayerRef :=
  match event with
  | .data serial .loadingComplete _ => h.connected serial
  | _ => none

def disconnecting (event : Event) : Option PlayerRef :=
  match event with
  | .disconnect serial => h.connected serial
  | _ => none

/-- The room lists one more peer. -/
def withPeer (r : RoomRef) (p : PlayerRef) : RoomView :=
  { h.rooms r with listed := fun k => k = (h.players p).serial ∨ (h.rooms r).listed k }

end Hall

open Hall in
/-- What one event does to the games. -/
inductive Move (event : Event) (h h' : Hall) : Prop where
  | idle (rooms : h'.rooms = h.rooms) (spared : h.Spared h' fun _ => False)
  | opens (p : PlayerRef) (r : RoomRef) (gameMode : Int) (inside : r < maxRoomCount)
      (outside : ¬h.Seated p) (unused : (h.rooms r).state = .none)
      (room : h.Sets h' r { h.rooms r with members := [p], state := .wait, gameMode })
      (spared : h.Spared h' fun _ => False) (mine : (h'.players p).state = .room)
  | enters (p : PlayerRef) (r : RoomRef) (inside : r < maxRoomCount) (outside : ¬h.Seated p)
      (room : h.Sets h' r { h.rooms r with members := (h.rooms r).members ++ [p] })
      (spared : h.Spared h' fun _ => False)
      (mine : (h.rooms r).state = .wait ∧ (h'.players p).state = .room ∨
        (h.rooms r).state = .play ∧ (h'.players p).state = .loading ∧
          (h'.players p).loadingComplete = false)
  | starts (r : RoomRef) (inside : r < maxRoomCount) (waits : (h.rooms r).state = .wait)
      (somebody : (h.rooms r).members ≠ [])
      (room : h.Sets h' r { h.rooms r with state := .loading })
      (spared : h.Spared h' (· ∈ (h.rooms r).members))
      (all : ∀ q ∈ (h.rooms r).members,
        h'.players q = { h.players q with state := .loading, loadingComplete := false })
  | completes (p : PlayerRef) (r : RoomRef) (inside : r < maxRoomCount)
      (asked : h.completing event = some p) (member : p ∈ (h.rooms r).members)
      (loading : (h.rooms r).state = .loading) (room : h.Sets h' r (h.withPeer r p))
      (spared : h.Spared h' (· = p))
      (mine : h'.players p = { h.players p with loadingComplete := true })
      (waits : ∃ q ∈ (h.rooms r).members, (h'.players q).loadingComplete = false)
  | begins (p : PlayerRef) (r : RoomRef) (inside : r < maxRoomCount)
      (asked : h.completing event = some p) (member : p ∈ (h.rooms r).members)
      (loading : (h.rooms r).state = .loading)
      (ready : ∀ q ∈ (h.rooms r).members, q ≠ p → (h.players q).loadingComplete = true)
      (room : h.Sets h' r { h.withPeer r p with
        state := .play
        currentGameMode := if (h.rooms r).gameMode ∈ h.gameModes then some (h.rooms r).gameMode
          else (h.rooms r).currentGameMode })
      (spared : h.Spared h' (· ∈ (h.rooms r).members))
      (all : ∀ q ∈ (h.rooms r).members,
        h'.players q = { h.players q with state := .play, loadingComplete := true })
  | joins (p : PlayerRef) (r : RoomRef) (inside : r < maxRoomCount)
      (asked : h.completing event = some p)
      (member : p ∈ (h.rooms r).members) (plays : (h.rooms r).state = .play)
      (loading : (h.players p).state = .loading) (rooms : h'.rooms = h.rooms)
      (spared : h.Spared h' (· = p))
      (mine : h'.players p = { h.players p with state := .play, loadingComplete := true })
  | leaves (p : PlayerRef) (r : RoomRef) (inside : r < maxRoomCount)
      (member : p ∈ (h.rooms r).members)
      (lost : (h.rooms r).state = .loading → h.disconnecting event = some p)
      (room : h.Sets h' r { h.rooms r with
        members := (h.rooms r).members.erase p
        state := if (h.rooms r).members.erase p = [] then .none else (h.rooms r).state
        listed := fun k => k ≠ (h.players p).serial ∧ (h.rooms r).listed k })
      (spared : h.Spared h' (· = p))

/-- The state of a player fits that of its room: once a game has begun, who is still loading came
late. -/
def Fits (room : RoomState) (player : PlayerView) : Prop :=
  match room with
  | .wait => player.state = .room
  | .loading => player.state = .loading
  | .play => player.state = .play ∨ player.state = .loading ∧ player.loadingComplete = false
  | _ => False

namespace Hall

def Phased (h : Hall) : Prop :=
  ∀ r, r < maxRoomCount → ∀ p ∈ (h.rooms r).members, Fits (h.rooms r).state (h.players p)

/-- Nobody is in two rooms or twice in one, and the members of a room have different serials. -/
structure Seating (h : Hall) : Prop where
  alone : ∀ r r' p, r < maxRoomCount → r' < maxRoomCount → p ∈ (h.rooms r).members →
    p ∈ (h.rooms r').members → r = r'
  nodup : ∀ r, r < maxRoomCount → (h.rooms r).members.Nodup
  serials : ∀ r, r < maxRoomCount → ∀ p ∈ (h.rooms r).members, ∀ q ∈ (h.rooms r).members,
    (h.players p).serial = (h.players q).serial → p = q

/-! ## Loading -/

/-- In a room that is loading somebody still loads. -/
def LoadingAlive (h : Hall) : Prop :=
  ∀ r, r < maxRoomCount → (h.rooms r).state = .loading →
    ∃ p ∈ (h.rooms r).members, (h.players p).loadingComplete = false

/-- Whoever is disconnected while its room is loading leaves nobody behind, or somebody that still
loads. -/
def LeavesLoader (h : Hall) (event : Event) : Prop :=
  ∀ p ∈ h.disconnecting event, ∀ r, r < maxRoomCount → p ∈ (h.rooms r).members →
    (h.rooms r).state = .loading →
      (h.rooms r).members.erase p = [] ∨
        ∃ q ∈ (h.rooms r).members.erase p, (h.players q).loadingComplete = false

instance (h : Hall) (event : Event) : Decidable (h.LeavesLoader event) :=
  inferInstanceAs (Decidable (∀ _ ∈ _, _))

/-! ## Peers -/

def HasLoaded (player : PlayerView) : Prop :=
  player.state = .play ∨ player.state = .loading ∧ player.loadingComplete = true

/-- The peers of a room are its members that have loaded. -/
def PeersLoaded (h : Hall) : Prop :=
  ∀ r, r < maxRoomCount → ∀ k,
    (h.rooms r).listed k ↔ ∃ p ∈ (h.rooms r).members, (h.players p).serial = k ∧
      HasLoaded (h.players p)

/-- Nobody ends its loading in a room that is playing. -/
def LoadsInTime (h : Hall) (event : Event) : Prop :=
  ∀ p ∈ h.completing event, (h.players p).state = .loading → ∀ r, r < maxRoomCount →
    p ∈ (h.rooms r).members → (h.rooms r).state ≠ .play

instance (h : Hall) (event : Event) : Decidable (h.LoadsInTime event) :=
  inferInstanceAs (Decidable (∀ _ ∈ _, _))

/-! ## Game modes -/

/-- The mode that a room in play points to is the one registered for its own mode. -/
def ModesValid (h : Hall) : Prop :=
  ∀ r, r < maxRoomCount → (h.rooms r).state = .play →
    (h.rooms r).currentGameMode = some (h.rooms r).gameMode ∧ (h.rooms r).gameMode ∈ h.gameModes

/-- Nobody ends the loading of a room whose mode is not registered. -/
def StartsRegistered (h : Hall) (event : Event) : Prop :=
  ∀ p ∈ h.completing event, ∀ r, r < maxRoomCount → p ∈ (h.rooms r).members →
    (h.rooms r).state = .loading →
    (∀ q ∈ (h.rooms r).members, q ≠ p → (h.players q).loadingComplete = true) →
      (h.rooms r).gameMode ∈ h.gameModes

instance (h : Hall) (event : Event) : Decidable (h.StartsRegistered event) :=
  inferInstanceAs (Decidable (∀ _ ∈ _, _))

end Hall

end Cgsf.Casual
