import Cgsf.Casual.Types

namespace Cgsf.Casual
open Engine Std

/-- The logic thread's state, with the players and the rooms it points to. A function answers
`none` where the code follows a null pointer. -/
structure SFLogicEntry where
  p2pService : Bool
  gameModes : List Int
  players : PlayerRef → SFPlayer := fun _ => {}
  nextPlayer : PlayerRef := playerPoolSize
  playerPool : SFObjectPool PlayerRef := ⟨List.range playerPoolSize⟩
  playerMap : TreeMap Int PlayerRef := {}
  playerManager : TreeMap Text PlayerRef := {}
  lobby : TreeMap Int PlayerRef := {}
  rooms : RoomRef → SFRoom := fun r => { roomIndex := r }
  emptyRooms : TreeMap Nat RoomRef := {}
  activeRooms : TreeMap Nat RoomRef := {}
  dbRequests : List DBRequest := []
  sent : List (Int × Message) := []

namespace SFLogicEntry

def modifyPlayer (s : SFLogicEntry) (p : PlayerRef) (f : SFPlayer → SFPlayer) : SFLogicEntry :=
  { s with players := Function.update s.players p (f (s.players p)) }

def modifyRoom (s : SFLogicEntry) (r : RoomRef) (f : SFRoom → SFRoom) : SFLogicEntry :=
  { s with rooms := Function.update s.rooms r (f (s.rooms r)) }

def sendRequest (s : SFLogicEntry) (serial : Int) (m : Message) : SFLogicEntry :=
  { s with sent := s.sent ++ [(serial, m)] }

def sendToClient (s : SFLogicEntry) (p : PlayerRef) (m : Message) : SFLogicEntry :=
  s.sendRequest (s.players p).serial m

end SFLogicEntry

namespace SFPlayerManager

def addPlayer (s : SFLogicEntry) (p : PlayerRef) : SFLogicEntry × Bool :=
  let name := (s.players p).username
  if name ∈ s.playerManager then (s, false)
  else ({ s with playerManager := s.playerManager.insertIfNew name p }, true)

def delPlayer (s : SFLogicEntry) (p : PlayerRef) : SFLogicEntry :=
  { s with playerManager := s.playerManager.erase (s.players p).username }

end SFPlayerManager

namespace SFLobby

def onEnter (s : SFLogicEntry) (p : PlayerRef) : SFLogicEntry :=
  { s with lobby := s.lobby.insertIfNew (s.players p).serial p }

def onLeave (s : SFLogicEntry) (p : PlayerRef) : SFLogicEntry :=
  { s with lobby := s.lobby.erase (s.players p).serial }

end SFLobby

namespace SFRoomManager

def getRoom (s : SFLogicEntry) (roomIndex : Int) : Option RoomRef :=
  if roomIndex < 0 ∨ roomIndex ≥ maxRoomCount then none
  else if (s.rooms roomIndex.toNat).state = .none then none
  else some roomIndex.toNat

def roomInfo (s : SFLogicEntry) (r : RoomRef) : Option RoomInfo :=
  let room := s.rooms r
  room.roomChief.map fun chief =>
    { roomIndex := room.roomIndex
      roomName := "GameRoom" ++ toString room.roomIndex
      roomChief := (s.players chief).username
      userCount := room.roomMemberMap.size
      gameMode := room.gameMode }

def sendRoomPage (s : SFLogicEntry) (p : PlayerRef) : Option SFLogicEntry :=
  if s.activeRooms.size ≤ maxRoomCountPerPage then
    (s.activeRooms.toList.mapM fun entry => roomInfo s entry.2).map fun info =>
      s.sendToClient p (.roomList info)
  else some (s.sendToClient p (.roomList []))

end SFRoomManager

namespace SFRoomPlay

/-- `ProcessUserRequest` with a message number: only the play state passes it to its game mode. What
game modes do to a room is theirs and not part of this state, but the pointer to one has to be set. -/
def processUserRequest (room : SFRoom) : Option Unit :=
  if room.state = .play then room.currentGameMode.map fun _ => () else some ()

end SFRoomPlay

namespace SFSendPacket

def sendCreatePlayer (s : SFLogicEntry) (p : PlayerRef) (r : RoomRef) : SFLogicEntry :=
  (s.rooms r).roomMemberMap.toList.foldl (fun s entry =>
    s.sendToClient p (.createPlayer (s.players entry.2).serial (s.players entry.2).spawnIndex)) s

def sendRoomMember (s : SFLogicEntry) (p : PlayerRef) (r : RoomRef) : SFLogicEntry :=
  let others := (s.rooms r).roomMemberMap.toList.filter fun entry =>
    (s.players entry.2).serial ≠ (s.players p).serial
  s.sendToClient p (.roomMember (others.map fun entry =>
    ((s.players entry.2).serial, (s.players entry.2).username, (s.players entry.2).teamType)))

def sendPeerInfo (s : SFLogicEntry) (p : PlayerRef) (r : RoomRef) : SFLogicEntry :=
  s.sendToClient p (.peerList
    ((s.rooms r).peerMap.toList.filter fun entry => entry.1 ≠ (s.players p).serial))

def sendLoginResult (s : SFLogicEntry) (p : PlayerRef) (result : Int) : SFLogicEntry :=
  let serial := (s.players p).serial
  if result = 0 then s.sendRequest serial (.loginSuccess result serial)
  else s.sendRequest serial (.loginFail result)

end SFSendPacket

namespace SFPlayerFSM

def onLeave (s : SFLogicEntry) (p : PlayerRef) : SFLogicEntry :=
  match (s.players p).state with
  | .lobby => SFLobby.onLeave s p
  | .play => s.sendToClient p .playEnd
  | _ => s

def onEnter (s : SFLogicEntry) (p : PlayerRef) : Option SFLogicEntry :=
  match (s.players p).state with
  | .lobby => SFRoomManager.sendRoomPage (SFLobby.onEnter (s.sendToClient p .enterLobby) p) p
  | .loading =>
      some ((s.modifyPlayer p fun q => { q with loadingComplete := false }).sendToClient p
        .loadingStart)
  | .play =>
      let s := s.sendToClient p .playStart
      (SFRoomManager.getRoom s (s.players p).roomIndex).bind fun r =>
        (SFRoomPlay.processUserRequest (s.rooms r)).map fun _ => SFSendPacket.sendCreatePlayer s p r
  | _ => some s

def changeState (s : SFLogicEntry) (p : PlayerRef) (state : PlayerState) : Option SFLogicEntry :=
  if (s.players p).state = state then some s
  else onEnter ((onLeave s p).modifyPlayer p fun q => { q with state }) p

end SFPlayerFSM

namespace SFPlayer

/-- The FSM goes back to its none state without leaving the one it is in. -/
def reset (player : SFPlayer) : SFPlayer :=
  { player with state := .none, loadingComplete := false, teamType := .red }

def onMessage (s : SFLogicEntry) (p : PlayerRef) (notice : Notice) : Option SFLogicEntry :=
  match notice with
  | .enterTeamMember index name => some (s.sendToClient p (.enterTeamMember index (cString name)))
  | .leaveTeamMember index name => some (s.sendToClient p (.leaveTeamMember index (cString name)))
  | .destroyPlayer index => some (s.sendToClient p (.destroyPlayer index))
  | .deletePeer index => some (s.sendToClient p (.deletePeer index))
  | .peerList =>
      (SFRoomManager.getRoom s (s.players p).roomIndex).map fun r => SFSendPacket.sendPeerInfo s p r

end SFPlayer

end Cgsf.Casual
