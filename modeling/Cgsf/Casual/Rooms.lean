import Cgsf.Casual.Players

namespace Cgsf.Casual
open Std

namespace SFRoom

def propagateMessage (s : SFLogicEntry) (r : RoomRef) (notice : Notice) : Option SFLogicEntry :=
  (s.rooms r).observers.foldlM (fun s p => SFPlayer.onMessage s p notice) s

def setTeam (room : SFRoom) (team : TeamType) (f : SFTeam → SFTeam) : SFRoom :=
  { room with teams := Function.update room.teams team (f (room.teams team)) }

def selectMyTeam (room : SFRoom) : TeamType :=
  if (room.teams .red).memberMap.size > (room.teams .blue).memberMap.size then .blue else .red

def addTeamMemberTo (s : SFLogicEntry) (r : RoomRef) (p : PlayerRef) (team : TeamType) :
    SFLogicEntry :=
  (s.modifyPlayer p fun q => { q with teamType := team }).modifyRoom r fun room =>
    room.setTeam team fun members => members.addMember p (s.players p).serial

def addTeamMember (s : SFLogicEntry) (r : RoomRef) (p : PlayerRef) : SFLogicEntry :=
  addTeamMemberTo s r p (s.rooms r).selectMyTeam

def delTeamMember (s : SFLogicEntry) (r : RoomRef) (p : PlayerRef) : SFLogicEntry :=
  s.modifyRoom r fun room =>
    room.setTeam (s.players p).teamType fun members => members.delMember p (s.players p).serial

/-- `Open` makes the creator the first observer, the chief and a team member. -/
def openRoom (s : SFLogicEntry) (r : RoomRef) (p : PlayerRef) : SFLogicEntry :=
  let s := s.modifyRoom r fun room =>
    { room with
      observers := (SFSubject.addObserver room.observers p).1
      roomChief := some p }
  (addTeamMember s r p).modifyRoom r fun room =>
    { room with roomMemberMap := room.roomMemberMap.insertIfNew (s.players p).serial p }

def onEnter (s : SFLogicEntry) (r : RoomRef) (p : PlayerRef) : Option (SFLogicEntry × Bool) :=
  if maxRoomMember ≤ (s.rooms r).observers.length then some (s, false)
  else match SFSubject.addObserver (s.rooms r).observers p with
    | (_, false) => some (s, false)
    | (observers, true) =>
        let s := s.modifyRoom r fun room => { room with observers }
        let s := (addTeamMember s r p).modifyPlayer p fun q =>
          { q with roomIndex := (s.rooms r).roomIndex }
        let player := s.players p
        (propagateMessage s r (.enterTeamMember player.serial (cString player.username))).map
          fun s => (s.modifyRoom r fun room =>
            { room with roomMemberMap := room.roomMemberMap.insertIfNew player.serial p }, true)

def members (s : SFLogicEntry) (r : RoomRef) (team : TeamType) : List PlayerRef :=
  ((s.rooms r).teams team).members

def changePlayerFSM (s : SFLogicEntry) (r : RoomRef) (state : PlayerState) : Option SFLogicEntry :=
  [TeamType.red, TeamType.blue].foldlM (fun s team =>
    (members s r team).foldlM (fun s p => SFPlayerFSM.changeState s p state) s) s

def checkPlayerState (s : SFLogicEntry) (r : RoomRef) (state : PlayerState) : Bool :=
  [TeamType.red, TeamType.blue].all fun team =>
    (members s r team).all fun p => (s.players p).state = state

def checkLoadingComplete (s : SFLogicEntry) (r : RoomRef) : Bool :=
  [TeamType.red, TeamType.blue].all fun team =>
    (members s r team).all fun p => (s.players p).loadingComplete

def changeTeam (s : SFLogicEntry) (r : RoomRef) (p : PlayerRef) : SFLogicEntry :=
  let team := match (s.players p).teamType with
    | .red => TeamType.blue
    | .blue => TeamType.red
  addTeamMemberTo (delTeamMember s r p) r p team

end SFRoom

namespace SFRoomFSM

/-- The play state of a room asks its game mode; without one the pointer is null. -/
def onLeave (s : SFLogicEntry) (r : RoomRef) : Option SFLogicEntry :=
  match (s.rooms r).state with
  | .play =>
      (s.rooms r).currentGameMode.bind fun _ => SFRoom.changePlayerFSM s r .playEnd
  | _ => some s

def setSpawnIndexes (s : SFLogicEntry) (r : RoomRef) : SFLogicEntry :=
  ((s.rooms r).roomMemberMap.toList.zipIdx 1).foldl (fun s entry =>
    s.modifyPlayer entry.1.2 fun q => { q with spawnIndex := entry.2 }) s

def setGameMode (s : SFLogicEntry) (r : RoomRef) : SFLogicEntry :=
  if (s.rooms r).gameMode ∈ s.gameModes then
    s.modifyRoom r fun room => { room with currentGameMode := some room.gameMode }
  else s

def onEnter (s : SFLogicEntry) (r : RoomRef) : Option SFLogicEntry :=
  match (s.rooms r).state with
  | .loading => SFRoom.changePlayerFSM s r .loading
  | .playReady => SFRoom.changePlayerFSM (setSpawnIndexes s r) r .playReady
  | .play =>
      (SFRoom.changePlayerFSM (setGameMode s r) r .play).bind fun s =>
        if (s.rooms r).gameMode ∈ s.gameModes then SFRoom.propagateMessage (setGameMode s r) r .peerList
        else some s
  | _ => some s

def changeState (s : SFLogicEntry) (r : RoomRef) (state : RoomState) : Option SFLogicEntry :=
  if (s.rooms r).state = state then some s
  else (onLeave s r).bind fun s => onEnter (s.modifyRoom r fun room => { room with state }) r

end SFRoomFSM

namespace SFRoomManager

def getEmptyRoom (s : SFLogicEntry) : Option (RoomRef × SFLogicEntry) :=
  s.emptyRooms.toList.head?.map fun (index, r) =>
    (r, { s with emptyRooms := s.emptyRooms.erase index })

def recallRoom (s : SFLogicEntry) (r : RoomRef) : Option SFLogicEntry :=
  (SFRoomFSM.changeState s r .none).map fun s =>
    { s with
      emptyRooms := s.emptyRooms.insertIfNew (s.rooms r).roomIndex r
      activeRooms := s.activeRooms.erase (s.rooms r).roomIndex }

def onCreateRoom (s : SFLogicEntry) (p : PlayerRef) (gameMode : Int) :
    Option (SFLogicEntry × Bool) :=
  match getEmptyRoom s with
  | none => some (s, false)
  | some (r, s) =>
      (SFRoomFSM.changeState (SFRoom.openRoom s r p) r .wait).map fun s =>
        let index := (s.rooms r).roomIndex
        let s := (s.modifyPlayer p fun q => { q with roomIndex := index }).modifyRoom r fun room =>
          { room with gameMode }
        ({ s with activeRooms := s.activeRooms.insertIfNew index r }, true)

/-- Only the play state takes part in the update, and passes it to its game mode. -/
def update (s : SFLogicEntry) (_timerId : Int) : SFLogicEntry := s

end SFRoomManager

namespace SFRoom

/-- The chief's place goes to the member with the smallest serial. -/
def onLeave (s : SFLogicEntry) (r : RoomRef) (p : PlayerRef) : Option (SFLogicEntry × Bool) :=
  let player := s.players p
  let s := s.modifyRoom r fun room =>
    { room with
      roomMemberMap := room.roomMemberMap.erase player.serial
      observers := SFSubject.delObserver room.observers p }
  (propagateMessage s r (.leaveTeamMember player.serial (cString player.username))).bind fun s =>
    let s := delTeamMember s r p
    if (s.rooms r).observers.length = 0 then
      (SFRoomManager.recallRoom s r).map fun s => (s, true)
    else if (s.rooms r).roomChief = some p then
      match (s.rooms r).roomMemberMap.toList.head? with
      | none => some (s, false)
      | some entry => some (s.modifyRoom r fun room => { room with roomChief := some entry.2 }, true)
    else some (s, true)

end SFRoom

namespace SFRoomWait

def onEnterRoom (s : SFLogicEntry) (r : RoomRef) (p : PlayerRef) : Option SFLogicEntry :=
  (SFRoom.onEnter s r p).bind fun (s, entered) =>
    if entered then SFPlayerFSM.changeState s p .room else some s

def onLeaveRoom (s : SFLogicEntry) (r : RoomRef) (p : PlayerRef) : Option SFLogicEntry :=
  (SFRoom.onLeave s r p).bind fun (s, left) =>
    if left then (SFPlayerFSM.changeState s p .lobby).map fun s => s.sendToClient p .leaveRoom
    else some s

def onLoadingStart (s : SFLogicEntry) (r : RoomRef) (p : PlayerRef) : Option SFLogicEntry :=
  if (s.rooms r).roomChief ≠ some p then some s
  else if SFRoom.checkPlayerState s r .room = false then some s
  else SFRoomFSM.changeState s r .loading

def onChat (s : SFLogicEntry) (r : RoomRef) (p : PlayerRef) (message : Text) : SFLogicEntry :=
  (s.rooms r).roomMemberMap.toList.foldl (fun s entry =>
    s.sendToClient entry.2 (.chatRes (s.players p).username message)) s

end SFRoomWait

namespace SFRoomLoading

def onLoadingComplete (s : SFLogicEntry) (r : RoomRef) (p : PlayerRef) : Option SFLogicEntry :=
  let player := s.players p
  let s := s.modifyRoom r fun room =>
    { room with peerMap := room.peerMap.insertIfNew player.serial player.info }
  if SFRoom.checkLoadingComplete s r = false then some s
  else (SFRoomFSM.changeState s r .playReady).bind fun s => SFRoomFSM.changeState s r .play

/-- Leaving a room that has left the wait state; the play state has the same code. -/
def onLeaveRoom (s : SFLogicEntry) (r : RoomRef) (p : PlayerRef) : Option SFLogicEntry :=
  (SFRoom.onLeave s r p).bind fun (s, left) =>
    if left then
      let serial := (s.players p).serial
      (SFRoom.propagateMessage s r (.destroyPlayer serial)).bind fun s =>
      (SFRoom.propagateMessage s r (.deletePeer serial)).bind fun s =>
        let s := s.modifyRoom r fun room => { room with peerMap := room.peerMap.erase serial }
        (SFPlayerFSM.changeState s p .lobby).map fun s => s.sendToClient p .leaveRoom
    else some s

end SFRoomLoading

namespace SFRoomPlay

def onEnterRoom (s : SFLogicEntry) (r : RoomRef) (p : PlayerRef) (random : Nat) :
    Option SFLogicEntry :=
  (SFRoom.onEnter s r p).bind fun (s, entered) =>
    if entered then
      let s := s.modifyPlayer p fun q => { q with spawnIndex := random % maxRoomMember + 1 }
      SFPlayerFSM.changeState s p .loading
    else some s

def onLeaveRoom (s : SFLogicEntry) (r : RoomRef) (p : PlayerRef) : Option SFLogicEntry :=
  SFRoomLoading.onLeaveRoom s r p

def onLoadingComplete (s : SFLogicEntry) (r : RoomRef) (p : PlayerRef) : Option SFLogicEntry :=
  let player := s.players p
  let others := (s.rooms r).roomMemberMap.toList.filter fun entry => entry.2 ≠ p
  let s := others.foldl (fun s entry =>
    s.sendToClient entry.2 (.createPlayer player.serial player.spawnIndex)) s
  SFPlayerFSM.changeState s p .play

end SFRoomPlay

namespace SFRoomFSM

def onLeaveRoom (s : SFLogicEntry) (r : RoomRef) (p : PlayerRef) : Option SFLogicEntry :=
  match (s.rooms r).state with
  | .wait => SFRoomWait.onLeaveRoom s r p
  | .loading => SFRoomLoading.onLeaveRoom s r p
  | .play => SFRoomPlay.onLeaveRoom s r p
  | _ => some s

/-- `ProcessUserRequest` with a packet: the new state and the return value. A dispatcher answers
whether it knows the packet id, not what the handler returned. -/
def processUserRequest (s : SFLogicEntry) (r : RoomRef) (p : PlayerRef) (packet : Packet)
    (random : Nat) : Option (SFLogicEntry × Bool) :=
  match (s.rooms r).state with
  | .wait =>
      match packet with
      | .changeTeam => some (SFRoom.changeTeam s r p, false)
      | .loadingStart => (SFRoomWait.onLoadingStart s r p).map (·, false)
      | .chatReq message => some (SFRoomWait.onChat s r p message, false)
      | .enterRoom _ _ => (SFRoomWait.onEnterRoom s r p).map (·, true)
      | .leaveRoom => (SFRoomWait.onLeaveRoom s r p).map (·, true)
      | _ => some (s, false)
  | .loading =>
      match packet with
      | .loadingComplete => (SFRoomLoading.onLoadingComplete s r p).map (·, true)
      | _ => some (s, false)
  | .playReady => some (s, true)
  | .play =>
      match packet with
      | .loadingComplete => (SFRoomPlay.onLoadingComplete s r p).map (·, true)
      | .enterRoom _ _ => (SFRoomPlay.onEnterRoom s r p random).map (·, true)
      | .leaveRoom => (SFRoomPlay.onLeaveRoom s r p).map (·, true)
      | _ => (SFRoomPlay.processUserRequest (s.rooms r)).map fun _ => (s, true)
  | _ => some (s, false)

end SFRoomFSM

end Cgsf.Casual
