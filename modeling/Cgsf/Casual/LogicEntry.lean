import Cgsf.Casual.Rooms

namespace Cgsf.Casual
open Engine Std

namespace SFPlayerInit

def onLogin (s : SFLogicEntry) (p : PlayerRef) (username password : Text) : SFLogicEntry :=
  let s := s.modifyPlayer p fun q => { q with username, password }
  { s with dbRequests := s.dbRequests ++
      [⟨(s.players p).serial, cString username, cString password⟩] }

def onDBLogin (s : SFLogicEntry) (p : PlayerRef) (result : Int) : Option SFLogicEntry :=
  if result = dbResultStateSuccess then
    match SFPlayerManager.addPlayer s p with
    | (s, true) =>
        (SFPlayerFSM.changeState s p .login).map fun s => SFSendPacket.sendLoginResult s p result
    | (s, false) => some (SFSendPacket.sendLoginResult s p (-1))
  else some (SFSendPacket.sendLoginResult s p result)

end SFPlayerInit

namespace SFPlayerLobby

/-- With peer-to-peer service a player has to send its address first. -/
def addressMissing (s : SFLogicEntry) (p : PlayerRef) : Bool :=
  s.p2pService && (s.players p).info.externalIP == 0

def onEnterRoom (s : SFLogicEntry) (p : PlayerRef) (gameMode roomIndex : Int) (random : Nat) :
    Option SFLogicEntry :=
  if addressMissing s p then some s
  else match SFRoomManager.getRoom s roomIndex with
    | none => some s
    | some r =>
        (SFRoomFSM.processUserRequest s r p (.enterRoom gameMode roomIndex) random).map
          fun (s, accepted) =>
            if accepted then
              SFSendPacket.sendRoomMember (s.sendToClient p (.enterRoom gameMode roomIndex)) p r
            else s

def onCreateRoom (s : SFLogicEntry) (p : PlayerRef) (gameMode : Int) : Option SFLogicEntry :=
  if addressMissing s p then some s
  else (SFRoomManager.onCreateRoom s p gameMode).bind fun (s, created) =>
    if created then
      (SFPlayerFSM.changeState s p .room).map fun s => s.sendToClient p (.createRoom gameMode)
    else some s

end SFPlayerLobby

namespace SFPlayerLoading

def onLoadingComplete (s : SFLogicEntry) (p : PlayerRef) (random : Nat) : Option SFLogicEntry :=
  (SFRoomManager.getRoom s (s.players p).roomIndex).bind fun r =>
    let s := s.modifyPlayer p fun q => { q with loadingComplete := true }
    (SFRoomFSM.processUserRequest s r p .loadingComplete random).map (·.1)

end SFPlayerLoading

namespace SFPlayerFSM

def processPacket (s : SFLogicEntry) (p : PlayerRef) (packet : Packet) (random : Nat) :
    Option SFLogicEntry :=
  match (s.players p).state, packet with
  | .init, .login username password => some (SFPlayerInit.onLogin s p username password)
  | .login, .enterLobby => changeState s p .lobby
  | .lobby, .enterRoom gameMode roomIndex => SFPlayerLobby.onEnterRoom s p gameMode roomIndex random
  | .lobby, .createRoom gameMode => SFPlayerLobby.onCreateRoom s p gameMode
  | .lobby, .playerIP info => some (s.modifyPlayer p fun q => { q with info })
  | .lobby, .roomListRefresh => SFRoomManager.sendRoomPage s p
  | .room, .changeTeam | .room, .leaveRoom | .room, .loadingStart | .room, .chatReq _ =>
      match SFRoomManager.getRoom s (s.players p).roomIndex with
      | none => some s
      | some r => (SFRoomFSM.processUserRequest s r p packet random).map (·.1)
  | .loading, .loadingComplete => SFPlayerLoading.onLoadingComplete s p random
  | .play, packet =>
      (SFRoomManager.getRoom s (s.players p).roomIndex).bind fun r =>
        (SFRoomFSM.processUserRequest s r p packet random).map (·.1)
  | _, _ => some s

def processDBResult (s : SFLogicEntry) (p : PlayerRef) (result : Int) : Option SFLogicEntry :=
  match (s.players p).state with
  | .init => SFPlayerInit.onDBLogin s p result
  | _ => some s

end SFPlayerFSM

namespace SFLogicEntry

def initServer (p2pService : Bool) (gameModes : List Int) : SFLogicEntry where
  p2pService
  gameModes
  emptyRooms := (List.range maxRoomCount).foldl (fun rooms r => rooms.insertIfNew r r) {}

/-- A pool without objects makes a new one. -/
def allocPlayer (s : SFLogicEntry) : PlayerRef × SFLogicEntry :=
  let (p, playerPool) := s.playerPool.alloc s.nextPlayer
  (p, { s with playerPool, nextPlayer := max s.nextPlayer (p + 1) })

def onConnectPlayer (s : SFLogicEntry) (serial : Int) : Option SFLogicEntry :=
  let (p, s) := s.allocPlayer
  let s := s.modifyPlayer p fun q => { q.reset with serial }
  (SFPlayerFSM.changeState s p .init).map fun s =>
    { s with playerMap := s.playerMap.insertIfNew serial p }.sendRequest serial .auth

def inRoom (state : PlayerState) : Bool :=
  state ∈ [PlayerState.loading, .room, .play, .playEnd, .playReady]

def onDisconnectPlayer (s : SFLogicEntry) (serial : Int) : Option SFLogicEntry :=
  match s.playerMap[serial]? with
  | none => some s
  | some p =>
      let s := SFPlayerManager.delPlayer s p
      (if inRoom (s.players p).state then
        (SFRoomManager.getRoom s (s.players p).roomIndex).bind fun r => SFRoomFSM.onLeaveRoom s r p
      else some s).bind fun s =>
      (SFPlayerFSM.changeState s p .none).map fun s =>
        { s with playerPool := s.playerPool.release p, playerMap := s.playerMap.erase serial }

def onPlayerData (s : SFLogicEntry) (serial : Int) (packet : Packet) (random : Nat) :
    Option SFLogicEntry :=
  match s.playerMap[serial]? with
  | none => some s
  | some p => SFPlayerFSM.processPacket s p packet random

def onDBResult (s : SFLogicEntry) (serial : Int) (result : Int) : Option SFLogicEntry :=
  match s.playerMap[serial]? with
  | none => some s
  | some p => SFPlayerFSM.processDBResult s p result

end SFLogicEntry

/-- What reaches the logic thread. `answer` is the database's result for one of the requests on
their way, in any order; a request can also stay without an answer. -/
inductive Event where
  | connect (serial : Int)
  | data (serial : Int) (packet : Packet) (random : Nat)
  | timer (timerId : Int)
  | shouter
  | answer (request : Nat) (result : Int)
  | noAnswer (request : Nat)
  | disconnect (serial : Int)
  deriving DecidableEq, Repr

namespace SFLogicEntry

def processPacket (s : SFLogicEntry) (event : Event) : Option SFLogicEntry :=
  match event with
  | .connect serial => s.onConnectPlayer serial
  | .data serial packet random => s.onPlayerData serial packet random
  | .timer timerId => some (SFRoomManager.update s timerId)
  | .shouter => some s
  | .answer request result =>
      match s.dbRequests[request]? with
      | none => none
      | some message =>
          { s with dbRequests := s.dbRequests.eraseIdx request }.onDBResult message.serial result
  | .noAnswer request =>
      if request < s.dbRequests.length then
        some { s with dbRequests := s.dbRequests.eraseIdx request }
      else none
  | .disconnect serial => s.onDisconnectPlayer serial

/-- One event at a time, in the order of the logic queue. -/
def Steps (s : SFLogicEntry) (event : Event) (s' : SFLogicEntry) : Prop :=
  s.processPacket event = some s'

end SFLogicEntry

end Cgsf.Casual
