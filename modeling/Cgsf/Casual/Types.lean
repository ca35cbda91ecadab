import Cgsf.Engine.Protocol
import Mathlib.Logic.Function.Basic
import Std.Data.TreeMap.Lemmas

namespace Cgsf.Casual
open Std

/-- Addresses of objects. -/
abbrev PlayerRef := Nat
abbrev RoomRef := Nat

abbrev Text := List UInt8

/-- What is left of a string that passes through `c_str()`. -/
def cString (text : Text) : Text := text.takeWhile (· ≠ 0)

def maxRoomMember : Nat := 4
def maxRoomCount : Nat := 100
def maxRoomCountPerPage : Nat := 10
def playerPoolSize : Nat := 1000
def dbResultStateSuccess : Int := 0

inductive PlayerState where
  | none | init | login | lobby | room | loading | playReady | play | playEnd
  deriving DecidableEq, Repr

inductive RoomState where
  | none | wait | loading | playReady | play | playEnd
  deriving DecidableEq, Repr

inductive TeamType where
  | red | blue
  deriving DecidableEq, Repr

structure PeerInfo where
  localIP : UInt32 := 0
  localPort : UInt16 := 0
  externalIP : UInt32 := 0
  externalPort : UInt16 := 0
  deriving DecidableEq, Repr

structure SFPlayer where
  username : Text := []
  password : Text := []
  serial : Int := 0
  state : PlayerState := .none
  roomIndex : Int := 0
  teamType : TeamType := .red
  loadingComplete : Bool := false
  spawnIndex : Int := 0
  info : PeerInfo := {}
  deriving DecidableEq, Repr

namespace SFSubject

abbrev Observerlist := List PlayerRef

def addObserver (observers : Observerlist) (p : PlayerRef) : Observerlist × Bool :=
  if p ∈ observers then (observers, false) else (observers ++ [p], true)

def delObserver (observers : Observerlist) (p : PlayerRef) : Observerlist := observers.erase p

end SFSubject

structure SFTeam where
  observers : List PlayerRef := []
  memberMap : TreeMap Int PlayerRef := {}

namespace SFTeam

def addMember (team : SFTeam) (p : PlayerRef) (serial : Int) : SFTeam where
  observers := (SFSubject.addObserver team.observers p).1
  memberMap := team.memberMap.insertIfNew serial p

def delMember (team : SFTeam) (p : PlayerRef) (serial : Int) : SFTeam where
  observers := SFSubject.delObserver team.observers p
  memberMap := team.memberMap.erase serial

def members (team : SFTeam) : List PlayerRef := team.memberMap.toList.map (·.2)

end SFTeam

/-- `gameMode` is the one that the room was created for, `currentGameMode` the one that the play
state of the room points to. -/
structure SFRoom where
  roomIndex : Nat
  state : RoomState := .none
  observers : List PlayerRef := []
  roomChief : Option PlayerRef := none
  teams : TeamType → SFTeam := fun _ => {}
  roomMemberMap : TreeMap Int PlayerRef := {}
  peerMap : TreeMap Int PeerInfo := {}
  gameMode : Int := -1
  currentGameMode : Option Int := none

structure RoomInfo where
  roomIndex : Nat
  roomName : String
  roomChief : Text
  userCount : Nat
  maxUserCount : Nat := 4
  needPassword : Nat := 0
  gameMode : Int
  deriving DecidableEq, Repr

/-- The packets that the server sends. -/
inductive Message where
  | auth
  | loginSuccess (result : Int) (userInfoSerial : Int)
  | loginFail (result : Int)
  | enterLobby
  | roomList (info : List RoomInfo)
  | createRoom (gameMode : Int)
  | enterRoom (gameMode roomIndex : Int)
  | leaveRoom
  | roomMember (info : List (Int × Text × TeamType))
  | enterTeamMember (playerIndex : Int) (member : Text)
  | leaveTeamMember (playerIndex : Int) (member : Text)
  | loadingStart
  | createPlayer (serial spawnIndex : Int)
  | destroyPlayer (serial : Int)
  | peerList (peers : List (Int × PeerInfo))
  | deletePeer (serial : Int)
  | playStart
  | playEnd
  | chatRes (sender message : Text)
  deriving DecidableEq, Repr

/-- What a room tells its observers. -/
inductive Notice where
  | enterTeamMember (playerIndex : Int) (name : Text)
  | leaveTeamMember (playerIndex : Int) (name : Text)
  | destroyPlayer (playerIndex : Int)
  | peerList
  | deletePeer (playerIndex : Int)
  deriving DecidableEq, Repr

/-- The packets of a client. All ids that no handler is registered for are `other`. -/
inductive Packet where
  | login (username password : Text)
  | enterLobby
  | enterRoom (gameMode roomIndex : Int)
  | createRoom (gameMode : Int)
  | chatReq (message : Text)
  | playerIP (info : PeerInfo)
  | roomListRefresh
  | changeTeam
  | leaveRoom
  | loadingStart
  | loadingComplete
  | other (packetID : UInt16)
  deriving DecidableEq, Repr

/-- A login request on its way through the database workers. -/
structure DBRequest where
  serial : Int
  userName : Text
  password : Text
  deriving DecidableEq, Repr

end Cgsf.Casual
