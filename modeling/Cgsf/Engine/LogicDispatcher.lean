import Cgsf.Engine.Packet

/-!
# Handing packets to the logic

`ReleasePacket` of all dispatchers, and the dispatcher that deals the packets of authenticated
sessions out to channels. A packet object is told apart from others by its address.
-/

namespace Cgsf.Engine

structure PacketObject extends BasePacket where
  address : Nat
  deriving DecidableEq, Repr

/-- How a packet object is given back. -/
inductive Disposal where
  | release
  | delete
  deriving DecidableEq, Repr

namespace SFLogicDispatcher

/-- `ReleasePacket`: the types it does not know are asserted not to occur. -/
def releasePacket : PacketType → Option Disposal
  | .data => some .release
  | .connect | .disconnect | .timer | .shouter | .serverShutdown => some .delete
  | _ => none

end SFLogicDispatcher

def sessionStateNull : Int := 0
def sessionStateConnect : Int := 1
def sessionStateAutenticate : Int := 2

structure ISession where
  sessionState : Int := sessionStateNull
  channelNum : Int := -1
  deriving DecidableEq, Repr

/-- The queues of the channels, and what `Dispatch` gave back or asked the network engine for. -/
structure SFMulitiCasualGameDispatcher where
  vecQueue : List (List PacketObject)
  released : List (PacketObject × Disposal) := []
  disconnected : List Int := []
  deriving DecidableEq, Repr

namespace SFMulitiCasualGameDispatcher

def createLogicSystem (channelCount : Int) : SFMulitiCasualGameDispatcher :=
  { vecQueue := List.replicate channelCount.toNat [] }

def releasePacket (d : SFMulitiCasualGameDispatcher) (pPacket : PacketObject) :
    SFMulitiCasualGameDispatcher :=
  match SFLogicDispatcher.releasePacket pPacket.packetType with
  | some disposal => { d with released := d.released ++ [(pPacket, disposal)] }
  | none => d

def disconnect (d : SFMulitiCasualGameDispatcher) (serial : Int) : SFMulitiCasualGameDispatcher :=
  { d with disconnected := d.disconnected ++ [serial] }

/-- `OnAuthenticate` is left to the game; `posts` tells whether the system takes what is pushed to
the queue of a channel. -/
structure Surroundings where
  onAuthenticate : PacketObject → ISession → ISession × Bool
  posts : Nat → Bool

variable (world : Surroundings)

def distributePacket (d : SFMulitiCasualGameDispatcher) (pSession : ISession)
    (pPacket : PacketObject) : SFMulitiCasualGameDispatcher × Bool :=
  let channelNum := pSession.channelNum
  if channelNum < 0 ∨ channelNum ≥ d.vecQueue.length then (d, false)
  else if world.posts channelNum.toNat then
    ({ d with vecQueue := d.vecQueue.modify channelNum.toNat (· ++ [pPacket]) }, true)
  else (d, true)

/-- `pSession` is the session that the description of the packet points to. -/
def dispatch (d : SFMulitiCasualGameDispatcher) (pSession : ISession) (pPacket : PacketObject) :
    SFMulitiCasualGameDispatcher × ISession :=
  match pPacket.packetType with
  | .connect =>
      (d.releasePacket pPacket, { pSession with sessionState := sessionStateConnect })
  | .disconnect =>
      if pSession.sessionState = sessionStateAutenticate then
        ((d.distributePacket world pSession pPacket).1, pSession)
      else (d, pSession)
  | .data =>
      if pSession.sessionState = sessionStateAutenticate then
        ((d.distributePacket world pSession pPacket).1, pSession)
      else if pSession.sessionState = sessionStateConnect then
        let (pSession, authenticated) := world.onAuthenticate pPacket pSession
        if authenticated then
          let pSession :=
            { pSession with channelNum := 1, sessionState := sessionStateAutenticate }
          ((d.distributePacket world pSession pPacket).1, pSession)
        else
          ((d.disconnect pPacket.serial).releasePacket pPacket,
            { pSession with sessionState := sessionStateNull })
      else
        ((d.disconnect pPacket.serial).releasePacket pPacket,
          { pSession with sessionState := sessionStateNull })
  | _ => (d, pSession)

end SFMulitiCasualGameDispatcher

end Cgsf.Engine
