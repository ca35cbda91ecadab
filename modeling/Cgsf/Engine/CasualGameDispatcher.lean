import Cgsf.Engine.LogicDispatcher
import Cgsf.Engine.Protocol
import Mathlib.Logic.Function.Basic

/-!
# The engine with the dispatcher of casual games

Packet objects come from `new` or from a pool, go through the queue of the logic or of the RPC
service, and are given back by its thread.
-/

namespace Cgsf.Engine

/-- The protocols that make packets out of what is received. -/
inductive PacketProtocol where
  | cgsf | json | http | msgPack | avro | protobuf | echo
  deriving DecidableEq, Repr

inductive PacketClass where
  | basePacket
  | sfMessage
  | received (protocol : PacketProtocol)
  deriving DecidableEq, Repr

/-- `objects` are the packet objects that exist; `receiving` are those that a `GetPacket` has in
hands. -/
structure SFCasualGameDispatcher where
  isServer : Bool
  objects : Nat → Option PacketClass := fun _ => none
  packetPool : SFObjectPool Nat := ⟨[]⟩
  dbMessagePool : SFObjectPool Nat := ⟨[]⟩
  receiving : List Nat := []
  logicGateway : List PacketObject := []
  rpcGateway : List PacketObject := []
  logicThread : Option PacketObject := none
  rpcThread : Option PacketObject := none
  database : List PacketObject := []

namespace SFCasualGameDispatcher

/-- The allocator answers an address that holds no object. -/
def new (s : SFCasualGameDispatcher) (cls : PacketClass) (address : Nat) :
    Option SFCasualGameDispatcher :=
  if s.objects address = none then
    some { s with objects := Function.update s.objects address (some cls) }
  else none

/-- Deleting what does not exist is undefined. -/
def delete (s : SFCasualGameDispatcher) (address : Nat) : Option SFCasualGameDispatcher :=
  if s.objects address = none then none
  else some { s with objects := Function.update s.objects address none }

def createPacket (s : SFCasualGameDispatcher) (protocol : PacketProtocol) (address : Nat) :
    Option (Nat × SFCasualGameDispatcher) :=
  match protocol, s.packetPool.queue with
  | .cgsf, p :: queue => some (p, { s with packetPool := ⟨queue⟩ })
  | _, _ => (s.new (.received protocol) address).map (address, ·)

def disposePacket (s : SFCasualGameDispatcher) (protocol : PacketProtocol) (address : Nat) :
    Option SFCasualGameDispatcher :=
  match protocol with
  | .cgsf => some { s with packetPool := s.packetPool.release address }
  | _ => s.delete address

/-- The virtual `Release`: `BasePacket::Release` is empty, and `SFEchoPacket` inherits it. -/
def release (s : SFCasualGameDispatcher) (address : Nat) : Option SFCasualGameDispatcher :=
  match s.objects address with
  | none => none
  | some .basePacket | some .sfMessage | some (.received .echo) => some s
  | some (.received protocol) => s.disposePacket protocol address

def releasePacket (s : SFCasualGameDispatcher) (pPacket : PacketObject) :
    Option SFCasualGameDispatcher :=
  match SFLogicDispatcher.releasePacket pPacket.packetType with
  | some .release => s.release pPacket.address
  | some .delete => s.delete pPacket.address
  | none => some s

def allocDBMsg (s : SFCasualGameDispatcher) (address : Nat) :
    Option (Nat × SFCasualGameDispatcher) :=
  match s.dbMessagePool.queue with
  | p :: queue => some (p, { s with dbMessagePool := ⟨queue⟩ })
  | [] => (s.new .sfMessage address).map (address, ·)

def recallDBMsg (s : SFCasualGameDispatcher) (address : Nat) : SFCasualGameDispatcher :=
  { s with dbMessagePool := s.dbMessagePool.release address }

/-- `PushPacket` to the logic: the system can refuse it, and nobody looks. -/
def pushLogic (s : SFCasualGameDispatcher) (accepted : Bool) (pPacket : PacketObject) :
    SFCasualGameDispatcher :=
  if accepted then { s with logicGateway := s.logicGateway ++ [pPacket] } else s

def pushRPC (s : SFCasualGameDispatcher) (accepted : Bool) (pPacket : PacketObject) :
    SFCasualGameDispatcher :=
  if accepted then { s with rpcGateway := s.rpcGateway ++ [pPacket] } else s

def dispatch (s : SFCasualGameDispatcher) (accepted : Bool) (pPacket : PacketObject) :
    SFCasualGameDispatcher :=
  if pPacket.packetType = .rpc ∧ s.isServer = true then s.pushRPC accepted pPacket
  else s.pushLogic accepted pPacket

/-- What the logic does with the object: it recalls a database message. Packets of connectors go to
their callback. -/
def processPacket (s : SFCasualGameDispatcher) (pPacket : PacketObject) : SFCasualGameDispatcher :=
  if pPacket.sessionDesc.sessionType ≤ 0 ∧ pPacket.packetType = .db then
    s.recallDBMsg pPacket.address
  else s

/-- `OnConnect`, `OnDisconnect` and `OnTimer`. -/
def raise (s : SFCasualGameDispatcher) (packetType : PacketType) (serial : Int)
    (sessionDesc : SessionDesc) (address : Nat) (accepted : Bool) : Option SFCasualGameDispatcher :=
  (s.new .basePacket address).map fun s =>
    s.dispatch accepted { serial, sessionDesc, packetType, address }

def rpcPacketID : UInt16 := 60000

/-- `OnReceive` once `GetPacket` has answered a packet. -/
def receive (s : SFCasualGameDispatcher) (address : Nat) (packetID : UInt16) (serial : Int)
    (sessionDesc : SessionDesc) (accepted : Bool) : SFCasualGameDispatcher :=
  let packetType := if packetID = rpcPacketID then PacketType.rpc else .data
  { s with receiving := s.receiving.erase address }.dispatch accepted
    { serial, sessionDesc, packetType, packetID, address }

end SFCasualGameDispatcher

/-- What the network threads, the two threads of the dispatcher and the database do, in any order.
`address` is what the allocator answers if it is asked. -/
inductive PacketEvent where
  | connect (serial : Int) (desc : SessionDesc) (address : Nat) (accepted : Bool)
  | disconnect (serial : Int) (desc : SessionDesc) (address : Nat) (accepted : Bool)
  | timer (timerId : Int) (address : Nat) (accepted : Bool)
  | getPacket (protocol : PacketProtocol) (address : Nat)
  | noPacket (address : Nat)
  | receive (address : Nat) (packetID : UInt16) (serial : Int) (desc : SessionDesc)
      (accepted : Bool)
  | logicPop
  | logicDone
  | rpcPop
  | rpcDone
  | dbRequest (serial : Int) (packetID : UInt16) (address : Nat)
  | dbResult (message : PacketObject) (accepted : Bool)
  deriving DecidableEq, Repr

namespace SFCasualGameDispatcher

/-- A logic or RPC thread that is done gives its packet back and goes on with the next one. -/
def step (s : SFCasualGameDispatcher) (event : PacketEvent) : Option SFCasualGameDispatcher :=
  match event with
  | .connect serial desc address accepted => s.raise .connect serial desc address accepted
  | .disconnect serial desc address accepted => s.raise .disconnect serial desc address accepted
  | .timer timerId address accepted => s.raise .timer timerId {} address accepted
  | .getPacket protocol address =>
      (s.createPacket protocol address).map fun (p, s) => { s with receiving := s.receiving ++ [p] }
  | .noPacket address =>
      match s.objects address with
      | some (.received protocol) =>
          if address ∈ s.receiving then
            { s with receiving := s.receiving.erase address }.disposePacket protocol address
          else none
      | _ => none
  | .receive address packetID serial desc accepted =>
      if address ∈ s.receiving then some (s.receive address packetID serial desc accepted)
      else none
  | .logicPop =>
      match s.logicThread, s.logicGateway with
      | none, p :: queue => some { s with logicThread := some p, logicGateway := queue }
      | _, _ => none
  | .logicDone =>
      s.logicThread.bind fun p =>
        let s := { s with logicThread := none }.processPacket p
        if p.packetType ≠ .db then s.releasePacket p else some s
  | .rpcPop =>
      match s.rpcThread, s.rpcGateway with
      | none, p :: queue => some { s with rpcThread := some p, rpcGateway := queue }
      | _, _ => none
  | .rpcDone => s.rpcThread.bind fun p => { s with rpcThread := none }.delete p.address
  | .dbRequest serial packetID address =>
      (s.allocDBMsg address).map fun (p, s) =>
        { s with database := s.database ++
          [{ serial, packetType := .db, packetID, address := p }] }
  | .dbResult message accepted =>
      if message ∈ s.database then
        some ({ s with database := s.database.erase message }.pushLogic accepted message)
      else none

end SFCasualGameDispatcher

end Cgsf.Engine
