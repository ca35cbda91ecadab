import Cgsf.CGSFNet.ProactorService

/-!
# The connectors of a server

The reconnect thread opens what is not connected; the logic thread takes the flag back when it
processes a DISCONNECT.
-/

namespace Cgsf.Engine
open Cgsf.CGSFNet

structure ConnectorInfo where
  connectorId : Int
  connected : Bool := false
  deriving DecidableEq, Repr

/-- How far `AddConnector` is: it connects, runs `open`, has left `open` with a read on its way, is
in the `ReserveClose` of a read that could not be posted, or has read the serial. -/
inductive Stage where
  | connecting
  | opening (p : ServiceRef)
  | posted (p : ServiceRef)
  | failed (p : ServiceRef)
  | returned (p : ServiceRef) (serial : Int)
  deriving DecidableEq, Repr

/-- The connector that a loop over the list has come to. -/
structure Pass where
  startUp : Bool
  index : Nat
  call : Option Stage := none
  deriving DecidableEq, Repr

/-- `owner` is the connector that a service was made for: its id is in the description of the
session. The first commands of the queue are `processed`. -/
structure SFServerConnectionManager where
  network : Network
  listConnectorInfo : List ConnectorInfo
  mapConnectorCallback : List Int := []
  owner : ServiceRef → Option Nat := fun _ => none
  processed : Nat := 0
  pass : Option Pass := some { startUp := true, index := 0 }

inductive ConnectorEvent where
  | network (action : Action)
  | addConnectorCallback (identifier : Int)
  | wake
  | visit
  | connect (made : Bool)
  | getSerial (garbage : Int)
  | setConnected
  | processPacket
  deriving DecidableEq, Repr

def Stage.service : Stage → Option ServiceRef
  | .connecting => none
  | .opening p | .posted p | .failed p | .returned p _ => some p

/-- `PostRecv` is the last thing that `open` does. -/
def Stage.after : Stage → Action → Stage
  | .opening p, .postRecv q isPosted =>
      if q = p then if isPosted = true then .posted p else .failed p else .opening p
  | stage, _ => stage

def Pass.after (pass : Pass) (action : Action) : Pass :=
  { pass with call := pass.call.map (·.after action) }

def Pass.next (pass : Pass) : Pass := { pass with index := pass.index + 1, call := none }

def setConnectorState (connectorId : Int) (connected : Bool) :
    List ConnectorInfo → List ConnectorInfo
  | [] => []
  | info :: infos =>
      if info.connectorId = connectorId then { info with connected } :: infos
      else info :: setConnectorState connectorId connected infos

namespace SFServerConnectionManager

variable (s : SFServerConnectionManager)

def init (maxIDCount : Nat) (maxUserAccept : Int) (connectorIds : List Int) :
    SFServerConnectionManager where
  network := .init maxIDCount maxUserAccept
  listConnectorInfo := connectorIds.map fun connectorId => { connectorId }

def runNetwork (action : Action) : Option SFServerConnectionManager :=
  (s.network.step action).map fun network =>
    { s with network, pass := s.pass.map (·.after action) }

/-- The timer of the reconnect thread. -/
def wake : Option SFServerConnectionManager :=
  if s.pass = none then some { s with pass := some { startUp := false, index := 0 } } else none

/-- The first loop calls `AddConnector` for every connector, the others look at the flag. -/
def visit : Option SFServerConnectionManager :=
  match s.pass with
  | some ⟨startUp, index, none⟩ =>
      match s.listConnectorInfo[index]? with
      | none => some { s with pass := none }
      | some info =>
          if startUp = true ∨ info.connected = false then
            some { s with pass := some ⟨startUp, index, some .connecting⟩ }
          else some { s with pass := some ⟨startUp, index + 1, none⟩ }
  | _ => none

def connect (made : Bool) : Option SFServerConnectionManager :=
  match s.pass with
  | some ⟨startUp, index, some .connecting⟩ =>
      if made = true then
        some { s with
          network := s.network.makeHandler
          owner := Function.update s.owner s.network.made (some index)
          pass := some ⟨startUp, index, some (.opening s.network.made)⟩ }
      else some { s with pass := some ⟨startUp, index + 1, none⟩ }
  | _ => none

/-- The service whose `open` has come to its end. -/
def opened : Stage → Option ServiceRef
  | .connecting | .returned _ _ => none
  | .opening p => if (s.network.services p).point = .refused then some p else none
  | .posted p => some p
  | .failed p => if (s.network.services p).point = .closed then some p else none

/-- The serial of a service that is deleted is whatever is found there. -/
def getSerial (garbage : Int) : Option SFServerConnectionManager :=
  match s.pass with
  | some ⟨startUp, index, some stage⟩ =>
      (s.opened stage).map fun p =>
        let service := s.network.services p
        let serial := if service.deleted = true then garbage else service.serial
        { s with pass := some ⟨startUp, index, some (.returned p serial)⟩ }
  | _ => none

def setConnected : Option SFServerConnectionManager :=
  match s.pass with
  | some ⟨startUp, index, some (.returned _ serial)⟩ =>
      some { s with
        listConnectorInfo :=
          if 0 ≤ serial then
            s.listConnectorInfo.modify index fun info => { info with connected := true }
          else s.listConnectorInfo
        pass := some ⟨startUp, index + 1, none⟩ }
  | _ => none

def identifier (p : ServiceRef) : Option Int :=
  (s.owner p).bind fun index => s.listConnectorInfo[index]?.map (·.connectorId)

/-- The sessions of a listener have no connector. -/
def processConnectorPacket (command : Command) : List ConnectorInfo :=
  match s.identifier command.service with
  | none => s.listConnectorInfo
  | some identifier =>
      if identifier ∈ s.mapConnectorCallback then
        if command.connects = true then s.listConnectorInfo
        else setConnectorState identifier false s.listConnectorInfo
      else s.listConnectorInfo

def processPacket : Option SFServerConnectionManager :=
  s.network.queue[s.processed]?.map fun command =>
    { s with
      processed := s.processed + 1
      listConnectorInfo := s.processConnectorPacket command }

def step : ConnectorEvent → Option SFServerConnectionManager
  | .network action => s.runNetwork action
  | .addConnectorCallback identifier =>
      some { s with mapConnectorCallback := s.mapConnectorCallback ++ [identifier] }
  | .wake => s.wake
  | .visit => s.visit
  | .connect made => s.connect made
  | .getSerial garbage => s.getSerial garbage
  | .setConnected => s.setConnected
  | .processPacket => s.processPacket

def Steps (event : ConnectorEvent) (s' : SFServerConnectionManager) : Prop := s.step event = some s'

/-- The connection is registered for the connector. -/
def Live (index : Nat) (p : ServiceRef) : Prop :=
  s.owner p = some index ∧ ∃ id, s.network.manager.get id = some p ∧
    (s.network.services p).deleted = false

/-- A DISCONNECT of the service is among the commands. -/
def announces (commands : List Command) (p : ServiceRef) : Bool :=
  commands.any fun command => command.service = p ∧ command.connects = false

/-- Commands the logic has not come to. -/
def unprocessed : List Command := s.network.queue.drop s.processed

/-- No call of `AddConnector` is in progress, and no DISCONNECT of a connector is on its way into
the queue or waits there. -/
structure Quiet : Prop where
  idle : ∀ pass, s.pass = some pass → pass.call = none
  empty : ∀ p, s.owner p ≠ none →
    (s.network.services p).point ≠ .unregistered ∧ announces s.unprocessed p = false

/-- The loop calls `AddConnector` for the connector next. -/
def Calls (index : Nat) : Prop :=
  ∃ s' startUp, s.Steps .visit s' ∧ s'.pass = some ⟨startUp, index, some .connecting⟩

structure Sound : Prop where
  agrees : s.Quiet → ∀ index info, s.listConnectorInfo[index]? = some info →
    (info.connected = true ↔ ∃ p, s.Live index p)
  single : ∀ index p q, s.Live index p → s.Live index q → p = q
  once : ∀ index, s.Calls index → ∀ p, ¬s.Live index p
  retried : s.Quiet → ∀ pass, s.pass = some pass → pass.index < s.listConnectorInfo.length →
    (∀ p, ¬s.Live pass.index p) → s.Calls pass.index

/-- The connection is registered, or the logic has yet to process its DISCONNECT. -/
def held (p : ServiceRef) : Bool :=
  let service := s.network.services p
  s.network.manager.get service.serial = some p ∨ service.point = .unregistered ∨
    announces s.unprocessed p = true

/-- The logic has a callback for the connector of the service, and finds that connector first under
its id. -/
def heard (p : ServiceRef) : Bool :=
  (s.identifier p).all fun identifier =>
    identifier ∈ s.mapConnectorCallback ∧
      s.listConnectorInfo.findIdx? (·.connectorId = identifier) = s.owner p

/-- What `AddConnector` is about to answer, and the service it is about. -/
def answer : Option (ServiceRef × Int) :=
  match s.pass with
  | some ⟨_, _, some (.returned p serial)⟩ => some (p, serial)
  | _ => none

/-- The timer deletes no connection of a connector that has not sent its DISCONNECT. -/
def Spares : Action → Prop
  | .handleTimeOut p => s.owner p ≠ none → s.network.Careful (.handleTimeOut p)
  | _ => True

/-- `AddConnector` answers a serial exactly if no DISCONNECT of its connection has been processed,
and the logic can tell whose DISCONNECT it processes. -/
def InTime : ConnectorEvent → Prop
  | .network action => s.Spares action
  | .setConnected => ∀ answer ∈ s.answer, 0 ≤ answer.2 ↔ s.held answer.1 = true
  | .processPacket =>
      ∀ command ∈ s.network.queue[s.processed]?, command.connects = false →
        s.heard command.service = true
  | _ => True

instance (action : Action) : Decidable (s.Spares action) :=
  match action with
  | .handleTimeOut _ => inferInstanceAs (Decidable (_ → _))
  | .accept | .open _ _ | .register _ | .enter _ | .registerTimer _ | .createSessionService _
  | .onConnect _ | .postRecv _ _ | .handleReadStream _ _ | .unRegister _ | .onDisconnect _
  | .deleteSessionService _ | .setCloseFlag _ | .disconnect _ => instDecidableTrue

instance (event : ConnectorEvent) : Decidable (s.InTime event) :=
  match event with
  | .network action => inferInstanceAs (Decidable (s.Spares action))
  | .setConnected => inferInstanceAs (Decidable (∀ _ ∈ _, _))
  | .processPacket => inferInstanceAs (Decidable (∀ _ ∈ _, _))
  | .addConnectorCallback _ | .wake | .visit | .connect _ | .getSerial _ => instDecidableTrue

end SFServerConnectionManager

end Cgsf.Engine
