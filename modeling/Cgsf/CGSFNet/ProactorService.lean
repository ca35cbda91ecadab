import Mathlib.Logic.Function.Basic
import Cgsf.CGSFNet.ServiceManager

namespace Cgsf.CGSFNet
open Std

/-- How far the thread has come that accepts the connection or completes its reads: in `open`, with
a read on its way, or in `ReserveClose`. -/
inductive Point where
  | absent | accepted | refused | opened | registered | timed | served | connected | received
  | reading | closing | unregistered | disconnected | released | closed
  deriving DecidableEq, Repr

structure ProactorService where
  point : Point := .absent
  serial : Int := 0
  handle : Bool := true
  sessionService : Bool := false
  serviceCloseFlag : Bool := false
  timer : Bool := false
  deleted : Bool := false

/-- A CONNECT or a DISCONNECT in the queue of the logic thread, and the service that sent it. -/
structure Command where
  serial : Int
  connects : Bool
  service : ServiceRef
  deriving DecidableEq, Repr

structure Network where
  maxUserAccept : Int
  manager : SFIDMap
  services : ServiceRef → ProactorService := fun _ => {}
  made : Nat := 0
  currentSessionCnt : Int := 0
  queue : List Command := []

/-- How a read completes; the session service takes its bytes or refuses them. -/
inductive ReadResult where
  | failed | empty | data (taken : Bool)
  deriving DecidableEq, Repr

inductive Action where
  | accept
  | open (p : ServiceRef) (streams : Bool)
  | register (p : ServiceRef)
  | enter (p : ServiceRef)
  | registerTimer (p : ServiceRef)
  | createSessionService (p : ServiceRef)
  | onConnect (p : ServiceRef)
  | postRecv (p : ServiceRef) (posted : Bool)
  | handleReadStream (p : ServiceRef) (result : ReadResult)
  | unRegister (p : ServiceRef)
  | onDisconnect (p : ServiceRef)
  | deleteSessionService (p : ServiceRef)
  | setCloseFlag (p : ServiceRef)
  | handleTimeOut (p : ServiceRef)
  | disconnect (serial : Int)
  deriving DecidableEq, Repr

namespace Network

variable (n : Network)

def init (maxIDCount : Nat) (maxUserAccept : Int) : Network where
  maxUserAccept
  manager := .init maxIDCount

def modify (p : ServiceRef) (f : ProactorService → ProactorService) : Network :=
  { n with services := Function.update n.services p (f (n.services p)) }

/-- The thread of `p` goes on from one point to the next. -/
def advance (p : ServiceRef) (before : Point) (f : ProactorService → ProactorService) :
    Option Network :=
  if (n.services p).point = before then some (n.modify p f) else none

def delete (p : ServiceRef) : Network :=
  { n.modify p fun service => { service with deleted := true } with
    currentSessionCnt := n.currentSessionCnt - 1 }

def dispatch (command : Command) : Network := { n with queue := n.queue ++ [command] }

def makeHandler : Network :=
  { n.modify n.made fun _ => { point := .accepted } with
    made := n.made + 1, currentSessionCnt := n.currentSessionCnt + 1 }

/-- The part of `open` before `Register`. -/
def openStreams (p : ServiceRef) (streams : Bool) : Option Network :=
  if streams = false then
    (n.advance p .accepted fun service => { service with point := .refused }).map (·.delete p)
  else if n.currentSessionCnt > n.maxUserAccept then
    (n.advance p .accepted fun service =>
      { service with point := .refused, handle := false }).map (·.delete p)
  else n.advance p .accepted fun service =>
    { service with point := .opened, serviceCloseFlag := false }

def register (p : ServiceRef) : Option Network :=
  let (serial, manager) := n.manager.register p
  let n := { n with manager }
  if serial = invalidId then
    (n.advance p .opened fun service =>
      { service with point := .refused, serial, handle := false }).map (·.delete p)
  else n.advance p .opened fun service => { service with point := .registered, serial }

def registerTimer (p : ServiceRef) : Option Network :=
  n.advance p .registered fun service => { service with point := .timed, timer := true }

def createSessionService (p : ServiceRef) : Option Network :=
  n.advance p .timed fun service => { service with point := .served, sessionService := true }

/-- From `Register` to `CreateSessionService` with no other thread in between. -/
def enter (p : ServiceRef) : Option Network :=
  (n.register p).bind fun n =>
    if (n.services p).point = .registered then
      (n.registerTimer p).bind fun n => n.createSessionService p
    else some n

def onConnect (p : ServiceRef) : Option Network :=
  (n.advance p .served fun service => { service with point := .connected }).map
    (·.dispatch ⟨(n.services p).serial, true, p⟩)

/-- A read can only be posted on a socket that is not closed. -/
def postRecv (p : ServiceRef) (posted : Bool) : Option Network :=
  let service := n.services p
  if service.point = .connected ∨ service.point = .received then
    if posted = false then some (n.modify p fun service => { service with point := .closing })
    else if service.handle = true then
      some (n.modify p fun service => { service with point := .reading })
    else none
  else none

/-- Nothing completes for a handler that is deleted. -/
def handleReadStream (p : ServiceRef) (result : ReadResult) : Option Network :=
  if (n.services p).deleted = true then none
  else n.advance p .reading fun service =>
    { service with point := if result = .data true then .received else .closing }

def unRegister (p : ServiceRef) : Option Network :=
  (n.advance p .closing fun service => { service with point := .unregistered }).map fun n =>
    { n with manager := n.manager.unRegister (n.services p).serial }

def onDisconnect (p : ServiceRef) : Option Network :=
  (n.advance p .unregistered fun service =>
    { service with point := .disconnected, handle := false }).map
      (·.dispatch ⟨(n.services p).serial, false, p⟩)

def deleteSessionService (p : ServiceRef) : Option Network :=
  n.advance p .disconnected fun service =>
    { service with point := .released, sessionService := false }

def setCloseFlag (p : ServiceRef) : Option Network :=
  n.advance p .released fun service => { service with point := .closed, serviceCloseFlag := true }

def handleTimeOut (p : ServiceRef) : Option Network :=
  let service := n.services p
  if service.timer = true ∧ service.deleted = false then
    if service.serviceCloseFlag = true then
      some ((n.modify p fun service => { service with timer := false }).delete p)
    else some n
  else none

/-- `none` is a pointer to a service that is deleted. -/
def disconnect (serial : Int) : Option Network :=
  match n.manager.get serial with
  | none => some n
  | some p =>
      if (n.services p).deleted = true then none
      else some (n.modify p fun service =>
        { service with handle := false, serviceCloseFlag := true })

/-- A packet for the id: `none` is a pointer to a service that is deleted, or that has no session
service to encode with. -/
def sendRequest (serial : Int) : Option Network :=
  match n.manager.get serial with
  | none => some n
  | some p =>
      if (n.services p).deleted = true ∨ (n.services p).sessionService = false then none else some n

def step : Action → Option Network
  | .accept => some n.makeHandler
  | .open p streams => n.openStreams p streams
  | .register p => n.register p
  | .enter p => n.enter p
  | .registerTimer p => n.registerTimer p
  | .createSessionService p => n.createSessionService p
  | .onConnect p => n.onConnect p
  | .postRecv p posted => n.postRecv p posted
  | .handleReadStream p result => n.handleReadStream p result
  | .unRegister p => n.unRegister p
  | .onDisconnect p => n.onDisconnect p
  | .deleteSessionService p => n.deleteSessionService p
  | .setCloseFlag p => n.setCloseFlag p
  | .handleTimeOut p => n.handleTimeOut p
  | .disconnect serial => n.disconnect serial

def Steps (action : Action) (n' : Network) : Prop := n.step action = some n'

end Network

end Cgsf.CGSFNet

/-!
# What ids, services and commands should say
-/

namespace Cgsf.CGSFNet

/-- The service has been given an id. -/
def given (point : Point) : Bool := point ∉ [Point.absent, .accepted, .refused, .opened]

/-- The engine has been told that the connection is gone. -/
def notified (point : Point) : Bool := point ∈ [Point.disconnected, .released, .closed]

namespace Network

/-- An id in use leads to a service that is there and that can encode. A service that is deleted has
given back the id it was given, and told the engine so once. -/
structure Sound (n : Network) : Prop where
  live : ∀ id p, n.manager.get id = some p →
    (n.services p).deleted = false ∧ (n.services p).sessionService = true
  returned : ∀ p, (n.services p).deleted = true → given (n.services p).point = true →
    ((n.services p).serial ∈ n.manager.idleIdQueue ∨
      ∃ q, q ≠ p ∧ n.manager.get (n.services p).serial = some q) ∧
    n.queue.count ⟨(n.services p).serial, false, p⟩ = 1

/-- No other thread runs between `Register` and `CreateSessionService`, and the timer finds no
service to delete that has not told the engine. -/
def Careful (n : Network) : Action → Prop
  | .register _ => n.manager.idleIdQueue = []
  | .handleTimeOut p =>
      (n.services p).serviceCloseFlag = true → notified (n.services p).point = true
  | _ => True

instance (n : Network) (action : Action) : Decidable (n.Careful action) :=
  match action with
  | .register _ => inferInstanceAs (Decidable (_ = _))
  | .handleTimeOut _ => inferInstanceAs (Decidable (_ → _))
  | .accept | .open _ _ | .enter _ | .registerTimer _ | .createSessionService _ | .onConnect _
  | .postRecv _ _ | .handleReadStream _ _ | .unRegister _ | .onDisconnect _
  | .deleteSessionService _ | .setCloseFlag _ | .disconnect _ => instDecidableTrue

/-- What the queue says of serials. -/
def commands (n : Network) : List (Int × Bool) :=
  n.queue.map fun command => (command.serial, command.connects)

/-- No connect is sent for a serial while an earlier connection, which has given the serial back, has
not sent its disconnect. -/
def InOrder (n : Network) : Action → Prop
  | .onConnect p => ∀ q, (n.services q).serial = (n.services p).serial →
      (n.services q).point ≠ .unregistered
  | _ => True

end Network

end Cgsf.CGSFNet
