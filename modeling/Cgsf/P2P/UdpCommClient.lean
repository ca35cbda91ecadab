import Cgsf.Library.Ownership
import Cgsf.P2P.PuPktStructure

/-!
# The send queue of the UDP client

The thread of the client takes packets off the queue and sends them, while other threads push and
reset. Nobody holds the lock of the queue during `sendto`.
-/

namespace Cgsf.P2P
open Library

def wsaEWouldBlock : Nat := 10035

/-- `push` is the number of the packet among those that were pushed. The code does not have it. -/
structure CUdpPacketNode where
  stRemote : SockAddr := ⟨0, 0⟩
  pbyBuff : List UInt8 := []
  push : Nat := 0
  deriving DecidableEq, Repr

/-- The two loops that empty the queue. -/
inductive Drain where
  | handleWrite
  | idleWrite
  deriving DecidableEq, Repr

/-- Where the thread of the client is: in `WaitForMultipleObjects`, at the head of a loop, in
`sendto` with a node in hand, or about to note that the socket would block. -/
inductive Phase where
  | waiting
  | loop (drain : Drain)
  | sending (drain : Drain) (pcPktNode : Nat)
  | blocked
  deriving DecidableEq, Repr

def Phase.hand : Phase → List Nat
  | .sending _ pcPktNode => [pcPktNode]
  | .waiting | .loop _ | .blocked => []

def Phase.idleSends : Phase → Bool
  | .sending .idleWrite _ => true
  | _ => false

/-- A `Push` that has a node and has not filled it yet. -/
structure PushCall where
  pcPktNode : Nat
  stRemote : SockAddr
  pbyBuff : List UInt8
  deriving DecidableEq, Repr

/-- `nodes` are the nodes that exist, by address; `resetting` says that `Reset` has the lock. The
last two fields only record what happened. -/
structure CUdpCommClient where
  maxSndPktLen : Nat
  connectFlag : Bool
  wouldBlock : Bool := false
  errorCode : Nat := 0
  wrEvent : Bool := false
  nodes : Nat → Option CUdpPacketNode := fun _ => none
  sndPktPool : List Nat := []
  sndPktList : List Nat := []
  phase : Phase := .waiting
  pushing : List PushCall := []
  resetting : Bool := false
  pushed : List CUdpPacketNode := []
  sent : List CUdpPacketNode := []

/-- `address` is what `new` answers if it is asked. -/
inductive UdpEvent where
  | push (stRemote : SockAddr) (pbyBuff : List UInt8) (address : Nat)
  | pushParts (stRemote : SockAddr) (pbyHdBuff pbyBdBuff : List UInt8) (address : Nat)
  | pushNode (stRemote : SockAddr) (pbyBuff : List UInt8) (address : Nat)
  | fill (k : Nat) (memory : Bool)
  | reset
  | resetNext
  | sockEvent
  | wrEvent
  | timeout
  | next
  | sendto (error : Option Nat)
  | noteBlocked
  deriving DecidableEq, Repr

def UdpEvent.fails : UdpEvent → Bool
  | .sendto (some error) => error ≠ wsaEWouldBlock
  | _ => false

namespace CUdpCommClient

variable (s : CUdpCommClient)

def new (address : Nat) (node : CUdpPacketNode) : Option CUdpCommClient :=
  if s.nodes address = none then
    some { s with nodes := Function.update s.nodes address (some node) }
  else none

/-- `CMemPool::Allocate`. -/
def allocate (address : Nat) : Option (Nat × CUdpCommClient) :=
  match s.sndPktPool with
  | pcNode :: pool => some (pcNode, { s with sndPktPool := pool })
  | [] => (s.new address {}).map (address, ·)

/-- `CMemPool::Deallocate`. -/
def deallocate (pcT : Nat) : CUdpCommClient := { s with sndPktPool := pcT :: s.sndPktPool }

/-- A push until it has its node. A packet that is too long gets none. -/
def beginPush (ulLen : Nat) (stRemote : SockAddr) (pbyBuff : List UInt8) (address : Nat) :
    Option CUdpCommClient :=
  if ulLen ≥ s.maxSndPktLen then some s
  else
    (s.allocate address).map fun (pcPktNode, s) =>
      { s with pushing := s.pushing ++ [⟨pcPktNode, stRemote, pbyBuff⟩] }

/-- `Init`, of the node at an address. -/
def init (pcPktNode : Nat) (stRemote : SockAddr) (pbyBuff : List UInt8) : CUdpCommClient :=
  { s with nodes := Function.update s.nodes pcPktNode (some ⟨stRemote, pbyBuff, s.pushed.length⟩) }

/-- From `Lock` to `Unlock`. It has to wait while `Reset` has the lock. -/
def add (pcPktNode : Nat) : Option CUdpCommClient :=
  if s.resetting then none
  else
    some { s with
      sndPktList := s.sndPktList ++ [pcPktNode]
      pushed := s.pushed ++ (s.nodes pcPktNode).toList
      wrEvent := s.wrEvent || (s.connectFlag && !s.wouldBlock) }

/-- The rest of a push. `memory` says whether the chunk of the node could be made as long as the
packet. -/
def fill (k : Nat) (memory : Bool) : Option CUdpCommClient :=
  match s.pushing[k]? with
  | none => none
  | some call =>
      let s := { s with pushing := s.pushing.eraseIdx k }
      if memory then (s.init call.pcPktNode call.stRemote call.pbyBuff).add call.pcPktNode
      else some (s.deallocate call.pcPktNode)

/-- The push of a node that its caller has made and filled. -/
def pushNode (stRemote : SockAddr) (pbyBuff : List UInt8) (address : Nat) :
    Option CUdpCommClient :=
  if pbyBuff.length ≥ s.maxSndPktLen then some s
  else (s.new address ⟨stRemote, pbyBuff, s.pushed.length⟩).bind (·.add address)

/-- A round of the loop of `Reset`. -/
def resetNext : CUdpCommClient :=
  match s.sndPktList with
  | [] => { s with resetting := false }
  | pcPktNode :: list => { s with sndPktList := list }.deallocate pcPktNode

def handleWrite : CUdpCommClient := { s with wouldBlock := false, phase := .loop .handleWrite }

def idleWrite : CUdpCommClient :=
  if s.wouldBlock then s else { s with phase := .loop .idleWrite }

/-- The section at the head of both loops. -/
def next (drain : Drain) : Option CUdpCommClient :=
  if s.resetting then none
  else
    match s.sndPktList with
    | [] => some { s with phase := .waiting }
    | pcPktNode :: list =>
        some { s with sndPktList := list, phase := .sending drain pcPktNode }

/-- What follows `sendto`, which succeeds or fails with an error code. `IdleWrite` leaves its loop
after any error. -/
def sendto (drain : Drain) (pcPktNode : Nat) : Option Nat → Option CUdpCommClient
  | none =>
      some ({ s with
        sent := s.sent ++ (s.nodes pcPktNode).toList
        phase := .loop drain }.deallocate pcPktNode)
  | some error =>
      if error = wsaEWouldBlock then
        if s.resetting then none
        else some { s with sndPktList := pcPktNode :: s.sndPktList, phase := .blocked }
      else
        match drain with
        | .handleWrite =>
            some ({ s with errorCode := error, phase := .loop drain }.deallocate pcPktNode)
        | .idleWrite => some { s with errorCode := error, phase := .waiting }

def step : UdpEvent → Option CUdpCommClient
  | .push stRemote pbyBuff address => s.beginPush pbyBuff.length stRemote pbyBuff address
  | .pushParts stRemote pbyHdBuff pbyBdBuff address =>
      s.beginPush ((pbyHdBuff.length + pbyBdBuff.length) % 2 ^ 32) stRemote (pbyHdBuff ++ pbyBdBuff)
        address
  | .pushNode stRemote pbyBuff address => s.pushNode stRemote pbyBuff address
  | .fill k memory => s.fill k memory
  | .reset => if s.resetting then none else some { s with resetting := true }
  | .resetNext => if s.resetting then some s.resetNext else none
  | .sockEvent => if s.phase = .waiting then some s.handleWrite else none
  | .wrEvent =>
      if s.phase = .waiting ∧ s.wrEvent then some { s with wrEvent := false }.handleWrite else none
  | .timeout => if s.phase = .waiting then some s.idleWrite else none
  | .next =>
      match s.phase with
      | .loop drain => s.next drain
      | _ => none
  | .sendto error =>
      match s.phase with
      | .sending drain pcPktNode => s.sendto drain pcPktNode error
      | _ => none
  | .noteBlocked =>
      match s.phase with
      | .blocked => some { s with wouldBlock := true, phase := .waiting }
      | _ => none

/-- The queue, the pool, the node that is being sent and those that are being filled. -/
def places : List Nat :=
  s.sndPktList ++ s.sndPktPool ++ s.phase.hand ++ s.pushing.map (·.pcPktNode)

/-- Every node is in one place. What was sent was pushed, in that order and no packet twice. -/
structure Conserved : Prop where
  owned : Owned s.nodes s.places
  filed : ∀ node ∈ s.sent, s.pushed[node.push]? = some node
  order : (s.sent.map (·.push)).Pairwise (· < ·)

/-- The node that was being sent is at the head of the queue if the socket would block, and else
back in the pool. -/
def Returned (s' : CUdpCommClient) : UdpEvent → Prop
  | .sendto error =>
      if error = some wsaEWouldBlock then
        s'.sndPktList = s.phase.hand ++ s.sndPktList ∧ s'.sndPktPool = s.sndPktPool
      else
        s'.sndPktList = s.sndPktList ∧ s'.sndPktPool = s.phase.hand ++ s.sndPktPool
  | _ => True

/-- `IdleWrite` gets no error from `sendto` but that the socket would block. -/
def IdleSends (event : UdpEvent) : Prop := ¬(s.phase.idleSends ∧ event.fails)

instance (event : UdpEvent) : Decidable (s.IdleSends event) := inferInstanceAs (Decidable ¬_)

end CUdpCommClient

end Cgsf.P2P
