import Cgsf.Library.Transition
import Cgsf.RPC.RPCService

namespace Cgsf.RPC

/-- A packet, with the number of the call that it goes back to. The number is not sent. -/
structure Packet where
  call : Nat
  data : Bytes
  deriving DecidableEq, Repr

/-- A thread that polls for a result in `recv`. -/
structure Invocation where
  call : Nat
  thread : Nat
  methodId : Int32
  deriving DecidableEq, Repr

/-- An invocation that took the reply to the call `consumed`: it loads its results from `returned`,
or it threw an exception. -/
structure Completion where
  call : Nat
  methodId : Int32
  consumed : Nat
  returned : Except Int32 Bytes
  deriving DecidableEq, Repr

/-- The threads of a client, its connection and the service. Requests and replies are on their way
up to `RPCThreadProc` and to `Update`; `queue` is what `GetRPCResult` takes from. `computed` and
`completions` only record what happened. -/
structure Network (σ : Type) where
  service : σ
  calls : Nat := 0
  invocations : List Invocation := []
  requests : List Packet := []
  replies : List Packet := []
  queue : List Packet := []
  computed : List Packet := []
  completions : List Completion := []
  deriving DecidableEq, Repr

/-- `serviceChange` is what others do with the service, such as the calls of other clients. -/
inductive NetworkEvent (σ : Type) where
  | send (thread : Nat) (svrName : Bytes) (methodId : Int32) (args : Bytes)
  | processRPCService
  | serviceChange (service : σ)
  | update
  | getRPCResult (thread : Nat)

namespace Network

variable {σ : Type} (serviceDef : ServiceDefinition σ) (n : Network σ)

/-- A thread makes its next call after the end of the one before. -/
def send (thread : Nat) (svrName : Bytes) (methodId : Int32) (args : Bytes) :
    Option (Network σ) :=
  if n.invocations.any (·.thread = thread) then none
  else some { n with
    calls := n.calls + 1
    invocations := n.invocations ++ [⟨n.calls, thread, methodId⟩]
    requests := n.requests ++ [⟨n.calls, Proxy.request svrName methodId args⟩] }

def processRPCService : Option (Network σ) :=
  match n.requests with
  | [] => none
  | packet :: requests =>
      (RPC.processRPCService serviceDef n.service packet.data).map fun (reply, service) => { n with
        service
        requests
        replies := n.replies ++ [⟨packet.call, reply⟩]
        computed := n.computed ++ [⟨packet.call, reply⟩] }

def update : Option (Network σ) :=
  match n.replies with
  | [] => none
  | packet :: replies => some { n with replies, queue := n.queue ++ [packet] }

/-- One round of the loop of `recv`. -/
def getRPCResult (thread : Nat) : Option (Network σ) :=
  match n.invocations.find? (·.thread = thread), n.queue with
  | none, _ => none
  | some _, [] => some n
  | some invocation, packet :: queue =>
      (Proxy.receive invocation.methodId packet.data).map fun returned => { n with
        invocations := n.invocations.eraseP (·.thread = thread)
        queue
        completions := n.completions ++
          [⟨invocation.call, invocation.methodId, packet.call, returned⟩] }

def step : NetworkEvent σ → Option (Network σ)
  | .send thread svrName methodId args => n.send thread svrName methodId args
  | .processRPCService => n.processRPCService serviceDef
  | .serviceChange service => some { n with service }
  | .update => n.update
  | .getRPCResult thread => n.getRPCResult thread

end Network

end Cgsf.RPC
