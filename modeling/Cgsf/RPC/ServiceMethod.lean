import Cgsf.Engine.Packet
import Cgsf.RPC.Arg
import Cgsf.RPC.RPCService

namespace Cgsf.RPC

/-- What a method is given for a parameter: a value, a null pointer, or a variable. It cannot tell
where a variable is, but it can tell that it is the one it was given before, at `first`. -/
inductive View where
  | value (a : Bytes)
  | null
  | cell (first : Nat) (content : Cell)
  deriving DecidableEq, Repr

/-- What a method returns. A pointer or a reference leads to an object that the method made for its
caller, to the variable of a parameter, or to an object of the service. -/
inductive Result where
  | void
  | value (a : Bytes)
  | null
  | fresh (content : Cell)
  | param (k : Nat)
  | own (content : Cell)
  deriving DecidableEq, Repr

/-- The service after a call, what is in the variable that was first given at `k`, and the result;
without a result the method threw an exception. -/
structure Outcome (σ : Type) where
  service : σ
  contents : Nat → Bytes
  result : Option Result

def firstAt (args : List Arg) (a : Nat) : Nat := (args.map Arg.place?).idxOf (some a)

def Arg.view (first : Nat → Nat) (memory : Memory) : Arg → View
  | .value _ a => .value a
  | .primitiveRef _ a | .objectRef _ a | .primitivePtr _ (some a) | .objectPtr _ (some a)
  | .charPtr (some a) => .cell (first a) (memory a)
  | .primitivePtr _ none | .objectPtr _ none | .charPtr none => .null

def views (memory : Memory) (args : List Arg) : List View :=
  args.map (Arg.view (firstAt args) memory)

def Outcome.memory {σ : Type} (outcome : Outcome σ) (args : List Arg) (memory : Memory) : Memory :=
  fun a =>
    if some a ∈ args.map Arg.place? then
      { memory a with image := outcome.contents (firstAt args a) }
    else memory a

variable (classes : List Persistence)

namespace ParamType

def isPointer : ParamType → Bool
  | primitivePtr _ | objectPtr _ | charPtr => true
  | value _ | primitiveRef _ | objectRef _ => false

/-- What a variable of the type can hold. -/
def Holds (content : Cell) : ParamType → Prop
  | value _ => False
  | primitiveRef type | primitivePtr type => content.cls = 0 ∧ type.Valid content.image
  | objectRef derived | objectPtr derived =>
      derived content.cls = true ∧ ∃ type, classes[content.cls]? = some type ∧
        type.Valid content.image
  | charPtr => content.cls = 0 ∧ Persistence.chars.Valid content.image

def Takes (t : ParamType) : View → Prop
  | .value a => ∃ type, t = value type ∧ type.Valid a
  | .null => t.isPointer = true
  | .cell _ content => t.Holds classes content

def Returns (views : List View) (t : ParamType) : Result → Prop
  | .void => False
  | .value a => ∃ type, t = value type ∧ type.Valid a
  | .null => t.isPointer = true
  | .fresh content | .own content => t.Holds classes content
  | .param k => ∃ first content, views[k]? = some (.cell first content)

end ParamType

/-- A parameter shows the variable that it shares with the first one. -/
def Coherent (views : List View) : Prop :=
  ∀ (k first : Nat) content, views[k]? = some (.cell first content) →
    views[first]? = some (.cell first content)

/-- A method of the service with its signature, which what it does respects. -/
structure ServiceMethod (σ : Type) where
  params : List ParamType
  upToEight : params.length ≤ 8
  ret : Option ParamType
  memFunc : σ → List View → Outcome σ
  contentsTyped : ∀ service views, List.Forall₂ (ParamType.Takes classes) params views →
    Coherent views → ∀ (k : Nat) t first content, params[k]? = some t → views[k]? = some (.cell first content) →
      t.Holds classes { content with image := (memFunc service views).contents first }
  resultTyped : ∀ service views, List.Forall₂ (ParamType.Takes classes) params views →
    Coherent views → ∀ result, (memFunc service views).result = some result →
      match ret with
      | none => result = .void
      | some t => t.Returns classes views result

/-- The service on the server. The other fields record what the last `dispatch` did: what it left of
the request, how many objects were created for the call, and the objects that were destroyed. -/
structure Server (σ : Type) where
  service : σ
  unread : Bytes := []
  created : Nat := 0
  destroyed : List Nat := []

namespace Result

def place? (args : List Arg) (created : Nat) : Result → Option Nat
  | void | value _ | null => none
  | fresh _ | own _ => some created
  | param k => (args[k]?).bind Arg.place?

def isFresh : Result → Bool
  | fresh _ => true
  | void | value _ | null | param _ | own _ => false

/-- The object behind the pointer, at the next place. -/
def put (memory : Memory) (created : Nat) : Result → Memory
  | fresh content | own content => Function.update memory created content
  | void | value _ | null | param _ => memory

def arg (args : List Arg) (created : Nat) (result : Result) : ParamType → Option Arg
  | .value type =>
      match result with
      | value a => some (.value type a)
      | _ => none
  | .primitiveRef type => (result.place? args created).map (.primitiveRef type)
  | .primitivePtr type => some (.primitivePtr type (result.place? args created))
  | .objectRef derived => (result.place? args created).map (.objectRef derived)
  | .objectPtr derived => some (.objectPtr derived (result.place? args created))
  | .charPtr => some (.charPtr (result.place? args created))

end Result

/-- A text that is longer than the buffer that was made for it. -/
def overflows (before after : Memory) : Arg → Bool
  | .charPtr (some a) => (before a).image.length < (after a).image.length
  | _ => false

def saveResult (memory : Memory) (args : List Arg) (created : Nat) (ret : Option ParamType)
    (result : Option Result) : Bytes :=
  match ret, result with
  | some t, some result =>
      match result.arg args created t with
      | some retVal => (retVal.save classes (result.put memory created) []).1
      | none => []
  | _, _ => []

/-- `retVal` stays null when the method throws, and the exception is caught. The destructor of an
`Arg` of the server deletes what its `_a` leads to. -/
def ServiceMethod.dispatch {σ : Type} (m : ServiceMethod classes σ) :
    IServiceMethod (Server σ) := fun server iAr => do
  let (args, l) ← loadArgs classes m.params { stream := iAr }
  let outcome := m.memFunc server.service (views l.memory args)
  let memory := outcome.memory args l.memory
  if args.any (overflows l.memory memory) then none
  let oAr := saveUpdates classes memory args ++
    saveResult classes memory args l.created m.ret outcome.result
  return (oAr, {
    service := outcome.service
    unread := l.stream
    created := if outcome.result.any Result.isFresh then l.created + 1 else l.created
    destroyed := (outcome.result.bind (Result.place? args l.created)).toList ++
      (args.filterMap Arg.place?).reverse })

end Cgsf.RPC

namespace Cgsf.RPC

/-- The data of the packet that `send` and `SendRPCServiceResult` write a stream into. -/
def packetData (bytes : Bytes) : Option Bytes :=
  ((({} : Engine.SFPacket).setPacketID Engine.sfpacketRPCPacket).write bytes).bind fun packet =>
    packet.getData packet.getDataSize

variable (classes : List Persistence) {σ : Type}

/-- A call of a method by a client with its own variables. -/
structure Call (σ : Type) where
  method : ServiceMethod classes σ
  args : List Arg
  memory : Memory
  typed : args.map Arg.type = method.params
  valid : List.Forall₂ (ParamType.Takes classes) method.params (views memory args)
  maxClass : classes.length ≤ 128

/-- The call made on the service itself. -/
def Call.locally {classes : List Persistence} (call : Call classes σ) (service : σ) : Outcome σ :=
  call.method.memFunc service (views call.memory call.args)

/-- How a remote call ends: with the `ServiceException` of a code, or with a result and what it left
of the reply. -/
structure Remote (σ : Type) where
  ended : Except Int32 (Result × Bytes)
  memory : Memory
  server : Server σ

namespace Proxy

/-- A pointer or a reference that was loaded leads to a new object of the client. -/
def ref (memory : Memory) (retVal : Arg) : Result :=
  match retVal.view (fun a => a) memory with
  | .value a => .value a
  | .null => .null
  | .cell _ content => .fresh content

def loadResult (ret : Option ParamType) (ia : Bytes) : Option (Result × Bytes) :=
  match ret with
  | none => some (.void, ia)
  | some t =>
      (t.load classes { stream := ia }).map fun (retVal, l) => (ref l.memory retVal, l.stream)

def invoke (serviceDef : ServiceDefinition (Server σ)) (methodId : Int32) (server : Server σ)
    (call : Call classes σ) : Option (Remote σ) := do
  let oa := request serviceDef.serviceName methodId (saveArgs classes call.memory call.args [])
  let iar ← packetData oa
  let (oa, server) ← processRPCService serviceDef server iar
  let recvBuf ← packetData oa
  match ← receive methodId recvBuf with
  | .error ret => return { ended := .error ret, memory := call.memory, server }
  | .ok ia =>
      let (memory, ia) ← loadUpdates classes call.memory ia call.args
      let (result, ia) ← loadResult classes call.method.ret ia
      return { ended := .ok (result, ia), memory, server }

end Proxy

end Cgsf.RPC
