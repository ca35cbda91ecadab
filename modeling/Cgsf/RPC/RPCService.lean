import Mathlib.Data.Option.Basic
import Cgsf.Library.Words

/-!
# The persistence stream

What is saved is appended to the stream; a load takes its bytes from the front of what is left.
`copyData` does not compare with the end, so a load that needs more bytes than are left is
undefined: it answers nothing here.
-/

namespace Cgsf.RPC
open Library

abbrev Bytes := List UInt8

namespace CPstream

def copyData (count : Nat) (stream : Bytes) : Option (Bytes × Bytes) :=
  if count ≤ stream.length then some (stream.take count, stream.drop count) else none

def saveInt (i : Int32) : Bytes := leBytes 4 i.toUInt32.toNat

def loadInt (stream : Bytes) : Option (Int32 × Bytes) :=
  (copyData 4 stream).map fun (bytes, rest) => ((UInt32.ofNat (leValue bytes)).toInt32, rest)

def saveBool (b : Bool) : Bytes := [if b then 1 else 0]

def loadBool (stream : Bytes) : Option (Bool × Bytes) :=
  (copyData 1 stream).map fun (bytes, rest) => (bytes != [0], rest)

/-- The size is loaded as an `int`. -/
def saveString (ch : Bytes) : Bytes := leBytes 4 ch.length ++ ch

def loadString (stream : Bytes) : Option (Bytes × Bytes) :=
  (loadInt stream).bind fun (size, rest) =>
    if 0 ≤ size then copyData size.toInt.toNat rest else none

end CPstream

end Cgsf.RPC

namespace Cgsf.RPC
open CPstream

def rpcOk : Int32 := 0
def rpcOkInvalidServiceName : Int32 := 1
def rpcOkInvalidMethodId : Int32 := 2

/-- `dispatch` on what is left of the incoming stream, with what it writes to the outgoing one. -/
abbrev IServiceMethod (σ : Type) := σ → Bytes → Option (Bytes × σ)

structure ServiceDefinition (σ : Type) where
  serviceName : Bytes
  methodReg : List (IServiceMethod σ)

variable {σ : Type}

def ServiceDefinition.getMethodById (s : ServiceDefinition σ) (id : Int32) :
    Option (IServiceMethod σ) :=
  if 0 ≤ id then s.methodReg[id.toInt.toNat]? else none

/-- The reply to a request, and the service after it. -/
def processRPCService (serviceDef : ServiceDefinition σ) (service : σ) (iar : Bytes) :
    Option (Bytes × σ) := do
  let (svrName, iar) ← loadString iar
  if svrName ≠ serviceDef.serviceName then
    return (saveInt rpcOkInvalidServiceName, service)
  let (svrId, iar) ← loadInt iar
  match serviceDef.getMethodById svrId with
  | none => return (saveInt rpcOkInvalidMethodId, service)
  | some method =>
      let (results, service) ← method service iar
      return (saveInt rpcOk ++ saveInt svrId ++ results, service)

namespace Proxy

/-- What `invoke` sends: the arguments behind the service name and the method id. -/
def request (svrName : Bytes) (methodId : Int32) (args : Bytes) : Bytes :=
  saveString svrName ++ saveInt methodId ++ args

/-- How `invoke` goes on with a reply: it loads the results that are left of the stream, or it
throws the `ServiceException` of an error code. -/
def receive (methodId : Int32) (recvBuf : Bytes) : Option (Except Int32 Bytes) := do
  let (ret, ia) ← loadInt recvBuf
  if ret ≠ rpcOk then return .error ret
  let (resMethodId, ia) ← loadInt ia
  if methodId ≠ resMethodId then return .error ret
  return .ok ia

end Proxy

end Cgsf.RPC
