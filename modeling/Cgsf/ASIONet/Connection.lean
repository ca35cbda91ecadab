import Cgsf.ASIONet.ASIOClient
import Cgsf.Engine.Protocol

/-!
# A client and the session that serves it

The bytes of every write go to one stream, a few at a time, and the session reads them in pieces of
any size up to its receive buffer.
-/

namespace Cgsf.ASIONet
open Engine

def maxReceiveBufferLen : Nat := 512

/-- `taken` says of each outstanding write how many bytes the socket took; `stream` is what it took
and the session has not read. `requested` and `received` only record the packets that `SendRequest`
accepted and those that the logic layer got, `refused` whether an `OnReceive` returned false. -/
structure Connection where
  client : ASIOClient := {}
  clientProtocol : SFCGSFPacketProtocol
  taken : List Nat := []
  stream : List UInt8 := []
  sessionProtocol : SFCGSFPacketProtocol
  requested : List SFPacket := []
  received : List SFPacket := []
  refused : Bool := false

inductive ConnectionEvent where
  | sendRequest (pPacket : SFPacket)
  | transfer (k n : Nat)
  | complete (k : Nat)
  | resume (k : Nat)
  | receive (n : Nat) (pool : SFCGSFPacketProtocol.PacketPool)

namespace Connection

variable (codec : Codec) (serial : Int) (desc : SessionDesc) (s : Connection)

/-- Both sides are given a protocol with the same sizes. The engine of the server clones its own for
each session. -/
def connect (bufferIOSize : Int) (packetDataSize : UInt16) (packetOption : UInt32) :
    Option Connection := do
  let clientProtocol ← SFPacketProtocol.construct (SFCGSFPacketProtocol.analyzer codec)
    bufferIOSize packetDataSize packetOption
  let sessionProtocol ← SFPacketProtocol.clone (SFCGSFPacketProtocol.analyzer codec) clientProtocol
  return { clientProtocol, sessionProtocol }

/-- Of the writes that are started now the socket has no byte yet. -/
def withClient (client : ASIOClient) : Connection :=
  { s with
    client
    taken := s.taken ++ List.replicate (client.outstanding.length - s.taken.length) 0 }

def sendRequest (pPacket : SFPacket) : Option Connection := do
  let (clientProtocol, _, encoded, pBuffer) ←
    SFCGSFPacketProtocol.encode codec s.clientProtocol pPacket
  let s := { s with clientProtocol }
  if !encoded then return s
  else
    return { s with requested := s.requested ++ [pPacket] }.withClient
      (s.client.postSend (.copy pBuffer))

/-- The socket takes the next `n` bytes of an outstanding write. -/
def transfer (k n : Nat) : Option Connection := do
  let write ← s.client.outstanding[k]?
  let taken ← s.taken[k]?
  if n = 0 ∨ write.size < taken + n then none
  else
    return { s with
      taken := s.taken.set k (taken + n)
      stream := s.stream ++ (write.buffer.data.drop taken).take n }

/-- The handler is called when the socket has all bytes of the write. -/
def complete (k : Nat) : Option Connection := do
  let write ← s.client.outstanding[k]?
  let taken ← s.taken[k]?
  if taken < write.size then none
  else
    let client ← s.client.step (.complete k)
    return { s with client, taken := s.taken.eraseIdx k }

/-- What `OnReceive` answers is not used. -/
def receive (n : Nat) (pool : SFCGSFPacketProtocol.PacketPool) : Option Connection := do
  if n = 0 ∨ maxReceiveBufferLen < n ∨ s.stream.length < n then none
  else
    let r ← SFPacketProtocol.onReceive (SFCGSFPacketProtocol.analyzer codec) serial desc pool
      s.sessionProtocol (s.stream.take n)
    return { s with
      stream := s.stream.drop n
      sessionProtocol := r.analyzer
      received := s.received ++ r.sent
      refused := s.refused || !r.ok }

def step : ConnectionEvent → Option Connection
  | .sendRequest pPacket => s.sendRequest codec pPacket
  | .transfer k n => s.transfer k n
  | .complete k => s.complete k
  | .resume k => (s.client.step (.resume k)).map s.withClient
  | .receive n pool => s.receive codec serial desc n pool

/-- The bytes that are still with the client. -/
def unsent : List UInt8 := (s.client.sendDataQueue.flatMap Buffer.data).drop s.taken.sum

/-- What has to happen until the last byte is read. -/
def rank : Nat := 2 * s.unsent.length + s.stream.length + s.client.rank

end Connection

end Cgsf.ASIONet
