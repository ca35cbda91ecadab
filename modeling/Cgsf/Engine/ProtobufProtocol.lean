import Cgsf.Engine.DataBuffer
import Cgsf.Engine.Protocol
import Cgsf.Library.Reader

namespace Cgsf.Engine
open Library

/-- The generated message classes: `parse` is `ParseFromArray` into a message, `serialize` is
`SerializeToString`. -/
structure MessageCodec (μ : Type) where
  parse : μ → List UInt8 → Option μ
  serialize : μ → Option (List UInt8)

/-- `getCachedSize` is the size that the last `ByteSize` left in the message. -/
structure SFProtobufPacket (μ : Type) extends BasePacket where
  serviceId : UInt16
  message : μ
  encodedStream : Option (List UInt8) := none
  cachedSize : Nat := 0
  deriving DecidableEq, Repr

namespace SFProtobufPacket

variable {μ : Type} (messages : MessageCodec μ)

def decode (p : SFProtobufPacket μ) (bs : List UInt8) : Option (SFProtobufPacket μ) :=
  if bs.length = 0 then some p
  else (messages.parse p.message bs).map fun message => { p with message }

def encode (p : SFProtobufPacket μ) : SFProtobufPacket μ × Bool :=
  match p.encodedStream with
  | some _ => (p, true)
  | none =>
      match messages.serialize p.message with
      | some stream => ({ p with encodedStream := some stream, cachedSize := stream.length }, true)
      | none => (p, false)

end SFProtobufPacket

namespace SFProtocol

inductive Result where
  | success | insufficientBuffer | incompletePacket | corruptPacket | encodingFailure
  | decodingFailure | undefinedFailure | packetizingError
  deriving DecidableEq, Repr

end SFProtocol

/-- The receive and the send buffer. The subclass decides by `createIncomingPacketFromPacketId`
which packet ids it knows. -/
structure SFProtobufProtocol extends SFBasePacketProtocol where
  buffer : DataBuffer
  oBuffer : DataBuffer
  deriving DecidableEq, Repr

namespace SFProtobufProtocol

def signatureStart : Nat := 16018
def signatureEnd : Nat := 16108
def receiveBufferSize : Nat := 8192
def sendBufferSize : Nat := 8192

variable {μ : Type} (messages : MessageCodec μ)
variable (createIncomingPacketFromPacketId : UInt16 → Option (SFProtobufPacket μ))

def initProtocol (ioSize : Int) (packetSize : UInt16) (packetOption : UInt32) :
    SFProtobufProtocol where
  ioSize
  packetSize
  packetOption
  buffer := { uMaxSize := receiveBufferSize }
  oBuffer := { uMaxSize := sendBufferSize }

/-- The two bytes at an unsigned index into the receive buffer. -/
def readWord (b : DataBuffer) (index : Nat) : Option Nat :=
  (read? b.data index 2).map leValue

structure Deframed (μ : Type) where
  result : SFProtocol.Result
  packet : Option (SFProtobufPacket μ) := none
  packetId : UInt16 := 0
  extractedBytes : Nat := 0
  deriving DecidableEq, Repr

/-- The part behind the marker checks: make a packet for the id and decode the payload into it. -/
def makePacket (b : DataBuffer) (packetId : UInt16) (packetLen : Nat) : Option (Deframed μ) :=
  match createIncomingPacketFromPacketId packetId with
  | none => some { result := .undefinedFailure, packetId, extractedBytes := packetLen }
  | some p =>
      (read? b.data 6 (unsignedSub packetLen 8)).map fun data =>
        match p.decode messages data with
        | none => { result := .decodingFailure, packetId, extractedBytes := packetLen }
        | some p => { result := .success, packet := some p, packetId, extractedBytes := packetLen }

def tryDeframeIncomingPacket (b : DataBuffer) : Option (Deframed μ) :=
  if b.getDataSize < 8 then some { result := .incompletePacket }
  else
    (readWord b 0).bind fun sStart => (readWord b 2).bind fun packetLen =>
      (readWord b 4).bind fun packetId =>
        if sStart ≠ signatureStart then
          some { result := .corruptPacket, packetId := .ofNat packetId }
        else if packetLen > b.getDataSize then
          some { result := .incompletePacket, packetId := .ofNat packetId }
        else
          (readWord b (unsignedSub packetLen 2)).bind fun sEnd =>
            if sEnd ≠ signatureEnd then
              some { result := .corruptPacket, packetId := .ofNat packetId }
            else
              makePacket messages createIncomingPacketFromPacketId b (.ofNat packetId) packetLen

def getPacket (t : SFProtobufProtocol) :
    Option (SFProtobufProtocol × Int × Option (SFProtobufPacket μ)) := do
  let r ← tryDeframeIncomingPacket messages createIncomingPacketFromPacketId t.buffer
  match r.result with
  | .success =>
      return ({ t with buffer := t.buffer.pop r.extractedBytes }, 0,
        r.packet.map fun p => { p with packetID := r.packetId })
  | .decodingFailure => return ({ t with buffer := t.buffer.pop r.extractedBytes }, -1, none)
  | _ => return (t, 0, r.packet)

def addTransferredData (t : SFProtobufProtocol) (data : List UInt8) : SFProtobufProtocol × Bool :=
  let (buffer, ok) := t.buffer.append data
  ({ t with buffer }, ok)

def frameOutgoingPacket (p : SFProtobufPacket μ) (stream : List UInt8) (b : DataBuffer) :
    Option DataBuffer :=
  if 6 + stream.length + 2 > b.getRemainingSize then none
  else
    let b := (b.append (leBytes 2 signatureStart)).1
    let b := (b.append (leBytes 2 (p.cachedSize + 8))).1
    let b := (b.append (leBytes 2 p.serviceId.toNat)).1
    let b := (b.append (stream.take p.cachedSize)).1
    some (b.append (leBytes 2 signatureEnd)).1

def encode (t : SFProtobufProtocol) (p : SFProtobufPacket μ) :
    SFProtobufProtocol × SFProtobufPacket μ × Bool × List UInt8 :=
  let (p, ok) := p.encode messages
  match ok, p.encodedStream with
  | true, some stream =>
      match frameOutgoingPacket p stream t.oBuffer with
      | none => (t, p, false, [])
      | some b => ({ t with oBuffer := b.pop b.getDataSize }, p, true, b.data)
  | _, _ => (t, p, false, [])

def analyzer : Analyzer SFProtobufProtocol Unit (SFProtobufPacket μ) where
  initProtocol := fun ioSize packetSize option => some (initProtocol ioSize packetSize option)
  base := toSFBasePacketProtocol
  setBase := fun t base => { t with toSFBasePacketProtocol := base }
  addTransferredData := fun t data => some (addTransferredData t data)
  getPacket := fun _ t _ =>
    (getPacket messages createIncomingPacketFromPacketId t).map fun (t, errorCode, p) =>
      ((), t, errorCode, p)
  encode := fun t p => some (encode messages t p)
  pending := fun t => t.buffer.getDataSize
  basePacket := SFProtobufPacket.toBasePacket
  setBasePacket := fun p base => { p with toBasePacket := base }

end SFProtobufProtocol

/-! ## Read by read -/

namespace SFProtobufProtocol

/-- A call of `Decode`: the payload's offset in the receive buffer and its length. -/
structure DecodeCall where
  offset : Nat
  length : Nat
  deriving DecidableEq, Repr

variable {μ : Type} (createIncomingPacketFromPacketId : UInt16 → Option (SFProtobufPacket μ))

/-- `tryDeframeIncomingPacket` on `dataSize` buffered bytes, read by read, up to its call of
`Decode`. Indexes are unsigned, and wrap around. -/
def deframe (dataSize : Nat) : Reader (Option DecodeCall) :=
  if dataSize < 8 then .done none
  else
    .read 0 fun start0 => .read 2 fun len0 => .read 4 fun id0 =>
    .read 1 fun start1 => .read 3 fun len1 => .read 5 fun id1 =>
      let packetLen := leValue [len0, len1]
      if leValue [start0, start1] ≠ signatureStart then .done none
      else if packetLen > dataSize then .done none
      else
        .read (unsignedSub packetLen 2) fun end0 =>
        .read ((unsignedSub packetLen 2 + 1) % 2 ^ 32) fun end1 =>
          if leValue [end0, end1] ≠ signatureEnd then .done none
          else match createIncomingPacketFromPacketId (.ofNat (leValue [id0, id1])) with
            | none => .done none
            | some _ => .done (some { offset := 6, length := unsignedSub packetLen 8 })

end SFProtobufProtocol

end Cgsf.Engine

namespace Cgsf.Casual
open Engine

namespace CGSF

def login : UInt16 := 1001
def enterLobby : UInt16 := 1009
def chatReq : UInt16 := 1010
def enterRoom : UInt16 := 1012
def createRoom : UInt16 := 1013
def leaveRoom : UInt16 := 1014
def roomListRefresh : UInt16 := 1016
def changeTeam : UInt16 := 1017
def loadingStart : UInt16 := 1018
def loadingComplete : UInt16 := 1019
def playerIP : UInt16 := 1028

end CGSF

namespace SFCGProtobufProtocol
open CGSF

/-- `new` is the empty message of the class that belongs to an id. -/
def createIncomingPacketFromPacketId {μ : Type} (new : UInt16 → μ) (packetId : UInt16) :
    Option (SFProtobufPacket μ) :=
  if packetId ∈ [enterLobby, login, createRoom, enterRoom, playerIP, chatReq, leaveRoom, changeTeam,
      loadingStart, loadingComplete, roomListRefresh] then
    some { serviceId := packetId, message := new packetId }
  else none

end SFCGProtobufProtocol

end Cgsf.Casual
