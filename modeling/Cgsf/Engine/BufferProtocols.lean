import Cgsf.Engine.DataBuffer
import Cgsf.Engine.Protocol

namespace Cgsf.Engine
open Library

structure SFMsgPackPacket extends BasePacket where
  header : SFPacketHeader := {}
  data : List UInt8 := []
  deriving DecidableEq, Repr

structure SFMsgPackProtocol extends SFBasePacketProtocol where
  packetIOBuffer : SFIOBuffer
  deriving DecidableEq, Repr

namespace SFMsgPackProtocol

def initProtocol (ioBufferSize : Int) (packetSize : UInt16) (packetOption : UInt32) :
    SFMsgPackProtocol where
  ioSize := ioBufferSize
  packetSize
  packetOption
  packetIOBuffer := (SFIOBuffer.empty.allocIOBuf ioBufferSize).1

def addTransferredData (t : SFMsgPackProtocol) (data : List UInt8) :
    Option (SFMsgPackProtocol × Bool) :=
  (t.packetIOBuffer.appendData data).map fun (ring, _) => ({ t with packetIOBuffer := ring }, true)

/-- `reserved` bytes are what the unpacker of a new packet reserves; its header still says 0 when
`reserve_buffer` asks for the data size. -/
def getPacket (reserved : Nat) (t : SFMsgPackProtocol) :
    Option (SFMsgPackProtocol × Int × Option SFMsgPackPacket) :=
  (SFPacketIOBuffer.getPacket t.packetIOBuffer {} reserved t.packetSize).map fun r =>
    let t := { t with packetIOBuffer := r.ring }
    if r.found then
      (t, r.errorCode, some { header := r.header, data := r.data, packetID := r.header.packetID })
    else (t, r.errorCode, none)

def encode (t : SFMsgPackProtocol) (p : SFMsgPackPacket) :
    SFMsgPackProtocol × SFMsgPackPacket × Bool × List UInt8 := (t, p, false, [])

def analyzer (reserved : Nat) : Analyzer SFMsgPackProtocol Unit SFMsgPackPacket where
  initProtocol := fun ioSize packetSize option => some (initProtocol ioSize packetSize option)
  base := toSFBasePacketProtocol
  setBase := fun t base => { t with toSFBasePacketProtocol := base }
  addTransferredData := addTransferredData
  getPacket := fun _ t _ =>
    (getPacket reserved t).map fun (t, errorCode, p) => ((), t, errorCode, p)
  encode := fun t p => some (encode t p)
  pending := fun t => t.packetIOBuffer.iUsedBufferSize
  basePacket := SFMsgPackPacket.toBasePacket
  setBasePacket := fun p base => { p with toBasePacket := base }

end SFMsgPackProtocol

/-- `SFAvroPacket<T>`: the memory image of `m_Packet`, which is `sizeof(T)` bytes long. -/
structure SFAvroPacket extends BasePacket where
  header : SFPacketHeader := {}
  packet : List UInt8
  deriving DecidableEq, Repr

namespace SFAvroPacket

def getBufferSize (p : SFAvroPacket) : Nat := p.packet.length

def decode (p : SFAvroPacket) (pBuf : List UInt8) : Option SFAvroPacket :=
  (read? pBuf 0 p.getBufferSize).map fun packet => { p with packet }

end SFAvroPacket

structure SFAvroProtocol extends SFBasePacketProtocol where
  packetIOBuffer : SFIOBuffer
  buffer : List UInt8
  deriving DecidableEq, Repr

namespace SFAvroProtocol

variable (createIncomingPacketFromPacketId : UInt16 → Option SFAvroPacket)

def dataBufferSize : Nat := 8096

def initProtocol (ioBufferSize : Int) (packetSize : UInt16) (packetOption : UInt32) :
    SFAvroProtocol where
  ioSize := ioBufferSize
  packetSize
  packetOption
  packetIOBuffer := (SFIOBuffer.empty.allocIOBuf ioBufferSize).1
  buffer := List.replicate packetSize.toNat 0

def reset (t : SFAvroProtocol) : SFAvroProtocol :=
  { t with packetIOBuffer := t.packetIOBuffer.initIOBuf }

def addTransferredData (t : SFAvroProtocol) (data : List UInt8) : Option (SFAvroProtocol × Bool) :=
  (t.packetIOBuffer.appendData data).map fun (ring, _) => ({ t with packetIOBuffer := ring }, true)

/-- The part behind `GetHeader`: read the data into the local buffer and from there into a packet. -/
def getBody (t : SFAvroProtocol) (header : SFPacketHeader) (p : SFAvroPacket) :
    Option (SFAvroProtocol × Int × Option SFAvroPacket) :=
  (SFPacketIOBuffer.getPacket t.packetIOBuffer header dataBufferSize t.packetSize).bind fun r =>
    let t := { t with packetIOBuffer := r.ring }
    let dataBuffer := r.data ++ List.replicate (dataBufferSize - r.data.length) 0
    if r.found then
      (p.decode dataBuffer).map fun p =>
        (t, r.errorCode, some { p with header, packetID := r.header.packetID })
    else some (t, r.errorCode, none)

def getPacket (t : SFAvroProtocol) : Option (SFAvroProtocol × Int × Option SFAvroPacket) :=
  (SFPacketIOBuffer.getHeader t.packetIOBuffer {}).bind fun r =>
    let t := { t with packetIOBuffer := r.ring }
    match r.found, createIncomingPacketFromPacketId r.header.packetID with
    | true, some p => getBody t r.header p
    | _, _ => some (t, r.errorCode, none)

def encode (t : SFAvroProtocol) (p : SFAvroPacket) :
    Option (SFAvroProtocol × SFAvroPacket × Bool × List UInt8) :=
  (write? t.buffer 0 p.header.bytes).bind fun buffer =>
  (write? buffer headerSize p.packet).bind fun buffer =>
  (write? buffer 10 (leBytes 2 p.getBufferSize)).bind fun buffer =>
  (read? buffer 0 (headerSize + p.getBufferSize)).map fun bytes => ({ t with buffer }, p, true, bytes)

def analyzer : Analyzer SFAvroProtocol Unit SFAvroPacket where
  initProtocol := fun ioSize packetSize option => some (initProtocol ioSize packetSize option)
  base := toSFBasePacketProtocol
  setBase := fun t base => { t with toSFBasePacketProtocol := base }
  addTransferredData := addTransferredData
  getPacket := fun _ t _ =>
    (getPacket createIncomingPacketFromPacketId t).map fun (t, errorCode, p) => ((), t, errorCode, p)
  encode := encode
  pending := fun t => t.packetIOBuffer.iUsedBufferSize
  basePacket := SFAvroPacket.toBasePacket
  setBasePacket := fun p base => { p with toBasePacket := base }

end SFAvroProtocol

/-- The HTTP parser. `feed` answers how many bytes it took, or throws; it takes at least one of
those it is offered. -/
structure HTTPParser (ρ : Type) where
  empty : ρ
  complete : ρ → Bool
  feed : ρ → List UInt8 → Option (ρ × Nat)
  responds : List UInt8 → Bool
  feed_pos : ∀ r data r' pass, data ≠ [] → feed r data = some (r', pass) →
    0 < pass ∧ pass ≤ data.length

structure SFHTTPPacket (ρ : Type) extends BasePacket where
  request : ρ
  rawResponse : List UInt8 := []
  deriving DecidableEq, Repr

structure SFHTTPProtocol extends SFBasePacketProtocol where
  iOBuffer : SFIOBuffer
  deriving DecidableEq, Repr

namespace SFHTTPProtocol

variable {ρ : Type} (parser : HTTPParser ρ)

def recvDataSize : Nat := 16384

def initProtocol (ioBufferSize : Int) (packetSize : UInt16) (packetOption : UInt32) :
    SFHTTPProtocol where
  ioSize := ioBufferSize
  packetSize
  packetOption
  iOBuffer := (SFIOBuffer.empty.allocIOBuf ioBufferSize).1

def addTransferredData (t : SFHTTPProtocol) (data : List UInt8) : Option (SFHTTPProtocol × Bool) :=
  (t.iOBuffer.appendData data).map fun (ring, _) => ({ t with iOBuffer := ring }, true)

/-- The `while` loop of `GetPacket`: every turn feeds the front of `recvData`, only fewer bytes of
it. `none` is an exception. -/
def feedLoop (recvData : List UInt8) : Nat → ρ → Nat → Option (ρ × Nat)
  | 0, request, size => some (request, size)
  | fuel + 1, request, size =>
      if size > 0 ∧ parser.complete request = false then
        (parser.feed request (recvData.take size)).bind fun (request, pass) =>
          feedLoop recvData fuel request (size - pass)
      else some (request, size)

def getPacket (t : SFHTTPProtocol) : Option (SFHTTPProtocol × Int × Option (SFHTTPPacket ρ)) :=
  if t.iOBuffer.iUsedBufferSize = 0 then some (t, packetIOErrorNone, none)
  else (t.iOBuffer.getData recvDataSize).bind fun (ring, recvData) =>
    let drained := { t with iOBuffer := ring }
    if recvData.length = 0 then some (drained, packetIOErrorData, none)
    else match feedLoop parser recvData recvData.length parser.empty recvData.length with
      | none => some (drained, packetIOErrorData, none)
      | some (request, size) =>
          if parser.complete request = false then
            (ring.appendData recvData).map fun (ring, _) =>
              ({ t with iOBuffer := ring }, packetIOErrorNone, none)
          else if size > 0 then
            (ring.appendData (recvData.drop (recvData.length - size))).map fun (ring, _) =>
              ({ t with iOBuffer := ring }, packetIOErrorNone, some { request })
          else some (drained, packetIOErrorNone, some { request })

def encode (t : SFHTTPProtocol) (p : SFHTTPPacket ρ) :
    SFHTTPProtocol × SFHTTPPacket ρ × Bool × List UInt8 :=
  if parser.responds p.rawResponse then (t, p, true, p.rawResponse) else (t, p, false, [])

def analyzer : Analyzer SFHTTPProtocol Unit (SFHTTPPacket ρ) where
  initProtocol := fun ioSize packetSize option => some (initProtocol ioSize packetSize option)
  base := toSFBasePacketProtocol
  setBase := fun t base => { t with toSFBasePacketProtocol := base }
  addTransferredData := addTransferredData
  getPacket := fun _ t _ => (getPacket parser t).map fun (t, errorCode, p) => ((), t, errorCode, p)
  encode := fun t p => some (encode parser t p)
  pending := fun t => t.iOBuffer.iUsedBufferSize
  basePacket := SFHTTPPacket.toBasePacket
  setBasePacket := fun p base => { p with toBasePacket := base }

end SFHTTPProtocol

namespace SFEchoProtocol

def receiveBufferSize : Nat := 8192

end SFEchoProtocol

structure SFEchoPacket extends BasePacket where
  buffer : DataBuffer := { uMaxSize := SFEchoProtocol.receiveBufferSize }
  deriving DecidableEq, Repr

structure SFEchoProtocol extends SFBasePacketProtocol where
  buffer : DataBuffer
  deriving DecidableEq, Repr

namespace SFEchoProtocol

def initProtocol (ioBufferSize : Int) (packetSize : UInt16) (packetOption : UInt32) :
    SFEchoProtocol where
  ioSize := ioBufferSize
  packetSize
  packetOption
  buffer := { uMaxSize := receiveBufferSize }

def addTransferredData (t : SFEchoProtocol) (data : List UInt8) : SFEchoProtocol × Bool :=
  let (buffer, ok) := t.buffer.append data
  ({ t with buffer }, ok)

def getPacket (t : SFEchoProtocol) : SFEchoProtocol × Int × Option SFEchoPacket :=
  if t.buffer.getDataSize = 0 then (t, packetIOErrorNone, none)
  else
    let p : SFEchoPacket := {}
    ({ t with buffer := t.buffer.pop t.buffer.getDataSize }, packetIOErrorNone,
      some { p with buffer := (p.buffer.append t.buffer.data).1 })

def encode (t : SFEchoProtocol) (p : SFEchoPacket) :
    SFEchoProtocol × SFEchoPacket × Bool × List UInt8 := (t, p, true, p.buffer.data)

def analyzer : Analyzer SFEchoProtocol Unit SFEchoPacket where
  initProtocol := fun ioSize packetSize option => some (initProtocol ioSize packetSize option)
  base := toSFBasePacketProtocol
  setBase := fun t base => { t with toSFBasePacketProtocol := base }
  addTransferredData := fun t data => some (addTransferredData t data)
  getPacket := fun _ t _ =>
    let (t, errorCode, p) := getPacket t
    some ((), t, errorCode, p)
  encode := fun t p => some (encode t p)
  pending := fun t => t.buffer.getDataSize
  basePacket := SFEchoPacket.toBasePacket
  setBasePacket := fun p base => { p with toBasePacket := base }

end SFEchoProtocol

end Cgsf.Engine
