import Cgsf.Engine.Protocol

namespace Cgsf.Engine
open Library

/-- The JSON library under `JsonObjectNode`: `read` puts a text into a node, or throws half-way and
leaves what it has read so far. -/
structure JsonCodec (ν : Type) where
  empty : ν
  read : ν → List UInt8 → ν × Bool
  write : ν → List UInt8

namespace JsonObjectNode

variable {ν : Type} (json : JsonCodec ν)

def parse (node : ν) (content : List UInt8) : ν × Nat :=
  match json.read node content with
  | (node, true) => (node, (json.write node).length)
  | (node, false) => (node, 0)

end JsonObjectNode

structure JsonBuilder where
  bufferPtr : List UInt8
  writtenOffset : Nat
  readOffset : Nat
  ioSize : Int
  deriving DecidableEq, Repr

namespace JsonBuilder

variable {ν : Type} (json : JsonCodec ν)

/-- Allocating a negative number of bytes throws. -/
def prepareBuffer (ioSize : Int) : Option JsonBuilder :=
  if ioSize < 0 then none else some ⟨List.replicate ioSize.toNat 0, 0, 0, ioSize⟩

def getUsedBufferSize (b : JsonBuilder) : Nat := unsignedSub b.writtenOffset b.readOffset

def getBuffer (b : JsonBuilder) (n : Nat) : Option (List UInt8) := read? b.bufferPtr b.readOffset n

def incReadOffset (b : JsonBuilder) (inc : Nat) : JsonBuilder :=
  { b with readOffset := b.readOffset + inc }

def addBuffer (b : JsonBuilder) (buffer : List UInt8) : Option (JsonBuilder × Bool) :=
  if ((b.writtenOffset + buffer.length : Nat) : Int) > b.ioSize then some (b, false)
  else (write? b.bufferPtr b.writtenOffset buffer).map fun bufferPtr =>
    ({ b with bufferPtr, writtenOffset := b.writtenOffset + buffer.length }, true)

def popCompleteNode (b : JsonBuilder) (node : ν) (dataSize : Nat) :
    Option (JsonBuilder × ν × Bool) :=
  (b.getBuffer dataSize).map fun content =>
    let (node, usedSize) := JsonObjectNode.parse json node content
    let b := b.incReadOffset dataSize
    if usedSize = 0 then (b, node, false)
    else if b.readOffset = b.writtenOffset then
      ({ b with readOffset := 0, writtenOffset := 0 }, node, true)
    else (b, node, true)

/-- The bytes copied to a buffer of `bufferLen` bytes. -/
def makeBuffer (node : ν) (bufferLen : Nat) : List UInt8 :=
  let contentStr := json.write node
  if bufferLen < contentStr.length then [] else contentStr

end JsonBuilder

structure SFJsonPacket (ν : Type) extends BasePacket where
  header : SFPacketHeader := {}
  node : ν
  deriving DecidableEq, Repr

structure SFJsonProtocol extends SFBasePacketProtocol where
  builder : JsonBuilder
  buffer : List UInt8
  deriving DecidableEq, Repr

namespace SFJsonProtocol

variable {ν : Type} (json : JsonCodec ν)

def initProtocol (ioBufferSize : Int) (packetSize : UInt16) (packetOption : UInt32) :
    Option SFJsonProtocol :=
  (JsonBuilder.prepareBuffer ioBufferSize).map fun builder =>
    { ioSize := ioBufferSize
      packetSize
      packetOption
      builder
      buffer := List.replicate packetSize.toNat 0 }

def addTransferredData (t : SFJsonProtocol) (data : List UInt8) : Option (SFJsonProtocol × Bool) :=
  (t.builder.addBuffer data).map fun (builder, _) => ({ t with builder }, true)

def getCompleteNode (t : SFJsonProtocol) (p : SFJsonPacket ν) :
    Option (SFJsonProtocol × SFJsonPacket ν × Bool) :=
  if t.builder.getUsedBufferSize < headerSize then some (t, p, false)
  else (t.builder.getBuffer headerSize).bind fun bs =>
    let header := SFPacketHeader.ofBytes bs
    let p := { p with header, packetID := header.packetID }
    let dataSize := header.dataSize.toNat
    if dataSize > unsignedSub t.packetSize.toNat headerSize then some (t, p, false)
    else if t.builder.getUsedBufferSize < dataSize + headerSize then some (t, p, false)
    else ((t.builder.incReadOffset headerSize).popCompleteNode json p.node dataSize).map
      fun (builder, node, ok) => ({ t with builder }, { p with node }, ok)

def getPacket (t : SFJsonProtocol) : Option (SFJsonProtocol × Int × Option (SFJsonPacket ν)) :=
  (getCompleteNode json t { node := json.empty }).map fun (t, p, ok) =>
    (t, packetIOErrorNone, if ok then some p else none)

/-- The node goes to `m_pBuffer` behind the header, whose last two bytes are its length. -/
def encode (t : SFJsonProtocol) (p : SFJsonPacket ν) :
    Option (SFJsonProtocol × SFJsonPacket ν × Bool × List UInt8) :=
  (write? t.buffer 0 (List.replicate t.packetSize.toNat 0)).bind fun buffer =>
  (write? buffer 0 p.header.bytes).bind fun buffer =>
  let content := JsonBuilder.makeBuffer json p.node (unsignedSub t.packetSize.toNat headerSize)
  (write? buffer headerSize content).bind fun buffer =>
  (write? buffer 10 (leBytes 2 content.length)).bind fun buffer =>
  (read? buffer 0 (headerSize + content.length)).map fun bytes => ({ t with buffer }, p, true, bytes)

def analyzer : Analyzer SFJsonProtocol Unit (SFJsonPacket ν) where
  initProtocol := initProtocol
  base := toSFBasePacketProtocol
  setBase := fun t base => { t with toSFBasePacketProtocol := base }
  addTransferredData := addTransferredData
  getPacket := fun _ t _ => (getPacket json t).map fun (t, errorCode, p) => ((), t, errorCode, p)
  encode := encode json
  pending := fun t => t.builder.getUsedBufferSize
  basePacket := SFJsonPacket.toBasePacket
  setBasePacket := fun p base => { p with toBasePacket := base }

end SFJsonProtocol

end Cgsf.Engine
