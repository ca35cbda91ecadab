import Cgsf.Engine.PacketIOBuffer

namespace Cgsf.Engine

def packetDefaultIOSize : Int := 8192
def packetDefaultPacketSize : UInt16 := 4096

structure SFBasePacketProtocol where
  ioSize : Int
  packetSize : UInt16
  packetOption : UInt32
  deriving DecidableEq, Repr

structure SFObjectPool (π : Type) where
  queue : List π
  deriving DecidableEq, Repr

namespace SFObjectPool

variable {π : Type}

/-- An empty pool makes a new object. -/
def alloc (pool : SFObjectPool π) (new : π) : π × SFObjectPool π :=
  match pool.queue with
  | [] => (new, pool)
  | p :: queue => (p, ⟨queue⟩)

def release (pool : SFObjectPool π) (p : π) : SFObjectPool π := ⟨pool.queue ++ [p]⟩

end SFObjectPool

/-- What `SFPacketProtocol<T>` asks of `T`. An analyzer has its own state `σ`, reaches shared state
`ω` such as a packet pool, and makes packets `π`; `pending` bounds the packets it can still make of
what it holds. -/
structure Analyzer (σ ω π : Type) where
  initProtocol : Int → UInt16 → UInt32 → Option σ
  base : σ → SFBasePacketProtocol
  setBase : σ → SFBasePacketProtocol → σ
  addTransferredData : σ → List UInt8 → Option (σ × Bool)
  getPacket : ω → σ → Int → Option (ω × σ × Int × Option π)
  encode : σ → π → Option (σ × π × Bool × List UInt8)
  pending : σ → Nat
  basePacket : π → BasePacket
  setBasePacket : π → BasePacket → π

namespace Analyzer

variable {σ ω π : Type} (T : Analyzer σ ω π)

def copyBaseProtocol (t source : σ) : σ := T.setBase t (T.base source)

end Analyzer

/-- What one call of `OnReceive` leaves behind: the state, the packets given to the logic layer and
the return value. -/
structure Received (σ ω π : Type) where
  analyzer : σ
  shared : ω
  sent : List π
  ok : Bool

namespace SFPacketProtocol

variable {σ ω π : Type} (T : Analyzer σ ω π)

def clampSizes (bufferIOSize : Int) (packetDataSize : UInt16) : Int × UInt16 :=
  let bufferIOSize := if bufferIOSize > maxIOSize then (maxIOSize : Int) else bufferIOSize
  let packetDataSize := if packetDataSize.toNat > maxPacketSize then 8192 else packetDataSize
  if (packetDataSize.toNat : Int) > bufferIOSize then
    (bufferIOSize, .ofNat (bufferIOSize % 65536).toNat)
  else (bufferIOSize, packetDataSize)

def construct (bufferIOSize : Int) (packetDataSize : UInt16) (packetOption : UInt32) : Option σ :=
  let sizes := clampSizes bufferIOSize packetDataSize
  T.initProtocol sizes.1 sizes.2 packetOption

def constructDefault : Option σ := T.initProtocol packetDefaultIOSize packetDefaultPacketSize 0

def clone (t : σ) : Option σ := do
  let new ← constructDefault T
  return T.copyBaseProtocol new t

def tagPacket (serial : Int) (desc : SessionDesc) (p : π) : π :=
  let base := T.basePacket p
  T.setBasePacket p { base with
    packetType := if base.packetID = sfpacketRPCPacket then .rpc else .data
    serial
    sessionDesc := desc }

/-- The `do ... while (true)` loop of `OnReceive`. -/
def receiveLoop (serial : Int) (desc : SessionDesc) :
    Nat → ω → σ → Int → Option (Received σ ω π × Int)
  | 0, _, _, _ => none
  | fuel + 1, w, t, iErrorCode => do
      let (w, t, iErrorCode, found) ← T.getPacket w t iErrorCode
      match found with
      | none => return (⟨t, w, [], true⟩, iErrorCode)
      | some p =>
          let (r, iErrorCode) ← receiveLoop serial desc fuel w t iErrorCode
          return ({ r with sent := tagPacket T serial desc p :: r.sent }, iErrorCode)

def onReceive (serial : Int) (desc : SessionDesc) (w : ω) (t : σ) (data : List UInt8) :
    Option (Received σ ω π) := do
  let (t, bRet) ← T.addTransferredData t data
  if !bRet then return ⟨t, w, [], false⟩
  else
    let (r, iErrorCode) ← receiveLoop T serial desc (T.pending t + 1) w t packetIOErrorNone
    return { r with ok := iErrorCode == packetIOErrorNone }

/-- The chunks of one connection, up to the first that `OnReceive` refuses. -/
def receiveAll (serial : Int) (desc : SessionDesc) :
    ω → σ → List (List UInt8) → Option (Received σ ω π)
  | w, t, [] => some ⟨t, w, [], true⟩
  | w, t, chunk :: chunks => do
      let now ← onReceive T serial desc w t chunk
      if now.ok then
        let later ← receiveAll serial desc now.shared now.analyzer chunks
        return { later with sent := now.sent ++ later.sent }
      else return now

end SFPacketProtocol

structure SFCGSFPacketProtocol extends SFBasePacketProtocol where
  packetIOBuffer : SFIOBuffer
  deriving DecidableEq, Repr

namespace SFCGSFPacketProtocol

abbrev PacketPool := SFObjectPool SFPacket

def initProtocol (ioBufferSize : Int) (packetSize : UInt16) (packetOption : UInt32) :
    SFCGSFPacketProtocol where
  ioSize := ioBufferSize
  packetSize
  packetOption
  packetIOBuffer := (SFIOBuffer.empty.allocIOBuf ioBufferSize).1

def getPacket (pool : PacketPool) (t : SFCGSFPacketProtocol) :
    Option (PacketPool × SFCGSFPacketProtocol × Int × Option SFPacket) := do
  let (p, pool) := pool.alloc {}
  let p := p.initPacket
  let r ← SFPacketIOBuffer.getPacket t.packetIOBuffer p.header SFPacket.dataCapacity t.packetSize
  let p := { p with header := r.header, data := r.data }
  let t := { t with packetIOBuffer := r.ring }
  if r.found then return (pool, t, r.errorCode, some p)
  else return (pool.release p, t, r.errorCode, none)

def addTransferredData (t : SFCGSFPacketProtocol) (data : List UInt8) :
    Option (SFCGSFPacketProtocol × Bool) := do
  let (ring, _) ← t.packetIOBuffer.appendData data
  return ({ t with packetIOBuffer := ring }, true)

def encode (codec : Codec) (t : SFCGSFPacketProtocol) (p : SFPacket) :
    Option (SFCGSFPacketProtocol × SFPacket × Bool × List UInt8) := do
  let (p, ok) ← p.encode codec t.packetSize t.packetOption
  if !ok then return (t, p, false, [])
  else
    let wire ← p.wire
    return (t, p, true, wire)

def analyzer (codec : Codec) : Analyzer SFCGSFPacketProtocol PacketPool SFPacket where
  initProtocol := fun ioSize packetSize option => some (initProtocol ioSize packetSize option)
  base := toSFBasePacketProtocol
  setBase := fun t base => { t with toSFBasePacketProtocol := base }
  addTransferredData := addTransferredData
  getPacket := fun pool t _ => getPacket pool t
  encode := encode codec
  pending := fun t => t.packetIOBuffer.iUsedBufferSize
  basePacket := SFPacket.toBasePacket
  setBasePacket := fun p base => { p with toBasePacket := base }

end SFCGSFPacketProtocol

end Cgsf.Engine
