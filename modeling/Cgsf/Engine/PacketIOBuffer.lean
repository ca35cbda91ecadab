import Cgsf.Engine.Packet

namespace Cgsf.Engine

namespace SFPacketIOBuffer

/-- What `GetPacket` answers: its return value, the error code, and what it wrote to the header and
data it was given. -/
structure Answer where
  ring : SFIOBuffer
  header : SFPacketHeader
  data : List UInt8
  errorCode : Int
  found : Bool
  deriving DecidableEq, Repr

/-- The data goes to a buffer of `capacity` bytes that the caller brings. -/
def getPacket (ring : SFIOBuffer) (header : SFPacketHeader) (capacity : Nat)
    (packetSize : UInt16) : Option Answer :=
  let oldHead := ring.iHead
  if ring.iUsedBufferSize < headerSize then some ⟨ring, header, [], packetIOErrorNone, false⟩
  else do
    let (ring, bs) ← ring.getData headerSize
    let header := .ofBytes bs
    let errorCode := if bs.length ≠ headerSize then packetIOErrorHeader else packetIOErrorNone
    let ring := if bs.length ≠ headerSize then ring.setHead oldHead else ring
    let dataSize := header.dataSize.toNat
    if dataSize > unsignedSub packetSize.toNat headerSize then
      return ⟨ring.setHead oldHead, header, [], packetIOErrorData, false⟩
    else if ring.iUsedBufferSize < dataSize then
      return ⟨ring.setHead oldHead, header, [], errorCode, false⟩
    else do
      let (ring, data) ← ring.getData dataSize
      if data.length > capacity then none
      else if data.length ≠ dataSize then
        return ⟨ring.setHead oldHead, header, data, packetIOErrorData, false⟩
      else return ⟨ring, header, data, errorCode, true⟩

def getHeader (ring : SFIOBuffer) (header : SFPacketHeader) : Option Answer :=
  let oldHead := ring.iHead
  if ring.iUsedBufferSize < headerSize then some ⟨ring, header, [], packetIOErrorNone, false⟩
  else do
    let (ring, bs) ← ring.getData headerSize
    if bs.length ≠ headerSize then
      return ⟨ring.setHead oldHead, .ofBytes bs, [], packetIOErrorHeader, false⟩
    else return ⟨ring.setHead oldHead, .ofBytes bs, [], packetIOErrorNone, true⟩

end SFPacketIOBuffer

end Cgsf.Engine
