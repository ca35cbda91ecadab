import Cgsf.Engine.BufferProtocols
import Cgsf.Library.Reassembly

/-!
# The packet objects of the HTTP protocol

`GetPacket` again, with the `SFHTTPPacket`s that it makes and those that it disposes of.
-/

namespace Cgsf.Engine
open Library

/-- The parser follows requests: a new one takes as much of the bytes it is fed as belongs to the
first request, and is complete where that ends. -/
structure HTTPParser.Follows {ρ : Type} (parser : HTTPParser ρ) (Request : List UInt8 → Prop)
    (message : ρ → List UInt8) : Prop where
  fresh : parser.complete parser.empty = false
  whole : ∀ request rest, Request request → ∃ r,
    parser.feed parser.empty (request ++ rest) = some (r, request.length) ∧
      parser.complete r = true ∧ message r = request
  part : ∀ request data rest, Request request → request = data ++ rest → data ≠ [] → rest ≠ [] →
    ∃ r, parser.feed parser.empty data = some (r, data.length) ∧ parser.complete r = false

/-- How many `SFHTTPPacket`s were made by `new`, and how many deleted by `DisposePacket`. -/
structure HTTPPackets where
  made : Nat := 0
  disposed : Nat := 0
  deriving DecidableEq, Repr

namespace SFHTTPProtocol

variable {ρ : Type} (parser : HTTPParser ρ)

def createPacket (packets : HTTPPackets) : HTTPPackets := { packets with made := packets.made + 1 }

def disposePacket (packets : HTTPPackets) : HTTPPackets :=
  { packets with disposed := packets.disposed + 1 }

def makePacket (packets : HTTPPackets) (t : SFHTTPProtocol) :
    Option (HTTPPackets × SFHTTPProtocol × Int × Option (SFHTTPPacket ρ)) :=
  let packets := createPacket packets
  if t.iOBuffer.iUsedBufferSize = 0 then some (packets, t, packetIOErrorNone, none)
  else (t.iOBuffer.getData recvDataSize).bind fun (ring, recvData) =>
    let drained := { t with iOBuffer := ring }
    if recvData.length = 0 then some (packets, drained, packetIOErrorData, none)
    else match feedLoop parser recvData recvData.length parser.empty recvData.length with
      | none => some (packets, drained, packetIOErrorData, none)
      | some (request, size) =>
          if parser.complete request = false then
            (ring.appendData recvData).map fun (ring, _) =>
              (disposePacket packets, { t with iOBuffer := ring }, packetIOErrorNone, none)
          else if size > 0 then
            (ring.appendData (recvData.drop (recvData.length - size))).map fun (ring, _) =>
              (packets, { t with iOBuffer := ring }, packetIOErrorNone, some { request })
          else some (packets, drained, packetIOErrorNone, some { request })

def packetAnalyzer : Analyzer SFHTTPProtocol HTTPPackets (SFHTTPPacket ρ) where
  initProtocol := fun ioSize packetSize option => some (initProtocol ioSize packetSize option)
  base := toSFBasePacketProtocol
  setBase := fun t base => { t with toSFBasePacketProtocol := base }
  addTransferredData := addTransferredData
  getPacket := fun packets t _ => makePacket parser packets t
  encode := fun t p => some (encode parser t p)
  pending := fun t => t.iOBuffer.iUsedBufferSize
  basePacket := SFHTTPPacket.toBasePacket
  setBasePacket := fun p base => { p with toBasePacket := base }

end SFHTTPProtocol

/-- Behind every chunk a part of a request is left. -/
def EndsInside {α : Type*} (sizes : List Nat) : Nat → List (List α) → Prop
  | _, [] => True
  | received, chunk :: chunks => unfinished sizes (received + chunk.length) ≠ 0 ∧
      EndsInside sizes (received + chunk.length) chunks

instance decidableEndsInside {α : Type*} (sizes : List Nat) :
    (received : Nat) → (chunks : List (List α)) → Decidable (EndsInside sizes received chunks)
  | _, [] => isTrue trivial
  | received, chunk :: chunks =>
      have := decidableEndsInside sizes (received + chunk.length) chunks
      inferInstanceAs (Decidable (_ ∧ _))

end Cgsf.Engine
