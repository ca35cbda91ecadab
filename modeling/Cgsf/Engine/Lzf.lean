import Cgsf.Engine.Packet

/-!
# Decompressing in place

`lzf_decompress` as it writes to its destination, and `Decode` with it: whatever the decompressor
wrote stays there, also where it gives up.
-/

namespace Cgsf.Engine
open Library

namespace SFCompressLzf

/-- What `lzf_decompress` wrote to its destination, and its return value. -/
structure Decompressed where
  written : List UInt8
  size : Nat
  deriving DecidableEq, Repr

/-- `*op++ = *ref++` as often as `len` says. -/
def copyBack (distance : Nat) : Nat → List UInt8 → List UInt8
  | 0, out => out
  | len + 1, out => copyBack distance len (out ++ [out.getD (out.length - distance) 0])

/-- The rest of a back reference: its length and the last byte of its distance. -/
def readLength (len : Nat) (ip : List UInt8) : Option (Nat × UInt8 × List UInt8) :=
  match ip with
  | [] => none
  | b :: ip =>
      if len = 7 then
        match ip with
        | [] => none
        | b' :: ip => some (len + b.toNat, b', ip)
      else some (len, b, ip)

/-- The `do ... while (ip < in_end)` loop, with `ip` the input that is left and `out` what lies
before `op`. -/
def decompressLoop (outLen : Nat) : Nat → List UInt8 → List UInt8 → Decompressed
  | 0, _, out => ⟨out, 0⟩
  -- No turn starts without input but the first one, whose byte is behind the input and whose
  -- instruction is refused by the checks against `in_end`, whatever it is.
  | _ + 1, [], out => ⟨out, 0⟩
  | fuel + 1, ctrl :: ip, out =>
      let next (ip out : List UInt8) : Decompressed :=
        if ip = [] then ⟨out, out.length⟩ else decompressLoop outLen fuel ip out
      if ctrl.toNat < 1 <<< 5 then
        let ctrl := ctrl.toNat + 1
        if out.length + ctrl > outLen then ⟨out, 0⟩
        else if ctrl > ip.length then ⟨out, 0⟩
        else next (ip.drop ctrl) (out ++ ip.take ctrl)
      else
        let distance := ((ctrl.toNat &&& 0x1f) <<< 8) + 1
        match readLength (ctrl.toNat >>> 5) ip with
        | none => ⟨out, 0⟩
        | some (len, b, ip) =>
            let distance := distance + b.toNat
            if out.length + len + 2 > outLen then ⟨out, 0⟩
            else if out.length < distance then ⟨out, 0⟩
            else next ip (copyBack distance (len + 2) out)

def decompress (src : List UInt8) (outLen : Nat) : Decompressed :=
  decompressLoop outLen (src.length + 1) src []

/-- `Uncompress`: the bytes at the destination, the new `DestLen` and the answer. -/
def uncompress (src : List UInt8) (destLen : Nat) : List UInt8 × Nat × Bool :=
  let r := decompress src destLen
  (r.written, r.size, decide (r.size > 0))

end SFCompressLzf

namespace SFPacket

variable (codec : Codec)

/-- Uncompressing in `Decode`, with what the decompressor leaves behind the header. -/
def uncompressInPlace (p : SFPacket) (packetSize : UInt16) : Option (SFPacket × Bool) :=
  if p.header.checkCompressed then
    (p.getData p.getDataSize).bind fun pSrcBuf =>
      let (dest, destSize, ok) := SFCompressLzf.uncompress pSrcBuf packetSize.toNat
      ({ p with data := [] }.putData 0 dest).map fun p =>
        if !ok then (p, false)
        else if destSize + headerSize > packetSize.toNat then (p, false)
        else (p.setDataSize destSize, true)
  else some (p, true)

def decodeInPlace (p : SFPacket) (packetSize : UInt16) (errorCode : Int) :
    Option (SFPacket × Int × Bool) :=
  (if p.header.checkDataCRC then p.checkDataCRC codec else some true).bind fun intact =>
    if !intact then some (p, packetIOErrorDataCRC, false)
    else
      p.decryptData.bind fun p =>
        (p.uncompressInPlace packetSize).map fun (p, ok) =>
          if ok then ({ p with packetID := p.header.packetID }, errorCode, true)
          else (p, packetIOErrorDataCompress, false)

end SFPacket

end Cgsf.Engine
