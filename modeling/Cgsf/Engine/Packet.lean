import Mathlib.Data.UInt
import Mathlib.Logic.Function.Iterate
import Cgsf.Engine.IOBuffer
import Cgsf.Library.Words

namespace Cgsf.Engine
open Library

inductive PacketType where
  | none | connect | data | rpc | timer | shouter | disconnect | db | serverShutdown | authenticate
  deriving DecidableEq, Repr

structure SessionDesc where
  sessionType : Int := -1
  identifier : Int := -1
  szIP : List UInt8 := []
  port : UInt16 := 0
  pSession : Option Nat := none
  deriving DecidableEq, Repr

structure BasePacket where
  serial : Int := -1
  sessionDesc : SessionDesc := {}
  packetType : PacketType := .none
  packetID : UInt16 := 65535
  deriving DecidableEq, Repr

structure SFPacketHeader where
  packetID : UInt16 := 0
  packetOption : UInt32 := 0
  dataCRC : UInt32 := 0
  dataSize : UInt16 := 0
  deriving DecidableEq, Repr

def packetOptionDataCRC : UInt32 := 1
def packetOptionCompress : UInt32 := 2
def packetOptionEncryption : UInt32 := 4

def headerSize : Nat := 12
def packetCompressLimit : Nat := 1024
def sfpacketRPCPacket : UInt16 := 60000

def packetIOErrorNone : Int := 0
def packetIOErrorHeader : Int := -1
def packetIOErrorData : Int := -2
def packetIOErrorDataCRC : Int := -3
def packetIOErrorDataCompress : Int := -4

namespace SFPacketHeader

def checkDataCRC (h : SFPacketHeader) : Bool := h.packetOption &&& packetOptionDataCRC != 0
def checkEncryption (h : SFPacketHeader) : Bool := h.packetOption &&& packetOptionEncryption != 0
def checkCompressed (h : SFPacketHeader) : Bool := h.packetOption &&& packetOptionCompress != 0

/-- The packed memory image that is sent in front of the data. -/
def bytes (h : SFPacketHeader) : List UInt8 :=
  leBytes 2 h.packetID.toNat ++ leBytes 4 h.packetOption.toNat ++ leBytes 4 h.dataCRC.toNat ++
    leBytes 2 h.dataSize.toNat

def ofBytes (bs : List UInt8) : SFPacketHeader where
  packetID := .ofNat (leValue (bs.take 2))
  packetOption := .ofNat (leValue ((bs.drop 2).take 4))
  dataCRC := .ofNat (leValue ((bs.drop 6).take 4))
  dataSize := .ofNat (leValue ((bs.drop 10).take 2))

end SFPacketHeader

/-- `a - b` in unsigned arithmetic: below zero it wraps around. -/
def unsignedSub (a b : Nat) : Nat := if b ≤ a then a - b else 2 ^ 32 + a - b

/-- `data` is `m_pPacketBuffer` behind the header, up to the last byte written since it was
cleared; what follows it is zero. -/
structure SFPacket extends BasePacket where
  header : SFPacketHeader := {}
  data : List UInt8 := []
  usCurrentReadPosition : Nat := headerSize
  encoded : Bool := false
  deriving DecidableEq, Repr

/-- The compression and checksum libraries. A compressor that returns 0 answers `[]` here. -/
structure Codec where
  crc32 : List UInt8 → UInt32
  lzfCompress : List UInt8 → Nat → List UInt8
  lzfDecompress : List UInt8 → Nat → List UInt8

/-- What the header of the compression library promises about what it writes. -/
structure Codec.Correct (codec : Codec) : Prop where
  bounded : ∀ src size, (codec.lzfCompress src size).length ≤ size
  restores : ∀ src size size', codec.lzfCompress src size ≠ [] → src.length ≤ size' →
    codec.lzfDecompress (codec.lzfCompress src size) size' = src
  refuses : ∀ src size size', codec.lzfCompress src size ≠ [] → size' < src.length →
    codec.lzfDecompress (codec.lzfCompress src size) size' = []

namespace ZLib

def crc32Bit (crc : UInt32) : UInt32 :=
  if crc &&& 1 = 1 then (crc >>> 1) ^^^ 0xEDB88320 else crc >>> 1

def crc32Byte (crc : UInt32) (b : UInt8) : UInt32 :=
  crc32Bit^[8] (crc ^^^ b.toUInt32)

def crc32 (bs : List UInt8) : UInt32 := ~~~(bs.foldl crc32Byte 0xFFFFFFFF)

end ZLib

/-- zlib's checksum, next to a compressor that never succeeds. -/
def Codec.checksumOnly : Codec := ⟨ZLib.crc32, fun _ _ => [], fun _ _ => []⟩

namespace SFPacket

def dataCapacity : Nat := maxPacketSize - headerSize

def getDataSize (p : SFPacket) : Nat := p.header.dataSize.toNat
def getPacketSize (p : SFPacket) : Nat := headerSize + p.getDataSize

def setDataSize (p : SFPacket) (size : Nat) : SFPacket :=
  { p with header := { p.header with dataSize := .ofNat size } }

def setPacketID (p : SFPacket) (packetID : UInt16) : SFPacket :=
  { p with packetID, header := { p.header with packetID } }

def initPacket (p : SFPacket) : SFPacket :=
  { p with header := {}, data := [], usCurrentReadPosition := headerSize, encoded := false }

/-- The `n` bytes at `GetData()`; `none` where they reach past the packet buffer. -/
def getData (p : SFPacket) (n : Nat) : Option (List UInt8) :=
  if n ≤ dataCapacity then some (p.data.take n ++ List.replicate (n - p.data.length) 0) else none

/-- A copy to `GetData() + offset`. -/
def putData (p : SFPacket) (offset : Nat) (bs : List UInt8) : Option SFPacket :=
  if offset + bs.length ≤ dataCapacity then
    let padded := p.data ++ List.replicate (offset - p.data.length) 0
    some { p with data := splice padded offset bs }
  else none

/-- The bytes that leave for the network: the header and as much data as it announces. -/
def wire (p : SFPacket) : Option (List UInt8) :=
  (p.getData p.getDataSize).map fun data => p.header.bytes ++ data

def write (p : SFPacket) (bs : List UInt8) : Option SFPacket :=
  if p.getPacketSize + bs.length > maxPacketSize then some p
  else do
    let p' ← p.putData p.getDataSize bs
    return p'.setDataSize (p.getDataSize + bs.length)

end SFPacket

namespace SFEncryptionXOR

def encryptionKey : Nat := 0xAFB7E3D9

/-- Whole little-endian words are xored with the key; the last `length % 4` bytes stay. -/
def encrypt : List UInt8 → List UInt8
  | a :: b :: c :: d :: rest =>
      leBytes 4 (leValue [a, b, c, d] ^^^ encryptionKey) ++ encrypt rest
  | rest => rest

def decrypt : List UInt8 → List UInt8
  | a :: b :: c :: d :: rest =>
      leBytes 4 (leValue [a, b, c, d] ^^^ encryptionKey) ++ decrypt rest
  | rest => rest

end SFEncryptionXOR

namespace SFPacket

variable (codec : Codec)

def compressData (p : SFPacket) (packetSize : UInt16) : Option (SFPacket × Bool) :=
  (p.getData p.getDataSize).bind fun src =>
    let dest := codec.lzfCompress src (unsignedSub packetSize.toNat headerSize)
    -- The compressor writes to a local buffer of `MAX_PACKET_SIZE` bytes, whatever size it is told.
    if dest.length > maxPacketSize then none
    else if dest.length = 0 then some (p, false)
    else (p.putData 0 dest).map fun p => (p.setDataSize dest.length, true)

def encryptData (p : SFPacket) (packetOption : UInt32) : Option SFPacket :=
  if packetOption &&& packetOptionEncryption != 0 then
    (p.getData p.getDataSize).bind fun src => p.putData 0 (SFEncryptionXOR.encrypt src)
  else some p

def stampHeader (p : SFPacket) (packetOption : UInt32) : Option SFPacket :=
  (p.getData p.getDataSize).map fun data =>
    { p with
      header := { p.header with
        dataCRC :=
          if packetOption &&& packetOptionDataCRC != 0 then codec.crc32 data else p.header.dataCRC
        packetOption }
      encoded := true }

def encode (p : SFPacket) (packetSize : UInt16) (packetOption : UInt32) :
    Option (SFPacket × Bool) :=
  let finish (p : SFPacket) (packetOption : UInt32) : Option (SFPacket × Bool) :=
    ((p.encryptData packetOption).bind (stampHeader codec · packetOption)).map (·, true)
  if p.encoded then some (p, true)
  else if p.getDataSize > dataCapacity then some (p, false)
  else if p.getDataSize = 0 then some (p, true)
  else if packetOption &&& packetOptionCompress != 0 ∧ p.getDataSize ≥ packetCompressLimit then
    (p.compressData codec packetSize).bind fun (p, ok) =>
      if ok then finish p packetOption else some (p, false)
  else finish p (packetOption &&& ~~~packetOptionCompress)

def checkDataCRC (p : SFPacket) : Option Bool :=
  (p.getData p.getDataSize).map fun data => codec.crc32 data == p.header.dataCRC

def decryptData (p : SFPacket) : Option SFPacket :=
  if p.header.checkEncryption then
    (p.getData p.getDataSize).bind fun src => p.putData 0 (SFEncryptionXOR.decrypt src)
  else some p

def uncompressData (p : SFPacket) (packetSize : UInt16) : Option (SFPacket × Bool) :=
  if p.header.checkCompressed then
    (p.getData p.getDataSize).bind fun src =>
      let dest := codec.lzfDecompress src packetSize.toNat
      ({ p with data := [] }.putData 0 dest).map fun p =>
        if dest.length = 0 then (p, false)
        else if dest.length + headerSize > packetSize.toNat then (p, false)
        else (p.setDataSize dest.length, true)
  else some (p, true)

def decode (p : SFPacket) (packetSize : UInt16) (errorCode : Int) :
    Option (SFPacket × Int × Bool) :=
  (if p.header.checkDataCRC then p.checkDataCRC codec else some true).bind fun intact =>
    if !intact then some (p, packetIOErrorDataCRC, false)
    else
      p.decryptData.bind fun p =>
        (p.uncompressData codec packetSize).map fun (p, ok) =>
          if ok then ({ p with packetID := p.header.packetID }, errorCode, true)
          else (p, packetIOErrorDataCompress, false)

end SFPacket

end Cgsf.Engine
