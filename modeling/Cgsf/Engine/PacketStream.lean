import Mathlib.Data.Int.Basic
import Mathlib.Data.List.TakeWhile
import Cgsf.Engine.Lzf
import Cgsf.Engine.Packet
import Cgsf.Engine.Protocol

/-!
# The typed stream of a packet

`operator<<` and `operator>>` of a packet, one for each type, and the raw `Write` and `Read`. An
operator that is refused leaves the packet, or the variable it was given, as it was; what would
touch memory behind the packet buffer answers `none`.
-/

namespace Cgsf.Engine
open Library

/-- The text of a `char *`, up to its terminator. -/
structure CString where
  bytes : List UInt8
  noTerminator : 0 ∉ bytes
  deriving DecidableEq, Repr

/-- A value that an operator takes, or a variable that it fills. A float is its image in memory, a
block the buffer given to `Write` or `Read`. -/
inductive StreamValue where
  | byte (data : UInt8)
  | char (data : Int8)
  | short (data : Int16)
  | ushort (data : UInt16)
  | int (data : Int32)
  | dword (data : UInt32)
  | float (data : UInt32)
  | string (szStr : CString)
  | block (buffer : List UInt8)
  deriving DecidableEq, Repr

/-- Which operator a value goes to; a block brings its size. -/
inductive StreamType where
  | byte | char | short | ushort | int | dword | float | string
  | block (bufferSize : Nat)
  deriving DecidableEq, Repr

namespace StreamValue

def type : StreamValue → StreamType
  | byte _ => .byte
  | char _ => .char
  | short _ => .short
  | ushort _ => .ushort
  | int _ => .int
  | dword _ => .dword
  | float _ => .float
  | string _ => .string
  | block buffer => .block buffer.length

end StreamValue

namespace SFPacket

/-- The whole of `m_pPacketBuffer`. -/
def packetBuffer (p : SFPacket) : List UInt8 :=
  p.header.bytes ++ p.data ++ List.replicate (dataCapacity - p.data.length) 0

def readStart (p : SFPacket) : SFPacket := { p with usCurrentReadPosition := headerSize }

/-- The operators for the types of a fixed size copy the value as `Write` copies a block. -/
def putByte (p : SFPacket) (data : UInt8) : Option SFPacket := p.write (leBytes 1 data.toNat)
def putChar (p : SFPacket) (data : Int8) : Option SFPacket :=
  p.write (leBytes 1 data.toUInt8.toNat)
def putShort (p : SFPacket) (data : Int16) : Option SFPacket :=
  p.write (leBytes 2 data.toUInt16.toNat)
def putUshort (p : SFPacket) (data : UInt16) : Option SFPacket := p.write (leBytes 2 data.toNat)
def putInt (p : SFPacket) (data : Int32) : Option SFPacket :=
  p.write (leBytes 4 data.toUInt32.toNat)
def putDword (p : SFPacket) (data : UInt32) : Option SFPacket := p.write (leBytes 4 data.toNat)
def putFloat (p : SFPacket) (data : UInt32) : Option SFPacket := p.write (leBytes 4 data.toNat)

def putString (p : SFPacket) (szStr : CString) : Option SFPacket :=
  let len := szStr.bytes.length
  if len ≤ 0 ∨ p.getPacketSize + len + 1 > maxPacketSize then some p
  else do
    let p' ← p.putData p.getDataSize szStr.bytes
    let p' := p'.setDataSize (p.getDataSize + len)
    let p'' ← p'.putData p'.getDataSize [0]
    return p''.setDataSize (p'.getDataSize + 1)

def put (p : SFPacket) : StreamValue → Option SFPacket
  | .byte data => p.putByte data
  | .char data => p.putChar data
  | .short data => p.putShort data
  | .ushort data => p.putUshort data
  | .int data => p.putInt data
  | .dword data => p.putDword data
  | .float data => p.putFloat data
  | .string szStr => p.putString szStr
  | .block buffer => p.write buffer

def putAll (p : SFPacket) (values : List StreamValue) : Option SFPacket := values.foldlM put p

/-- `Read` into a variable that holds `buffer`. -/
def read (p : SFPacket) (buffer : List UInt8) (bufferSize : Nat) :
    Option (SFPacket × List UInt8) :=
  if p.usCurrentReadPosition + bufferSize > maxPacketSize then some (p, buffer)
  else do
    let bytes ← read? p.packetBuffer p.usCurrentReadPosition bufferSize
    return ({ p with usCurrentReadPosition := p.usCurrentReadPosition + bufferSize }, bytes)

/-- The operators for the types of a fixed size: `image` is what the variable held. -/
def getWord (p : SFPacket) (width image : Nat) : Option (SFPacket × Nat) :=
  (p.read (leBytes width image) width).map fun (p, bytes) => (p, leValue bytes)

def getByte (p : SFPacket) (data : UInt8) : Option (SFPacket × UInt8) :=
  (p.getWord 1 data.toNat).map fun (p, n) => (p, .ofNat n)
def getChar (p : SFPacket) (data : Int8) : Option (SFPacket × Int8) :=
  (p.getWord 1 data.toUInt8.toNat).map fun (p, n) => (p, (UInt8.ofNat n).toInt8)
def getShort (p : SFPacket) (data : Int16) : Option (SFPacket × Int16) :=
  (p.getWord 2 data.toUInt16.toNat).map fun (p, n) => (p, (UInt16.ofNat n).toInt16)
def getUshort (p : SFPacket) (data : UInt16) : Option (SFPacket × UInt16) :=
  (p.getWord 2 data.toNat).map fun (p, n) => (p, .ofNat n)
def getInt (p : SFPacket) (data : Int32) : Option (SFPacket × Int32) :=
  (p.getWord 4 data.toUInt32.toNat).map fun (p, n) => (p, (UInt32.ofNat n).toInt32)
def getDword (p : SFPacket) (data : UInt32) : Option (SFPacket × UInt32) :=
  (p.getWord 4 data.toNat).map fun (p, n) => (p, .ofNat n)
def getFloat (p : SFPacket) (data : UInt32) : Option (SFPacket × UInt32) :=
  (p.getWord 4 data.toNat).map fun (p, n) => (p, .ofNat n)

/-- `strlen` reads on past the packet buffer where no terminator is left in it. -/
def getString (p : SFPacket) (szStr : CString) : Option (SFPacket × CString) :=
  let text := p.packetBuffer.drop p.usCurrentReadPosition
  let strLen := (text.takeWhile (· ≠ 0)).length
  if strLen = text.length then none
  else if p.usCurrentReadPosition + strLen + 1 > maxPacketSize then some (p, szStr)
  else
    some ({ p with usCurrentReadPosition := p.usCurrentReadPosition + (strLen + 1) },
      ⟨text.takeWhile (· ≠ 0), fun terminator => by
        simpa using List.mem_takeWhile_imp terminator⟩)

def get (p : SFPacket) : StreamValue → Option (SFPacket × StreamValue)
  | .byte data => (p.getByte data).map fun (p, data) => (p, .byte data)
  | .char data => (p.getChar data).map fun (p, data) => (p, .char data)
  | .short data => (p.getShort data).map fun (p, data) => (p, .short data)
  | .ushort data => (p.getUshort data).map fun (p, data) => (p, .ushort data)
  | .int data => (p.getInt data).map fun (p, data) => (p, .int data)
  | .dword data => (p.getDword data).map fun (p, data) => (p, .dword data)
  | .float data => (p.getFloat data).map fun (p, data) => (p, .float data)
  | .string szStr => (p.getString szStr).map fun (p, szStr) => (p, .string szStr)
  | .block buffer => (p.read buffer buffer.length).map fun (p, buffer) => (p, .block buffer)

/-- The variables are filled one after another. -/
def getAll (p : SFPacket) : List StreamValue → Option (SFPacket × List StreamValue)
  | [] => some (p, [])
  | target :: targets => do
      let (p, value) ← p.get target
      let (p, values) ← p.getAll targets
      return (p, value :: values)

end SFPacket

end Cgsf.Engine

/-!
# Reading a packet that was received

`operator>>` and `Read`, with any size, and the bytes of the packet buffer that they look at.
-/

namespace Cgsf.Engine
open Library

/-- An operator and the variable that it fills, or `Read` and its two arguments. -/
inductive ReadCall where
  | operator (target : StreamValue)
  | read (pBuffer : List UInt8) (bufferSize : Int32)
  deriving DecidableEq, Repr

/-- How much an operator takes; for a string the packet tells. -/
def StreamValue.size : StreamValue → Option Nat
  | .byte _ | .char _ => some 1
  | .short _ | .ushort _ => some 2
  | .int _ | .dword _ | .float _ => some 4
  | .string _ => none
  | .block buffer => some buffer.length

/-- The conversion of an `int` to `size_t`. -/
def sizeT (n : Int32) : Nat := (n.toInt % 2 ^ 64).toNat

namespace SFPacket

/-- The test that `Read` makes, in `int` arithmetic. -/
def refuses (p : SFPacket) (bufferSize : Int32) : Bool :=
  Int32.ofNat p.usCurrentReadPosition + bufferSize > Int32.ofNat maxPacketSize

def readSized (p : SFPacket) (pBuffer : List UInt8) (bufferSize : Int32) :
    Option (SFPacket × List UInt8) :=
  if p.refuses bufferSize = true then some (p, pBuffer)
  else do
    let size := sizeT bufferSize
    let bytes ← read? p.packetBuffer p.usCurrentReadPosition size
    let usCurrentReadPosition := (p.usCurrentReadPosition + size) % 65536
    return ({ p with usCurrentReadPosition }, bytes ++ pBuffer.drop size)

def perform (p : SFPacket) : ReadCall → Option (SFPacket × ReadCall)
  | .operator target => (p.get target).map fun (p, value) => (p, .operator value)
  | .read pBuffer bufferSize =>
      (p.readSized pBuffer bufferSize).map fun (p, pBuffer) => (p, .read pBuffer bufferSize)

/-- The bytes up to the terminator that is searched for; without one in the packet buffer the first
byte behind the buffer is looked at as well. -/
def stringReads (p : SFPacket) : Nat :=
  ((p.packetBuffer.drop p.usCurrentReadPosition).takeWhile (· ≠ 0)).length + 1

/-- How many bytes a call looks at, from the read position on. -/
def reads (p : SFPacket) : ReadCall → Nat
  | .operator target =>
      match target.size with
      | none => p.stringReads
      | some size => if p.usCurrentReadPosition + size > maxPacketSize then 0 else size
  | .read _ bufferSize => if p.refuses bufferSize = true then 0 else sizeT bufferSize

/-- What the call asks for is in the data of the packet. -/
def Fits (p : SFPacket) : ReadCall → Prop
  | .operator target =>
      match target.size with
      | none => 0 ∈ (p.packetBuffer.take p.getPacketSize).drop p.usCurrentReadPosition
      | some size => p.usCurrentReadPosition + size ≤ p.getPacketSize
  | .read _ bufferSize =>
      0 ≤ bufferSize.toInt ∧ p.usCurrentReadPosition + bufferSize.toInt ≤ p.getPacketSize

/-- What the call asks for is more than the packet buffer has, and does not overflow an `int`. -/
def Exceeds (p : SFPacket) : ReadCall → Prop
  | .operator target =>
      match target.size with
      | none => False
      | some size => maxPacketSize < p.usCurrentReadPosition + size
  | .read _ bufferSize =>
      maxPacketSize < p.usCurrentReadPosition + bufferSize.toInt ∧
        p.usCurrentReadPosition + bufferSize.toInt < 2 ^ 31

/-- No byte behind the data is looked at, and where there is too little data nothing happens. -/
structure Safe (p : SFPacket) (call : ReadCall) : Prop where
  inside : p.reads call ≠ 0 → p.usCurrentReadPosition + p.reads call ≤ p.getPacketSize
  unchanged : ¬p.Fits call → p.perform call = some (p, call)

instance (p : SFPacket) (call : ReadCall) : Decidable (p.Fits call) :=
  match call with
  | .operator target =>
      match is : target.size with
      | none => decidable_of_iff
          (0 ∈ (p.packetBuffer.take p.getPacketSize).drop p.usCurrentReadPosition)
          (by rw [Fits, is])
      | some size => decidable_of_iff (p.usCurrentReadPosition + size ≤ p.getPacketSize)
          (by rw [Fits, is])
  | .read _ _ => inferInstanceAs (Decidable (_ ∧ _))

instance (p : SFPacket) (call : ReadCall) : Decidable (p.Exceeds call) :=
  match call with
  | .operator target =>
      match is : target.size with
      | none => .isFalse (by rw [Exceeds, is]; exact id)
      | some size => decidable_of_iff (maxPacketSize < p.usCurrentReadPosition + size)
          (by rw [Exceeds, is])
  | .read _ _ => inferInstanceAs (Decidable (_ ∧ _))

/-- The data that the packet has is enough, or not even its buffer would be. -/
def Decided (p : SFPacket) (call : ReadCall) : Prop := p.Fits call ∨ p.Exceeds call

instance (p : SFPacket) (call : ReadCall) : Decidable (p.Decided call) :=
  inferInstanceAs (Decidable (_ ∨ _))

def Reading (p : SFPacket) (call : ReadCall) (p' : SFPacket) : Prop :=
  ∃ result, p.perform call = some (p', result)

/-- What the receiving side hands over: a packet from `GetPacket`, decoded or not. -/
inductive FromNetwork (codec : Codec) : SFPacket → Prop where
  | taken {pool pool' : SFCGSFPacketProtocol.PacketPool} {t t' : SFCGSFPacketProtocol} {error : Int}
      {p : SFPacket}
      (got : SFCGSFPacketProtocol.getPacket pool t = some (pool', t', error, some p)) :
      FromNetwork codec p
  | decoded {p q : SFPacket} {packetSize : UInt16} {error errorCode : Int}
      (before : FromNetwork codec p)
      (run : p.decodeInPlace codec packetSize error = some (q, errorCode, true)) :
      FromNetwork codec q

end SFPacket

end Cgsf.Engine
