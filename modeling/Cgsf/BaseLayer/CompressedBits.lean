import Cgsf.BaseLayer.SFBitArray
import Cgsf.Library.RunLength

/-!
# The compressed bit array

The first byte is kept for the kind of compression. Behind it a byte 0 or 0xff is followed by a word
that tells how often it comes; other bytes stand for themselves. A read or a write outside its
block and a sum that does not fit an `int` give nothing.
-/

namespace Cgsf.BaseLayer
open Library RunLength

def COMPRESS_COUNT : Nat := 65535

/-- The block at `src`, of which the first `nSrcLen` bytes count. -/
structure Packed where
  src : List BYTE := []
  nSrcLen : Nat := 0
  deriving DecidableEq, Repr

/-! ## Memory -/

def allocPtr (nSize : Nat) : List BYTE := List.replicate nSize 0

def reAllocPtr (p : List BYTE) (nSize : Nat) : List BYTE :=
  p.take nSize ++ List.replicate (nSize - p.length) 0

def readWord (p : List BYTE) (nByte : Nat) : Option Nat := do
  let low ← p[nByte]?
  let high ← p[nByte + 1]?
  return low.toNat + 256 * high.toNat

def writeByte (p : List BYTE) (nByte : Nat) (byte : BYTE) : Option (List BYTE) :=
  if nByte < p.length then some (p.set nByte byte) else none

def writeWord (p : List BYTE) (nByte word : Nat) : Option (List BYTE) :=
  if nByte + 1 < p.length then
    some ((p.set nByte (.ofNat 8 word)).set (nByte + 1) (.ofNat 8 (word / 256)))
  else none

def memmove (p : List BYTE) (des src : Nat) (size : Int) : Option (List BYTE) :=
  if 0 ≤ size ∧ des + size ≤ p.length ∧ src + size ≤ p.length then
    some (p.take des ++ (p.drop src).take size.toNat ++ p.drop (des + size.toNat))
  else none

def memset (p : List BYTE) (des : Nat) (byte : BYTE) (size : Nat) : Option (List BYTE) :=
  if des + size ≤ p.length then
    some (p.take des ++ List.replicate size byte ++ p.drop (des + size))
  else none

/-- `SetBit(p+nByte, nBit)` -/
def setBitAt (p : List BYTE) (nByte nBit : Nat) : Option (List BYTE) :=
  if nByte < p.length then some (p.take nByte ++ setBit (p.drop nByte) nBit) else none

/-- A sum that is an `int`. -/
def asInt (n : Nat) : Option Nat :=
  if n < 2 ^ 31 then some n else none

/-! ## Compress -/

/-- How often `byType` comes from `nByte` on, at most `left` times. -/
def runLength (src : List BYTE) (nSrcLen : Nat) (byType : BYTE) : Nat → Nat → Nat
  | 0, _ => 0
  | left + 1, nByte =>
      if nByte < nSrcLen ∧ src[nByte]? = some byType then
        runLength src nSrcLen byType left (nByte + 1) + 1
      else 0

/-- 1024 more bytes for `des`, if `nDesLen` comes near its end; `nLength` is the length of `des`. -/
def moreRoom (des : List BYTE) (nDesLen : Nat) : Option (List BYTE) := do
  if (← asInt (nDesLen + 5)) > des.length then (asInt (des.length + 1024)).map (reAllocPtr des)
  else some des

/-- The loop of `Compress`. -/
def compressLoop (src : List BYTE) (nSrcLen : Nat) :
    Nat → Nat → Nat → List BYTE → Option Packed
  | 0, _, _, _ => none
  | fuel + 1, nByte, nDesLen, des =>
      if nByte < nSrcLen then do
        let des ← moreRoom des nDesLen
        let byType ← src[nByte]?
        let des ← writeByte des nDesLen byType
        if byType = 0 ∨ byType = 0xff then
          let nRunLength := runLength src nSrcLen byType (COMPRESS_COUNT - 1) (nByte + 1) + 1
          let des ← writeWord des (nDesLen + 1) nRunLength
          compressLoop src nSrcLen fuel (nByte + nRunLength) (nDesLen + 3) des
        else compressLoop src nSrcLen fuel (nByte + 1) (nDesLen + 1) des
      else some ⟨des, nDesLen⟩

def compress (src : List BYTE) : Option Packed :=
  let nSrcLen := SFBitArray.trimmed src src.length
  if nSrcLen = 0 then some {}
  else (writeByte (allocPtr nSrcLen) 0 1).bind (compressLoop src nSrcLen (nSrcLen + 1) 0 1)

namespace Packed

/-! ## Decompress -/

/-- More room for `des`, if `nEnd` comes near its end; `nLength` is the length of `des`. -/
def grow (des : List BYTE) (nEnd nLength : Nat) : Option (List BYTE) := do
  if (← asInt nEnd) ≥ des.length then (asInt nLength).map (reAllocPtr des) else some des

/-- The loop of `Decompress`. -/
def decompressLoop (c : Packed) (nMaxLen : Int) : Nat → Nat → Nat → List BYTE → Option (List BYTE)
  | 0, _, _, _ => none
  | fuel + 1, nByte, nDesLen, des =>
      if nByte < c.nSrcLen ∧ (nMaxLen = -1 ∨ nDesLen < nMaxLen) then do
        let byType ← c.src[nByte]?
        if byType = 0 ∨ byType = 0xff then
          let nRunLength ← readWord c.src (nByte + 1)
          let des ← grow des (nDesLen + nRunLength + 10) (nDesLen + nRunLength + 1024)
          let des ← if byType ≠ 0 then memset des nDesLen byType nRunLength else some des
          decompressLoop c nMaxLen fuel (nByte + 3) (nDesLen + nRunLength) des
        else
          let des ← grow des (nDesLen + 10) (nDesLen + 1024)
          let des ← writeByte des nDesLen byType
          decompressLoop c nMaxLen fuel (nByte + 1) (nDesLen + 1) des
      else some (reAllocPtr des nDesLen)

/-- The bytes that `Decompress` leaves at `src`. -/
def decompress (c : Packed) (nMaxLen : Int := -1) : Option (List BYTE) :=
  if c.nSrcLen = 0 then some []
  else c.decompressLoop nMaxLen c.nSrcLen 1 0 (allocPtr c.nSrcLen)

def decompressLengthLoop (c : Packed) : Nat → Nat → Nat → Option Nat
  | 0, _, _ => none
  | fuel + 1, nByte, nDesLen =>
      if nByte < c.nSrcLen then do
        let byType ← c.src[nByte]?
        if byType = 0 ∨ byType = 0xff then
          let nRunLength ← readWord c.src (nByte + 1)
          decompressLengthLoop c fuel (nByte + 3) (← asInt (nDesLen + nRunLength))
        else decompressLengthLoop c fuel (nByte + 1) (← asInt (nDesLen + 1))
      else some nDesLen

def decompressLength (c : Packed) : Option Nat :=
  c.decompressLengthLoop (c.nSrcLen + 1) 0 0

/-! ## One bit -/

def getAtLoop (c : Packed) (nBit : Nat) : Nat → Nat → Nat → Option Bool
  | 0, _, _ => none
  | fuel + 1, nByte, nDesLen =>
      if nByte < c.nSrcLen then do
        let byType ← c.src[nByte]?
        if byType = 0 ∨ byType = 0xff then
          let nRunLength ← readWord c.src (nByte + 1)
          if nDesLen + nRunLength > nBit / 8 then return byType = 0xff
          else getAtLoop c nBit fuel (nByte + 3) (nDesLen + nRunLength)
        else if nDesLen = nBit / 8 then return getBit [byType] (nBit &&& 7)
        else getAtLoop c nBit fuel (nByte + 1) (nDesLen + 1)
      else some false

def getAt (c : Packed) (nBit : Nat) : Option Bool :=
  if c.nSrcLen > 0 then c.getAtLoop nBit c.nSrcLen 1 0 else some false

/-- `nAddedSize` bytes are made room for at `nByte`. The first gets the bit; if there are more, the
others are a run of `nRest` zeros. -/
def insertByte (src : List BYTE) (nSrcLen nBit nByte nAddedSize nRest : Nat) :
    Option (Bool × Packed) := do
  let src := reAllocPtr src (nSrcLen + nAddedSize)
  let src ← memmove src (nByte + nAddedSize) nByte (nSrcLen - nByte)
  let src ← memset src nByte 0 nAddedSize
  let src ← if nAddedSize > 1 then writeWord src (nByte + 2) nRest else some src
  let src ← setBitAt src nByte (nBit &&& 7)
  return (true, ⟨src, nSrcLen + nAddedSize⟩)

/-- A bit in a run of zeros is set; `nByte` points to the count. -/
def splitRun (c : Packed) (nBit nByte nDesLen nRunLength : Nat) : Option (Bool × Packed) :=
  let nDesByte := nBit / 8
  let nRest := nRunLength - 1 - (nDesByte - nDesLen)
  if nRunLength > 1 then
    if nDesByte = nDesLen + nRunLength - 1 then do
      let src ← writeWord c.src nByte (nDesByte - nDesLen)
      insertByte src c.nSrcLen nBit (nByte + 2) 1 nRest
    else if nDesByte > nDesLen then do
      let src ← writeWord c.src nByte (nDesByte - nDesLen)
      insertByte src c.nSrcLen nBit (nByte + 2) 4 nRest
    else do
      let src ← writeWord c.src nByte (nRunLength - 1)
      insertByte src c.nSrcLen nBit (nByte - 1) 1 nRest
  else do
    let src ← memmove c.src nByte (nByte + 2) (c.nSrcLen - nByte - 2)
    let src ← memset src (c.nSrcLen - 2) 0 2
    let src ← setBitAt src (nByte - 1) (nBit &&& 7)
    return (true, ⟨src, c.nSrcLen - 2⟩)

/-- The byte at `nByte` goes into the run before it. -/
def growPrevious (src : List BYTE) (nSrcLen nByte nRunLength : Nat) : Option (Bool × Packed) := do
  let src ← memmove src nByte (nByte + 1) (nSrcLen - nByte - 1)
  let src ← writeByte src (nSrcLen - 1) 0
  let src ← writeWord src (nByte - 2) (nRunLength + 1)
  return (true, ⟨src, nSrcLen - 1⟩)

/-- The byte at `nByte` goes into the run behind it, whose count is at `nByte + 1` after the move. -/
def growNext (src : List BYTE) (nSrcLen nByte : Nat) : Option (Bool × Packed) := do
  let src ← memmove src nByte (nByte + 1) (nSrcLen - nByte - 1)
  let src ← writeByte src (nSrcLen - 1) 0
  let src ← writeWord src (nByte + 2) ((← readWord src (nByte + 2)) + 1)
  return (true, ⟨src, nSrcLen - 1⟩)

/-- The byte at `nByte` gets a count. -/
def startRun (src : List BYTE) (nSrcLen nByte : Nat) : Option (Bool × Packed) := do
  let src := reAllocPtr src (nSrcLen + 2)
  let src ← memmove src (nByte + 3) (nByte + 1) (nSrcLen - nByte - 1)
  let src ← writeWord src (nByte + 1) 1
  return (true, ⟨src, nSrcLen + 2⟩)

/-- The run behind `nByte` is one of 0xff that can be made longer. -/
def nextGrows (src : List BYTE) (nSrcLen nByte : Nat) : Option Bool :=
  if nByte + 2 < nSrcLen then do
    if (← src[nByte + 1]?) = 0xff then return (← readWord src (nByte + 2)) ≠ COMPRESS_COUNT
    else return false
  else some false

/-- The byte at `nByte` has become 0xff. The token before it is a run of `nRunLength` bytes if
`byType` is one. -/
def fillByte (src : List BYTE) (nSrcLen nByte nRunLength : Nat) (byType : BYTE) :
    Option (Bool × Packed) :=
  if nRunLength ≠ COMPRESS_COUNT ∧ byType = 0xff then growPrevious src nSrcLen nByte nRunLength
  else do
    if ← nextGrows src nSrcLen nByte then growNext src nSrcLen nByte
    else startRun src nSrcLen nByte

/-- A bit of a byte that stands for itself is set. -/
def setLiteral (c : Packed) (nBit nByte nRunLength : Nat) (byType : BYTE) :
    Option (Bool × Packed) := do
  if getBit [← c.src[nByte]?] (nBit &&& 7) then return (false, c)
  let src ← setBitAt c.src nByte (nBit &&& 7)
  if (← src[nByte]?) = 0xff then fillByte src c.nSrcLen nByte nRunLength byType
  else return (true, ⟨src, c.nSrcLen⟩)

/-- The counts of the runs of zeros in front of the last byte. -/
def writeRuns (nSrcLen : Nat) : Nat → Nat → List BYTE → Option (List BYTE)
  | 0, _, src => some src
  | nRun + 1, nLength, src =>
      (writeWord src (nSrcLen - (nRun + 1) * 3)
        (if nLength ≥ COMPRESS_COUNT then COMPRESS_COUNT else nLength)).bind
        (writeRuns nSrcLen nRun (nLength - COMPRESS_COUNT))

/-- A bit behind the last byte is set. -/
def appendAt (c : Packed) (nBit nDesLen : Nat) : Option (Bool × Packed) := do
  let nLength := nBit / 8 - nDesLen
  let nRun := nLength / COMPRESS_COUNT + if nLength % COMPRESS_COUNT ≠ 0 then 1 else 0
  let nSrcLen := if nRun > 0 then c.nSrcLen + (nRun * 3 + 1) else c.nSrcLen + 1
  let (src, nSrcLen) := if c.nSrcLen = 0 then ((allocPtr (nSrcLen + 1)).set 0 1, nSrcLen + 1)
    else (reAllocPtr c.src nSrcLen, nSrcLen)
  let src ← writeRuns nSrcLen nRun nLength src
  let src ← setBitAt src (nSrcLen - 1) (nBit &&& 7)
  return (true, ⟨src, nSrcLen⟩)

def setAtLoop (c : Packed) (nBit : Nat) : Nat → Nat → Nat → Nat → BYTE → Option (Bool × Packed)
  | 0, _, _, _, _ => none
  | fuel + 1, nByte, nDesLen, nRunLength, byType =>
      if nByte < c.nSrcLen then do
        let byte ← c.src[nByte]?
        if byte = 0 ∨ byte = 0xff then
          let nRunLength ← readWord c.src (nByte + 1)
          if nDesLen + nRunLength > nBit / 8 then
            if byte = 0xff then return (false, c)
            else c.splitRun nBit (nByte + 1) nDesLen nRunLength
          else setAtLoop c nBit fuel (nByte + 3) (nDesLen + nRunLength) nRunLength byte
        else if nDesLen = nBit / 8 then c.setLiteral nBit nByte nRunLength byType
        else setAtLoop c nBit fuel (nByte + 1) (nDesLen + 1) nRunLength 0
      else c.appendAt nBit nDesLen

def setAt (c : Packed) (nBit : Nat) : Option (Bool × Packed) :=
  if c.nSrcLen > 0 then c.setAtLoop nBit c.nSrcLen 1 0 0 0 else c.appendAt nBit 0

/-! ## What the bytes stand for -/

/-- The tokens stand behind the first byte, and nothing but zeros behind them. -/
structure Encodes (c : Packed) (ts : List Token) : Prop where
  valid : RunLength.Valid ts
  bytes : c.nSrcLen = 0 ∧ ts = [] ∨ c.nSrcLen = 1 + (encode ts).length ∧
    ∃ slack, c.src = 1 :: encode ts ++ List.replicate slack 0

/-- The compressed bytes of an array whose bits all have an `int` for their number. -/
def Valid (c : Packed) : Prop :=
  ∃ ts, c.Encodes ts ∧ (expand ts).length ≤ 2 ^ 28

/-- The bytes that are known to be written before the loop of `Decompress` asks for room. -/
def ahead : Token → Nat
  | .literal _ => 0
  | .run _ count => count

/-- Every sum of `Decompress` fits an `int`, from `nDesLen` bytes in a block of `nLength` on. -/
def DecompressFits (nDesLen nLength : Nat) : List Token → Prop
  | [] => True
  | t :: ts =>
      let nEnd := nDesLen + ahead t
      nEnd + 10 < 2 ^ 31 ∧ (nLength ≤ nEnd + 10 → nEnd + 1024 < 2 ^ 31) ∧
        DecompressFits (nDesLen + t.bytes.length)
          (if nLength ≤ nEnd + 10 then nEnd + 1024 else nLength) ts

/-- The same of `Compress`, which gets no more than 1024 bytes at a time. -/
def CompressFits (nDesLen nLength : Nat) : List Token → Prop
  | [] => True
  | t :: ts =>
      nDesLen + 5 < 2 ^ 31 ∧ (nLength < nDesLen + 5 → nLength + 1024 < 2 ^ 31) ∧
        CompressFits (nDesLen + t.code.length)
          (if nLength < nDesLen + 5 then nLength + 1024 else nLength) ts

/-- The array is made long enough and the bit is set. -/
def withBit (x : List BYTE) (nBit : Nat) : List BYTE :=
  setBit (x ++ List.replicate (nBit / 8 + 1 - x.length) 0) nBit

/-- `SetAt` sets this bit and no other, and tells whether it was set before. -/
def SetsBit (c : Packed) (nBit : Nat) : Prop :=
  ∃ bSet c' x, c.setAt nBit = some (bSet, c') ∧ c'.Valid ∧
    (∀ m < 2 ^ 31, ∃ bit, c.getAt m = some bit ∧ c'.getAt m = some (decide (m = nBit) || bit)) ∧
      c.decompress = some x ∧ c'.decompress = some (withBit x nBit) ∧
        (bSet = false ↔ c.getAt nBit = some true)

/-- The byte of the bit becomes 0xff right before a run of 0xff that can be made longer, and not
right behind one. -/
def BeforeRun (c : Packed) (nBit : Nat) : Prop :=
  ∃ before b count after, c.Encodes (before ++ .literal b :: .run 0xff count :: after) ∧
    (expand before).length = nBit / 8 ∧ b ||| (1 : BYTE) <<< (nBit % 8) = 0xff ∧ count ≠ COMPRESS_COUNT ∧
      ∀ k, before.getLast? = some (.run 0xff k) → k = COMPRESS_COUNT

end Packed

/-- The array without the zero bytes at its end. -/
def withoutTail (src : List BYTE) : List BYTE := src.take (SFBitArray.trimmed src src.length)

/-- `Compress` and `Decompress` end, write into their blocks only and give the array back. -/
def RoundTrips (src : List BYTE) : Prop :=
  ∃ c, compress src = some c ∧ c.decompress = some (withoutTail src)

namespace Packed

/-- `Compress` has made the bytes, or `SetAt` from such. -/
inductive Made : Packed → Prop
  | compressed {src : List BYTE} {c : Packed} (is : compress src = some c) : Made c
  | changed {c c' : Packed} {nBit : Nat} {bSet : Bool} (made : Made c) (int : nBit < 2 ^ 31)
      (is : c.setAt nBit = some (bSet, c')) : Made c'

/-- `DecompressLength` tells how many bytes `Decompress` leaves. -/
def LengthAgrees (c : Packed) : Prop :=
  ∃ x, c.decompress = some x ∧ c.decompressLength = some x.length

end Packed

/-- The sums of both fit an `int`. -/
def SumsFit (src : List BYTE) : Prop :=
  Packed.CompressFits 1 (withoutTail src).length (tokens (withoutTail src)) ∧
    Packed.DecompressFits 0 (1 + (encode (tokens (withoutTail src))).length)
      (tokens (withoutTail src))

end Cgsf.BaseLayer
