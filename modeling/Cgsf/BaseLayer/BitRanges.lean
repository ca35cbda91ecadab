import Cgsf.BaseLayer.CompressedBits

/-!
# Ranges of the bit array

The functions that go byte by byte between the ends of a range. A read or a write outside the bytes
of an array and a position that does not fit an `int` give nothing.
-/

namespace Cgsf.BaseLayer

/-- An array whose bytes are compressed or not. -/
structure BitArray extends SFBitArray where
  bCompressed : Bool := false

namespace BitArray

def getAt (a : BitArray) (nBit : Nat) : Option Bool :=
  if a.bCompressed then Packed.getAt ⟨a.buffer, a.nLength⟩ nBit
  else some (a.toSFBitArray.getAt nBit)

/-- `m_pBuffer[nByte]` -/
def byteAt (a : BitArray) (nByte : Nat) : Option BYTE :=
  if nByte < a.nLength then a.buffer[nByte]? else none

/-- The positions of a loop that ends with `nBit` at `nEnd`. -/
def positions (nBit nEnd : Nat) : Option (List Nat) :=
  (asInt nEnd).map fun nEnd => List.range' nBit (nEnd - nBit)

/-- 1 if the range begins inside a byte. -/
def bFirstByte (nStartBit : Nat) : Nat := if (nStartBit &&& 7) ≠ 0 then 1 else 0

/-- The positions before the first whole byte. -/
def firstPositions (nStartBit : Nat) : Option (List Nat) :=
  if bFirstByte nStartBit ≠ 0 then positions nStartBit ((nStartBit / 8 + 1) * 8) else some []

/-- The whole bytes before `nEndByte`. -/
def middleBytes (nStartBit nEndByte : Nat) : List Nat :=
  List.range' (nStartBit / 8 + bFirstByte nStartBit)
    (nEndByte - (nStartBit / 8 + bFirstByte nStartBit))

/-! ## GetRangeCount -/

/-- How many bits of half a byte are set. -/
def halfCount : List Nat := [0,1,1,2,1,2,2,3,1,2,2,3,2,3,3,4]

def byteCount (byte : BYTE) : Nat :=
  if byte = 0xff then 8
  else halfCount.getD (byte &&& 0x0f).toNat 0 + halfCount.getD ((byte &&& 0xf0) >>> 4).toNat 0

def countBits (a : BitArray) (nBits : List Nat) (nCount : Nat) : Option Nat :=
  nBits.foldlM (fun nCount nBit => do
    return if ← a.getAt nBit then nCount + 1 else nCount) nCount

def countBytes (a : BitArray) (nBytes : List Nat) (nCount : Nat) : Option Nat :=
  nBytes.foldlM (fun nCount nByte => do
    let byte ← a.byteAt nByte
    return if byte ≠ 0 then nCount + byteCount byte else nCount) nCount

def getRangeCount (a : BitArray) (nStartBit nEndBit : Nat) : Option Nat := do
  let nEndByte := nEndBit / 8
  let nCount ← a.countBits (← firstPositions nStartBit) 0
  let nCount ← a.countBytes (middleBytes nStartBit nEndByte) nCount
  a.countBits (← positions (nEndByte * 8) (nEndBit + 1)) nCount

/-! ## IsRangeEmpty -/

/-- `if(GetAt(dwBit)) return false;` -/
def someBit (a : BitArray) : List Nat → Option Bool
  | [] => some false
  | nBit :: nBits => do if ← a.getAt nBit then return true else someBit a nBits

/-- `if(m_pBuffer[nByte]) return false;` -/
def someByte (a : BitArray) : List Nat → Option Bool
  | [] => some false
  | nByte :: nBytes => do if (← a.byteAt nByte) ≠ 0 then return true else someByte a nBytes

def isRangeEmpty (a : BitArray) (nStartBit nEndBit : Nat) : Option Bool :=
  if a.nLength = 0 then some true
  else do
    let nBits ← asInt (a.nLength * 8)
    let nEndBit := if nEndBit ≥ nBits then nBits - 1 else nEndBit
    if ← a.someBit (← positions nStartBit ((nStartBit / 8 + 1) * 8)) then return false
    if ← a.someByte (List.range' (nStartBit / 8 + 1) (nEndBit / 8 - (nStartBit / 8 + 1))) then
      return false
    if (nEndBit + 1) &&& 7 ≠ 0 then
      if ← a.someBit (← positions (nEndBit / 8 * 8) (nEndBit + 1)) then return false
    return true

/-! ## Range2Array -/

/-- The loop over the bits of a byte, from `nBit` on. -/
def byteLoop {σ : Type} (body : σ → Nat → σ) : Nat → BYTE → Nat → σ → σ
  | 0, _, _, s => s
  | fuel + 1, byte, nBit, s =>
      if byte ≠ 0 then
        byteLoop body fuel (byte >>> 1) (nBit + 1) (if byte &&& 1 ≠ 0 then body s nBit else s)
      else s

/-- `nArray.push_back(nBit), nCount++` -/
def push (r : Nat × List Nat) (nBit : Nat) : Nat × List Nat := (r.1 + 1, r.2 ++ [nBit])

def listBits (a : BitArray) (nBits : List Nat) (r : Nat × List Nat) : Option (Nat × List Nat) :=
  nBits.foldlM (fun r nBit => do return if ← a.getAt nBit then push r nBit else r) r

def listBytes (a : BitArray) (nBytes : List Nat) (r : Nat × List Nat) :
    Option (Nat × List Nat) :=
  nBytes.foldlM (fun r nByte => do
    let byte ← a.byteAt nByte
    return if byte ≠ 0 then byteLoop push 8 byte (nByte <<< 3) r else r) r

/-- The number that is returned, and `nArray`. -/
def range2Array (a : BitArray) (nStartBit nEndBit : Nat) (nArray : List Nat) :
    Option (Nat × List Nat) := do
  let nBits ← asInt (a.nLength * 8)
  if nStartBit ≥ nBits then return (0, nArray)
  let nEndBit := min nEndBit (nBits - 1)
  let nEndByte := nEndBit / 8
  let r ← a.listBits (← firstPositions nStartBit) (0, nArray)
  let r ← a.listBytes (middleBytes nStartBit nEndByte) r
  a.listBits (← positions (nEndByte * 8) (nEndBit + 1)) r

/-! ## CopyRange -/

def setLength (a : BitArray) (nLength : Nat) : BitArray :=
  if a.bCompressed then
    if nLength = 0 then { a with toSFBitArray := SFBitArray.freeBuffer }
    else if more : nLength > a.buffer.length then
      { a with
        buffer := a.buffer ++ List.replicate (nLength - a.buffer.length) 0
        nLength
        within := by
          rw [List.length_append, List.length_replicate]
          omega }
    else { a with nLength, within := Nat.le_of_not_lt more }
  else { a with toSFBitArray := a.toSFBitArray.setLength nLength }

/-- `GetBit(src.m_pBuffer, nBit) ? SetBit(m_pBuffer, nBit) : ResetBit(m_pBuffer, nBit)` -/
def copyBit (src buffer : List BYTE) (nBit : Nat) : List BYTE :=
  if getBit src nBit then setBit buffer nBit else resetBit buffer nBit

theorem length_copyBit (src : List BYTE) (nBit : Nat) (buffer : List BYTE) :
    (copyBit src buffer nBit).length = buffer.length := by
  rw [copyBit]
  split
  · exact length_setBit ..
  · exact length_resetBit ..

/-- `memcpy(m_pBuffer+nStartByte, src.m_pBuffer+nStartByte, nEndByte-nStartByte)` -/
def copyBytes (src : List BYTE) (nStartByte nEndByte : Nat) (buffer : List BYTE) : List BYTE :=
  (List.range' nStartByte (nEndByte - nStartByte)).foldl
    (fun buffer nByte => buffer.set nByte (src.getD nByte 0)) buffer

theorem length_copyBytes (src : List BYTE) (nStartByte nEndByte : Nat) (buffer : List BYTE) :
    (copyBytes src nStartByte nEndByte buffer).length = buffer.length :=
  length_loop (fun _ _ => List.length_set ..) _ _

def copyRange (a src : BitArray) (nStartBit nEndBit : Nat) : Option BitArray := do
  let nSrcBits ← asInt (src.nLength * 8)
  if nStartBit ≥ nSrcBits then return a
  let nEndBit := min nEndBit (nSrcBits - 1)
  let nBits ← asInt (a.nLength * 8)
  let a := if nEndBit ≥ nBits then a.setLength (nEndBit / 8 + 1) else a
  let nStartByte := nStartBit / 8 + bFirstByte nStartBit
  let nEndByte := max nStartByte (nEndBit / 8)
  let first ← firstPositions nStartBit
  let last ← positions (nEndByte * 8) (nEndBit + 1)
  let shared := min a.nLength src.nLength
  if (∀ nBit ∈ first ++ last, nBit / 8 < shared) ∧ (nEndByte > nStartByte → nEndByte ≤ shared) then
    let copied := (a.write (first.foldl (copyBit src.buffer)) (length_loop (length_copyBit _) _)).write
      (copyBytes src.buffer nStartByte nEndByte) (length_copyBytes _ _ _)
    let copied := copied.write (last.foldl (copyBit src.buffer)) (length_loop (length_copyBit _) _)
    return { a with toSFBitArray := copied.setModified }
  else none

/-! ## What they should do -/

/-- The set bits of the range, one by one. -/
def rangeBits (a : BitArray) (nStartBit nEndBit : Nat) : List Nat :=
  (List.range' nStartBit (nEndBit + 1 - nStartBit)).filter fun nBit => a.getAt nBit = some true

def CountsRange (a : BitArray) (nStartBit nEndBit : Nat) : Prop :=
  a.getRangeCount nStartBit nEndBit = some (a.rangeBits nStartBit nEndBit).length

def TellsEmpty (a : BitArray) (nStartBit nEndBit : Nat) : Prop :=
  a.isRangeEmpty nStartBit nEndBit = some (decide ((a.rangeBits nStartBit nEndBit).length = 0))

def ListsRange (a : BitArray) (nStartBit nEndBit : Nat) : Prop :=
  ∀ nArray, a.range2Array nStartBit nEndBit nArray =
    some ((a.rangeBits nStartBit nEndBit).length, nArray ++ a.rangeBits nStartBit nEndBit)

def CopiesRange (a src : BitArray) (nStartBit nEndBit : Nat) : Prop :=
  ∃ a', a.copyRange src nStartBit nEndBit = some a' ∧ ∀ nBit, a'.getAt nBit =
    if nStartBit ≤ nBit ∧ nBit ≤ nEndBit ∧ nBit < 8 * src.nLength then src.getAt nBit
    else a.getAt nBit

/-! ## When they do -/

/-- The range begins behind the first bit of a byte and ends in the same byte. -/
def InsideByte (nStartBit nEndBit : Nat) : Prop := nStartBit % 8 ≠ 0 ∧ nEndBit / 8 = nStartBit / 8

instance (nStartBit nEndBit : Nat) : Decidable (InsideByte nStartBit nEndBit) :=
  inferInstanceAs (Decidable (_ ∧ _))

def ByteClear (a : BitArray) (nByte : Nat) : Prop := ∀ nBit, nBit / 8 = nByte → a.getAt nBit ≠ some true

def RangeClear (a : BitArray) (nStartBit nEnd : Nat) : Prop :=
  ∀ nBit, nStartBit ≤ nBit → nBit < nEnd → a.getAt nBit ≠ some true

/-- Both loop ends fit an `int`, the whole bytes are bytes of the array whose bits `GetAt` knows, and
no bit is met twice. -/
structure CountsWell (a : BitArray) (nStartBit nEndBit : Nat) : Prop where
  last : nEndBit + 1 < 2 ^ 31
  first : nStartBit % 8 ≠ 0 → (nStartBit / 8 + 1) * 8 < 2 ^ 31
  middle : ∀ nByte ∈ middleBytes nStartBit (nEndBit / 8), nByte < a.nLength
  known : ∀ nBit, nBit / 8 ∈ middleBytes nStartBit (nEndBit / 8) → getBit a.buffer nBit = true →
    a.getAt nBit = some true
  once : InsideByte nStartBit nEndBit → a.ByteClear (nStartBit / 8)

/-- An empty range inside a byte is in a clear byte, and a range that ends with a byte has a set bit
before that byte if it has any. -/
structure TellsWell (a : BitArray) (nStartBit nEndBit : Nat) : Prop where
  short : a.nLength < 2 ^ 28
  first : (nStartBit / 8 + 1) * 8 < 2 ^ 31
  inside : nEndBit / 8 = nStartBit / 8 → (nEndBit + 1) % 8 ≠ 0 →
    a.RangeClear nStartBit (nEndBit + 1) → a.ByteClear (nStartBit / 8)
  last : nStartBit / 8 < nEndBit / 8 → (nEndBit + 1) % 8 = 0 →
    a.RangeClear nStartBit (nEndBit / 8 * 8) → a.ByteClear (nEndBit / 8)

/-- The last position that both the range and the array have. -/
def lastBit (a : BitArray) (nEndBit : Nat) : Nat := min nEndBit (8 * a.nLength - 1)

structure ListsWell (a : BitArray) (nStartBit nEndBit : Nat) : Prop where
  short : a.nLength < 2 ^ 28
  once : nStartBit < 8 * a.nLength → InsideByte nStartBit (a.lastBit nEndBit) →
    a.ByteClear (nStartBit / 8)

/-- Bits that are copied behind the range are the same already, and the bytes that are added have no
bit left in them elsewhere. -/
structure CopiesWell (a src : BitArray) (nStartBit nEndBit : Nat) : Prop where
  short : a.nLength < 2 ^ 28
  behind : InsideByte nStartBit (src.lastBit nEndBit) → ∀ nBit, nBit / 8 = nStartBit / 8 →
    src.lastBit nEndBit < nBit → src.getAt nBit = a.getAt nBit
  added : ∀ nBit, 8 * a.nLength ≤ nBit → nBit / 8 ≤ src.lastBit nEndBit / 8 →
    (nBit < nStartBit ∨ src.lastBit nEndBit < nBit ∧ ¬InsideByte nStartBit (src.lastBit nEndBit)) →
      getBit a.buffer nBit = false

end BitArray

end Cgsf.BaseLayer
