import Cgsf.BaseLayer.CompressedBits

/-!
# Inserting and deleting bits

`Insert` and `Delete` of an uncompressed array. A position before the buffer or behind it and a
number that does not fit an `int` give nothing.
-/

namespace Cgsf.BaseLayer.SFBitArray

/-! ## Insert -/

/-- `if(GetBit(m_pBuffer, nIndex)) { ResetBit(m_pBuffer, nIndex); SetBit(m_pBuffer, nIndex+nCount); }` -/
def moveBit (nCount nIndex : Nat) (buffer : List BYTE) : List BYTE :=
  if getBit buffer nIndex then setBit (resetBit buffer nIndex) (nIndex + nCount) else buffer

/-- The loop goes down to `nFirst`. -/
def moveBits (nFirst nCount lOldMaxBits : Nat) (buffer : List BYTE) : List BYTE :=
  (List.range' nFirst (lOldMaxBits - nFirst)).foldr (moveBit nCount) buffer

theorem length_moveBit (nCount nIndex : Nat) (buffer : List BYTE) :
    (moveBit nCount nIndex buffer).length = buffer.length := by
  rw [moveBit]
  split
  · rw [length_setBit, length_resetBit]
  · rfl

theorem length_moveBits (nFirst nCount lOldMaxBits : Nat) (buffer : List BYTE) :
    (moveBits nFirst nCount lOldMaxBits buffer).length = buffer.length := by
  unfold moveBits
  induction List.range' nFirst (lOldMaxBits - nFirst) with
  | nil => rfl
  | cons nIndex rest ih => rw [List.foldr_cons, length_moveBit, ih]

/-- The bytes that are asked for: as many as there will be bits. -/
def insertLength (a : SFBitArray) (nStart : Int) (nCount : Nat) : Nat :=
  8 * a.nLength + nCount + (nStart - 8 * a.nLength).toNat

/-- The loop over the old bits comes to position -1 if `nStart` is below it. -/
def insert (a : SFBitArray) (nStart : Int) (nCount : Nat) (bSet : Bool) : Option SFBitArray := do
  let nMaxBits ← asInt (a.nLength * 8)
  let nLength ← asInt (a.insertLength nStart nCount)
  if nStart < -1 then none
  else
    let nFirst := (nStart + 1).toNat
    let b := (a.setLength nLength).write (moveBits nFirst nCount nMaxBits) (length_moveBits _ _ _)
    let _ ← asInt (b.nLength * 8)
    let nEndBit := nStart + nCount
    if nEndBit < 0 then return b.setModified
    return if bSet then b.setRange nFirst nEndBit.toNat else b.resetRange nFirst nEndBit.toNat

/-! ## Delete -/

def shiftBit (nStart nEnd : Nat) (a : SFBitArray) (nIndex : Nat) : SFBitArray :=
  if a.getAt nIndex then (a.resetAt nIndex).setAt (nStart + nIndex - (nEnd + 1))
  else a.resetAt (nStart + nIndex - (nEnd + 1))

/-- The rest of the last byte is cleared; the byte behind a whole last one is cleared too. -/
def cutBits (a : SFBitArray) (nMaxBits : Nat) : Option SFBitArray :=
  if inside : nMaxBits / 8 < a.buffer.length then
    some
      { a with
        buffer := (List.range' nMaxBits (8 - nMaxBits % 8)).foldl resetBit a.buffer
        nLength := nMaxBits / 8 + if nMaxBits % 8 ≠ 0 then 1 else 0
        within := by
          rw [length_loop length_resetBit]
          split <;> omega }
  else none

def delete (a : SFBitArray) (nStart nEnd : Int) : Option SFBitArray := do
  let nMaxBits ← asInt (a.nLength * 8)
  if nStart ≥ nMaxBits ∨ nStart > nEnd then return a
  if nStart < 0 then none
  else
    let nFirst := nStart.toNat
    let nLast := (min nEnd (nMaxBits - 1)).toNat
    let b := (List.range' (nLast + 1) (nMaxBits - (nLast + 1))).foldl (shiftBit nFirst nLast)
      (a.resetRange nFirst nLast)
    b.cutBits (nMaxBits - (nLast - nFirst + 1))

/-! ## The arrays that are built -/

def init (buffer : List BYTE) : SFBitArray :=
  { buffer
    nLength := trimmed buffer buffer.length
    within := trimmed_le .. }

inductive BuildCall where
  | init (pBuffer : List BYTE)
  | setAt (nBit : Nat)
  | resetAt (nBit : Nat)
  | setRange (nStartBit nEndBit : Nat)
  deriving DecidableEq, Repr

def build (a : SFBitArray) : BuildCall → SFBitArray
  | .init pBuffer => init pBuffer
  | .setAt nBit => a.setAt nBit
  | .resetAt nBit => a.resetAt nBit
  | .setRange nStartBit nEndBit => a.setRange nStartBit nEndBit

def Builds (a : SFBitArray) (call : BuildCall) (a' : SFBitArray) : Prop := a.build call = a'

/-- The bits of the array that a call asks for can be counted. -/
def BuildCall.Fits : BuildCall → Prop
  | .init pBuffer => pBuffer.length < 2 ^ 28
  | .setAt nBit => nBit / 8 + 1 < 2 ^ 28
  | .resetAt _ => True
  | .setRange _ nEndBit => nEndBit / 8 + 1 < 2 ^ 28

/-! ## What they should do -/

/-- The bit after an insertion. -/
def inserted (a : SFBitArray) (nStart : Int) (nCount : Nat) (bSet : Bool) (nBit : Nat) : Bool :=
  if nBit ≤ nStart then a.getAt nBit
  else if nBit ≤ nStart + nCount then bSet
  else a.getAt (nBit - nCount)

def InsertDeletes (a : SFBitArray) (nStart : Int) (nCount : Nat) (bSet : Bool) : Prop :=
  ∃ b, a.insert nStart nCount bSet = some b ∧
    (∀ nBit, b.getAt nBit = a.inserted nStart nCount bSet nBit) ∧
      ∃ c, b.delete (nStart + 1) (nStart + nCount) = some c ∧ ∀ nBit, c.getAt nBit = a.getAt nBit

/-- The bits of the bytes that are asked for can be counted, and no bit is left in those that the
array gets but where one is put. -/
structure InsertsWell (a : SFBitArray) (nStart : Int) (nCount : Nat) : Prop where
  placed : -1 ≤ nStart
  short : a.insertLength nStart nCount < 2 ^ 28
  exposes : ∀ nBit, 8 * a.nLength ≤ nBit → nBit < 8 * a.insertLength nStart nCount →
    getBit a.buffer nBit = true →
      nStart < nBit ∧ (nBit ≤ nStart + nCount ∨ a.getAt (nBit - nCount) = true)

end Cgsf.BaseLayer.SFBitArray
