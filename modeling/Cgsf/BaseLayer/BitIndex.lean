import Cgsf.BaseLayer.BitRanges

/-!
# The index of the set bits

`Index` notes where every `m_nBitSeg`-th set bit is. A read or a write outside the bytes or the
indexes and a position that does not fit an `int` give nothing.
-/

namespace Cgsf.BaseLayer

theorem SFBitArray.getCount_nonneg {a : SFBitArray} (counted : -1 ≤ a.nCount) :
    0 ≤ a.getCount.1 ∧ a.getCount.2.nCount = a.getCount.1 := by
  have grows (bytes : List BYTE) (n : Int) (low : 0 ≤ n) : 0 ≤ bytes.foldl
      (fun (n : Int) byte => if byte ≠ 0 then n + bitCount.getD byte.toNat 0 else n) n := by
    induction bytes generalizing n with
    | nil => exact low
    | cons byte bytes ih =>
        apply ih
        dsimp only
        split <;> omega
  unfold getCount
  split
  · exact ⟨grows _ 0 (Int.le_refl 0), rfl⟩
  · exact ⟨by omega, rfl⟩

def SEG_COUNT : Nat := 10240

/-- How many set bits there are for each entry of the index. -/
def bitSeg (nCount : Nat) : Nat := nCount / SEG_COUNT + 1

/-- How many entries are allocated. -/
def indexSize (nCount : Nat) : Nat := nCount / bitSeg nCount + 1

/-- The count that is kept is -1 or a number of bits; `m_nIndexesCount` is the length of
`nIndexes`. -/
structure IndexedArray extends SFBitArray where
  counted : -1 ≤ nCount := by decide
  nIndexes : Option (List Nat) := none
  nBitSeg : Nat := 1
  deriving DecidableEq

namespace IndexedArray

def getCount (a : IndexedArray) : Int × IndexedArray :=
  (a.toSFBitArray.getCount.1,
    { a with
      toSFBitArray := a.toSFBitArray.getCount.2
      counted := by
        have ⟨low, kept⟩ := SFBitArray.getCount_nonneg a.counted
        omega })

/-- A position before the buffer cannot be read. -/
def getAt (a : IndexedArray) (nBit : Int) : Option Bool :=
  if 0 ≤ nBit then some (a.toSFBitArray.getAt nBit.toNat)
  else if nBit ≥ bitLength a.nLength then some false
  else none

/-! ## Index -/

/-- `if(m_nCount++ % m_nBitSeg == 0) m_nIndexes[m_nIndexesCount++] = nBit;` -/
def indexBit (nBitSeg nAlloc : Nat) (r : Option (Nat × List Nat)) (nBit : Nat) :
    Option (Nat × List Nat) := do
  let r ← r
  if r.1 % nBitSeg = 0 then
    if r.2.length < nAlloc then return (r.1 + 1, r.2 ++ [nBit]) else none
  else return (r.1 + 1, r.2)

def indexByte (a : IndexedArray) (nBitSeg nAlloc : Nat) (r : Nat × List Nat) (nByte : Nat) :
    Option (Nat × List Nat) :=
  if a.buffer.getD nByte 0 ≠ 0 then do
    let nBit ← asInt (nByte <<< 3)
    BitArray.byteLoop (indexBit nBitSeg nAlloc) 8 (a.buffer.getD nByte 0) nBit (some r)
  else some r

def index (a : IndexedArray) : Option IndexedArray :=
  if a.nLength = 0 then some a
  else do
    let nCount := a.getCount.1.toNat
    let r ← (List.range a.nLength).foldlM (a.indexByte (bitSeg nCount) (indexSize nCount)) (0, [])
    return { a with nCount := r.1, counted := by omega, nIndexes := some r.2, nBitSeg := bitSeg nCount }

/-- `if(m_nIndexes == NULL) Index();` -/
def indexed (a : IndexedArray) : Option IndexedArray :=
  if a.nIndexes = none then a.index else some a

/-! ## GetIndexBit -/

/-- The `lReminder`-th set bit among the positions after `dwBitmapIndex`. -/
def nextBit (a : IndexedArray) : List Nat → Nat → Nat → Int
  | _, 0, dwBitmapIndex => dwBitmapIndex
  | [], _, _ => -1
  | nBit :: nBits, lReminder + 1, _ =>
      a.nextBit nBits (if a.toSFBitArray.getAt nBit then lReminder else lReminder + 1) nBit

/-- What `GetIndexBit` does when the index is there. -/
def indexBitAt (a : IndexedArray) (nIndex : Nat) : Option Int := do
  let nIndexes ← a.nIndexes
  let nMapIndex := nIndex / a.nBitSeg
  if nMapIndex ≥ nIndexes.length then return -1
  if a.nBitSeg = 1 then return (← nIndexes[nIndex]?)
  let dwBitmapIndex ← nIndexes[nMapIndex]?
  return a.nextBit (bitRange (dwBitmapIndex + 1) (bitLength a.nLength - 1)) (nIndex % a.nBitSeg)
    dwBitmapIndex

def getIndexBit (a : IndexedArray) (nIndex : Int) : Option (Int × IndexedArray) :=
  if nIndex ≤ -1 then some (-1, a)
  else if nIndex ≥ a.getCount.1 then some (-1, a.getCount.2)
  else do
    let a ← a.getCount.2.indexed
    return (← a.indexBitAt nIndex.toNat, a)

/-! ## GetBitIndex -/

/-- The search between `nStart` and `nEnd`; the answer is the last `nMapIndex`. -/
def search (nIndexes : List Nat) (nBit : Int) : Nat → Nat → Int → Nat → Option Nat
  | 0, _, _, _ => none
  | fuel + 1, nStart, nEnd, nMapIndex =>
      if nStart < nEnd then do
        let nMapIndex := ((nEnd + nStart) / 2).toNat
        let nIndex ← nIndexes[nMapIndex]?
        if nBit = nIndex then return nMapIndex
        if nBit < nIndex then search nIndexes nBit fuel nStart (nMapIndex - 1) nMapIndex
        else search nIndexes nBit fuel (nMapIndex + 1) nEnd nMapIndex
      else some nMapIndex

/-- `while(nMapIndex > 0 && nBit < m_nIndexes[nMapIndex]) nMapIndex--;` -/
def stepBack (nIndexes : List Nat) (nBit : Int) : Nat → Option Nat
  | 0 => some 0
  | nMapIndex + 1 => do
      let nIndex ← nIndexes[nMapIndex + 1]?
      if nBit < nIndex then stepBack nIndexes nBit nMapIndex else return nMapIndex + 1

/-- What `GetBitIndex` does when the index is there. -/
def bitIndexAt (a : IndexedArray) (nBit : Int) : Option Int := do
  let nIndexes ← a.nIndexes
  let nMapIndex ← search nIndexes nBit (nIndexes.length + 1) 0 nIndexes.length 0
  let nMapIndex ← stepBack nIndexes nBit nMapIndex
  let dwCount ← nIndexes[nMapIndex]?
  let nBitIndex := (bitRange dwCount (nBit - 1)).foldl (fun (nBitIndex : Int) dwCount =>
    if a.toSFBitArray.getAt dwCount then nBitIndex + 1 else nBitIndex) (nMapIndex * a.nBitSeg : Nat)
  if (← a.getAt nBit) = false then return nBitIndex - 1
  return nBitIndex

def getBitIndex (a : IndexedArray) (nBit : Int) : Option (Int × IndexedArray) :=
  if a.getCount.1 = 0 then some (-1, a.getCount.2)
  else do
    let a ← a.getCount.2.indexed
    return (← a.bitIndexAt nBit, a)

/-! ## What they should do -/

/-- The set bits, in order. -/
def setBits (a : IndexedArray) : List Nat := (List.range (8 * a.nLength)).filter (getBit a.buffer)

/-- After `Index()`, for every place in the order and for one position. -/
def RanksAndSelects (a : IndexedArray) (n : Int) : Prop :=
  ∃ a', a.index = some a' ∧
    (∀ k : Int, (a'.getIndexBit k).map Prod.fst =
      if 0 ≤ k ∧ k < a'.getCount.1 then a.setBits[k.toNat]?.map Int.ofNat else some (-1)) ∧
    (a'.getBitIndex n).map Prod.fst =
      some (((a.setBits.countP fun nBit : Nat => (nBit : Int) ≤ n : Nat) : Int) - 1) ∧
    ∀ k : Int, 0 ≤ k → k < a'.getCount.1 →
      ((a'.getIndexBit k).bind fun r => r.2.getBitIndex r.1).map Prod.fst = some k

/-- A count that is kept leaves room for the indexes of all set bits, and `GetAt` knows them. -/
structure IndexesWell (a : IndexedArray) : Prop where
  room : a.nCount ≠ -1 →
    a.setBits.length ≤ indexSize a.nCount.toNat * bitSeg a.nCount.toNat
  known : ∀ nBit ∈ a.setBits, a.toSFBitArray.getAt nBit = true

end IndexedArray

end Cgsf.BaseLayer
