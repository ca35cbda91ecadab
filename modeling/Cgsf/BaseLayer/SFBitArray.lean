import Mathlib.Algebra.Order.Group.Int
import Mathlib.Data.Finset.SymmDiff
import Mathlib.Data.Nat.Bitwise
import Mathlib.Order.Interval.Finset.Nat

/-!
# The bit array

Uncompressed. Lengths and positions are not negative; what the source computes in 32 bits from a
length is wrapped as there.
-/

namespace Cgsf.BaseLayer

abbrev BYTE := BitVec 8

/-- How many bits of each byte are set. -/
def bitCount : List Nat := [
  0,1,1,2,1,2,2,3,1,2,2,3,2,3,3,4,1,2,2,3,2,3,3,4,2,3,3,4,3,4,4,5,
  1,2,2,3,2,3,3,4,2,3,3,4,3,4,4,5,2,3,3,4,3,4,4,5,3,4,4,5,4,5,5,6,
  1,2,2,3,2,3,3,4,2,3,3,4,3,4,4,5,2,3,3,4,3,4,4,5,3,4,4,5,4,5,5,6,
  2,3,3,4,3,4,4,5,3,4,4,5,4,5,5,6,3,4,4,5,4,5,5,6,4,5,5,6,5,6,6,7,
  1,2,2,3,2,3,3,4,2,3,3,4,3,4,4,5,2,3,3,4,3,4,4,5,3,4,4,5,4,5,5,6,
  2,3,3,4,3,4,4,5,3,4,4,5,4,5,5,6,3,4,4,5,4,5,5,6,4,5,5,6,5,6,6,7,
  2,3,3,4,3,4,4,5,3,4,4,5,4,5,5,6,3,4,4,5,4,5,5,6,4,5,5,6,5,6,6,7,
  3,4,4,5,4,5,5,6,4,5,5,6,5,6,6,7,4,5,5,6,5,6,6,7,5,6,6,7,6,7,7,8]

def getBit (a : List BYTE) (b : Nat) : Bool := (a.getD (b >>> 3) 0 >>> (b &&& 7)) &&& 1 = 1

def setBit (a : List BYTE) (b : Nat) : List BYTE :=
  a.modify (b >>> 3) (· ||| (1 : BYTE) <<< (b &&& 7))

def resetBit (a : List BYTE) (b : Nat) : List BYTE :=
  a.modify (b >>> 3) (· &&& ~~~((1 : BYTE) <<< (b &&& 7)))

def xOrBit (a : List BYTE) (b : Nat) : List BYTE :=
  a.modify (b >>> 3) (· ^^^ (1 : BYTE) <<< (b &&& 7))

theorem length_setBit (b : Nat) (a : List BYTE) : (setBit a b).length = a.length :=
  List.length_modify ..

theorem length_resetBit (b : Nat) (a : List BYTE) : (resetBit a b).length = a.length :=
  List.length_modify ..

theorem length_xOrBit (b : Nat) (a : List BYTE) : (xOrBit a b).length = a.length :=
  List.length_modify ..

/-- A loop over positions or bytes. -/
theorem length_loop {f : List BYTE → Nat → List BYTE}
    (keeps : ∀ n a, (f a n).length = a.length) (ns : List Nat) (a : List BYTE) :
    (ns.foldl f a).length = a.length := by
  induction ns generalizing a with
  | nil => rfl
  | cons n ns ih => rw [List.foldl_cons, ih, keeps]

/-- `m_nLength<<3` and `m_nLength*8`. -/
def bitLength (nLength : Nat) : Int := (BitVec.ofNat 32 nLength <<< 3).toInt

/-- The positions of a loop from `nStartBit` to `nEndBit`. -/
def bitRange (nStartBit : Nat) (nEndBit : Int) : List Nat :=
  List.range' nStartBit (nEndBit + 1 - nStartBit).toNat

/-- The allocated bytes, of which the first `nLength` count; `m_nAllocLength` is the length of
`buffer`. -/
structure SFBitArray where
  buffer : List BYTE := []
  nLength : Nat := 0
  within : nLength ≤ buffer.length := by decide
  nCount : Int := -1
  deriving DecidableEq, Repr

namespace SFBitArray

/-- `SetModified()`; the cached count is the only thing it resets that is read here. -/
def setModified (a : SFBitArray) : SFBitArray := { a with nCount := -1 }

def freeBuffer : SFBitArray := {}

/-- The bytes are written to in place. -/
def write (a : SFBitArray) (f : List BYTE → List BYTE)
    (keeps : ∀ buffer, (f buffer).length = buffer.length) : SFBitArray :=
  { a with
    buffer := f a.buffer
    within := by
      rw [keeps]
      exact a.within }

def getCount (a : SFBitArray) : Int × SFBitArray :=
  if a.nCount = -1 then
    let nCount : Int := (a.buffer.take a.nLength).foldl
      (fun (n : Int) byte => if byte ≠ 0 then n + bitCount.getD byte.toNat 0 else n) 0
    (nCount, { a with nCount })
  else (a.nCount, a)

def setLength (a : SFBitArray) (nLength : Nat) : SFBitArray :=
  if nLength = 0 then freeBuffer
  else if more : nLength > a.buffer.length then
    { a with
      buffer := a.buffer ++ List.replicate (nLength + 100 - a.buffer.length) 0
      nLength
      within := by
        rw [List.length_append, List.length_replicate]
        omega }
  else { a with nLength, within := Nat.le_of_not_lt more }

def getAt (a : SFBitArray) (nBit : Nat) : Bool :=
  if (nBit : Int) ≥ bitLength a.nLength then false else getBit a.buffer nBit

def setAt (a : SFBitArray) (nBit : Nat) : SFBitArray :=
  let a := if (nBit : Int) ≥ bitLength a.nLength then a.setLength ((nBit >>> 3) + 1) else a
  (a.write (setBit · nBit) (length_setBit nBit)).setModified

def resetAt (a : SFBitArray) (nBit : Nat) : SFBitArray :=
  let a := if (nBit : Int) < bitLength a.nLength then
    a.write (resetBit · nBit) (length_resetBit nBit) else a
  a.setModified

def xOrAt (a : SFBitArray) (nBit : Nat) : SFBitArray :=
  let a := if (nBit : Int) ≥ bitLength a.nLength then a.setLength ((nBit >>> 3) + 1) else a
  (a.write (xOrBit · nBit) (length_xOrBit nBit)).setModified

def setRange (a : SFBitArray) (nStartBit nEndBit : Nat) : SFBitArray :=
  let a := if (nEndBit : Int) ≥ bitLength a.nLength then a.setLength (nEndBit / 8 + 1) else a
  (a.write ((bitRange nStartBit nEndBit).foldl setBit) (length_loop length_setBit _)).setModified

def resetRange (a : SFBitArray) (nStartBit nEndBit : Nat) : SFBitArray :=
  let nEndBit : Int := if (nEndBit : Int) ≥ bitLength a.nLength then bitLength a.nLength - 1
    else nEndBit
  (a.write ((bitRange nStartBit nEndBit).foldl resetBit) (length_loop length_resetBit _)).setModified

def xOrRange (a : SFBitArray) (nStartBit nEndBit : Nat) : SFBitArray :=
  let a := if (nEndBit : Int) ≥ bitLength a.nLength then a.setLength (nEndBit / 8 + 1) else a
  (a.write ((bitRange nStartBit nEndBit).foldl xOrBit) (length_loop length_xOrBit _)).setModified

/-- `m_pBuffer[nByte] op= src.m_pBuffer[nByte]` for the first bytes. -/
def combine (op : BYTE → BYTE → BYTE) (src : List BYTE) (n : Nat) (buffer : List BYTE) :
    List BYTE :=
  (List.range n).foldl (fun buffer nByte => buffer.modify nByte (op · (src.getD nByte 0))) buffer

theorem length_combine (op : BYTE → BYTE → BYTE) (src : List BYTE) (n : Nat)
    (buffer : List BYTE) : (combine op src n buffer).length = buffer.length :=
  length_loop (fun _ _ => List.length_modify ..) _ _

/-- `operator|=` -/
def orAssign (a src : SFBitArray) : SFBitArray :=
  let a := if a.nLength < src.nLength then a.setLength src.nLength else a
  (a.write (combine (· ||| ·) src.buffer src.nLength) (length_combine _ _ _)).setModified

/-- The length without the zero bytes at its end. -/
def trimmed (buffer : List BYTE) : Nat → Nat
  | 0 => 0
  | n + 1 => if buffer.getD n 0 = 0 then trimmed buffer n else n + 1

theorem trimmed_le (buffer : List BYTE) (n : Nat) : trimmed buffer n ≤ n := by
  induction n with
  | zero => exact Nat.le_refl 0
  | succ n ih =>
      rw [trimmed]
      split
      · exact Nat.le_succ_of_le ih
      · exact Nat.le_refl _

def trim (a : SFBitArray) : SFBitArray :=
  { a with
    nLength := trimmed a.buffer a.nLength
    within := (trimmed_le ..).trans a.within }

/-- `operator&=` -/
def andAssign (a src : SFBitArray) : SFBitArray :=
  let a : SFBitArray :=
    { a with nLength := min a.nLength src.nLength, within := (min_le_left ..).trans a.within }
  let a := (a.write (combine (· &&& ·) src.buffer a.nLength) (length_combine _ _ _)).trim
  let a := if a.nLength = 0 then freeBuffer else a
  a.setModified

/-- `operator^=` -/
def xOrAssign (a src : SFBitArray) : SFBitArray :=
  let a := if a.nLength < src.nLength then a.setLength src.nLength else a
  (a.write (combine (· ^^^ ·) src.buffer src.nLength) (length_combine _ _ _)).setModified

end SFBitArray

/-- A call on an array; `src` names the array on the right of an assignment. -/
inductive BitCall where
  | setAt (nBit : Nat)
  | resetAt (nBit : Nat)
  | xOrAt (nBit : Nat)
  | setRange (nStartBit nEndBit : Nat)
  | resetRange (nStartBit nEndBit : Nat)
  | xOrRange (nStartBit nEndBit : Nat)
  | orAssign (src : Nat)
  | andAssign (src : Nat)
  | xOrAssign (src : Nat)
  | setLength (nLength : Nat)
  | getCount
  deriving DecidableEq, Repr

open scoped symmDiff

/-- Arrays by name, and the sets they stand for. -/
structure BitRun where
  arrays : Nat → SFBitArray := fun _ => {}
  sets : Nat → Finset Nat := fun _ => ∅

namespace BitRun

def array (r : BitRun) (i : Nat) : BitCall → SFBitArray
  | .setAt nBit => (r.arrays i).setAt nBit
  | .resetAt nBit => (r.arrays i).resetAt nBit
  | .xOrAt nBit => (r.arrays i).xOrAt nBit
  | .setRange nStartBit nEndBit => (r.arrays i).setRange nStartBit nEndBit
  | .resetRange nStartBit nEndBit => (r.arrays i).resetRange nStartBit nEndBit
  | .xOrRange nStartBit nEndBit => (r.arrays i).xOrRange nStartBit nEndBit
  | .orAssign src => (r.arrays i).orAssign (r.arrays src)
  | .andAssign src => (r.arrays i).andAssign (r.arrays src)
  | .xOrAssign src => (r.arrays i).xOrAssign (r.arrays src)
  | .setLength nLength => (r.arrays i).setLength nLength
  | .getCount => (r.arrays i).getCount.2

/-- What a call means for the set. -/
def set (r : BitRun) (i : Nat) : BitCall → Finset Nat
  | .setAt nBit => insert nBit (r.sets i)
  | .resetAt nBit => (r.sets i).erase nBit
  | .xOrAt nBit => r.sets i ∆ {nBit}
  | .setRange nStartBit nEndBit => r.sets i ∪ .Icc nStartBit nEndBit
  | .resetRange nStartBit nEndBit => r.sets i \ .Icc nStartBit nEndBit
  | .xOrRange nStartBit nEndBit => r.sets i ∆ .Icc nStartBit nEndBit
  | .orAssign src => r.sets i ∪ r.sets src
  | .andAssign src => r.sets i ∩ r.sets src
  | .xOrAssign src => r.sets i ∆ r.sets src
  | .setLength nLength => (r.sets i).filter (· < 8 * nLength)
  | .getCount => r.sets i

def step (r : BitRun) (call : Nat × BitCall) : BitRun where
  arrays := Function.update r.arrays call.1 (r.array call.1 call.2)
  sets := Function.update r.sets call.1 (r.set call.1 call.2)

def Steps (r : BitRun) (call : Nat × BitCall) (r' : BitRun) : Prop := r.step call = r'

/-- `GetAt` is membership and `GetCount` the number of elements. -/
def Represents (r : BitRun) : Prop :=
  ∀ i, (∀ n, (r.arrays i).getAt n = decide (n ∈ r.sets i)) ∧
    (r.arrays i).getCount.1 = (r.sets i).card

/-- The length that a call asks for. -/
def requested (r : BitRun) : BitCall → Nat
  | .setAt nBit | .xOrAt nBit => nBit / 8 + 1
  | .setRange _ nEndBit | .xOrRange _ nEndBit => nEndBit / 8 + 1
  | .orAssign src | .xOrAssign src => (r.arrays src).nLength
  | .setLength nLength => nLength
  | _ => 0

/-- The positions that a call sets whatever they were. -/
def Covers (r : BitRun) : BitCall → Nat → Prop
  | .setAt nBit, n => n = nBit
  | .setRange nStartBit nEndBit, n => nStartBit ≤ n ∧ n ≤ nEndBit
  | .orAssign src, n => (r.arrays src).getAt n
  | _, _ => False

/-- The length that a call asks for can be counted in bits. -/
def Fits (r : BitRun) (call : Nat × BitCall) : Prop := r.requested call.2 < 2 ^ 28

/-- The bytes that a call makes part of the array have no bit left in them but those that it sets,
and a count that is kept is not the count of bits that are cut off. -/
structure Clean (r : BitRun) (call : Nat × BitCall) : Prop where
  exposes : ∀ n, 8 * (r.arrays call.1).nLength ≤ n → n < 8 * r.requested call.2 →
    getBit (r.arrays call.1).buffer n = true → r.Covers call.2 n
  cuts : ∀ nLength, call.2 = .setLength nLength → nLength ≠ 0 → (r.arrays call.1).nCount ≠ -1 →
    ∀ n ∈ r.sets call.1, n < 8 * nLength

instance (r : BitRun) (call : Nat × BitCall) : Decidable (r.Fits call) :=
  inferInstanceAs (Decidable (_ < _))

instance (r : BitRun) (n : Nat) : (c : BitCall) → Decidable (r.Covers c n)
  | .setAt _ => inferInstanceAs (Decidable (_ = _))
  | .setRange _ _ => inferInstanceAs (Decidable (_ ∧ _))
  | .orAssign _ => inferInstanceAs (Decidable (_ = true))
  | .resetAt _ | .xOrAt _ | .resetRange _ _ | .xOrRange _ _ | .andAssign _ | .xOrAssign _
  | .setLength _ | .getCount => instDecidableFalse

instance (r : BitRun) (call : Nat × BitCall) : Decidable (r.Clean call) :=
  decidable_of_iff
    ((∀ n < 8 * r.requested call.2, 8 * (r.arrays call.1).nLength ≤ n →
        getBit (r.arrays call.1).buffer n = true → r.Covers call.2 n) ∧
      (call.2 = .setLength (r.requested call.2) → r.requested call.2 ≠ 0 →
        (r.arrays call.1).nCount ≠ -1 → ∀ n ∈ r.sets call.1, n < 8 * r.requested call.2))
    ⟨fun both => ⟨fun n low high => both.1 n high low, fun nLength is => by
        rw [is] at both
        exact both.2 rfl⟩,
      fun clean => ⟨fun n high low => clean.exposes n low high, clean.cuts _⟩⟩

end BitRun

end Cgsf.BaseLayer
