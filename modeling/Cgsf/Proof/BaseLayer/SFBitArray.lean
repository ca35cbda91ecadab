import Cgsf.BaseLayer.SFBitArray
import Cgsf.Library.Bits
import Cgsf.Library.Transition

/-!
# The bit array is a set

An array shows the bits of its buffer below its length. What a call leaves of them is told by
`bitAt`; a call that enlarges the array also shows what stood in the buffer behind them.
-/

namespace Cgsf.Proof.BaseLayer
open Cgsf.BaseLayer Library
open scoped symmDiff

variable {a : SFBitArray} {buffer : List BYTE} {m n : Nat}

theorem getBit_eq : getBit buffer n = bitAt buffer n := by
  have low (x : BYTE) (i : Nat) : decide (x >>> i &&& 1 = 1) = x.getLsbD i := by
    have one := BitVec.and_one_eq_setWidth_ofBool_getLsbD (x := x >>> i)
    rw [BitVec.getLsbD_ushiftRight, Nat.add_zero] at one
    cases bit : x.getLsbD i <;> rw [bit] at one <;> rw [show (1 : BYTE) = 1#8 from rfl, one] <;> rfl
  rw [getBit, bitAt, Nat.shiftRight_eq_div_pow, Nat.and_two_pow_sub_one_eq_mod n 3]
  exact low _ _

theorem getLsbD_one_shiftLeft (k : Nat) {i : Nat} (low : i < 8) :
    ((1 : BYTE) <<< k).getLsbD i = decide (i = k) := by
  rw [BitVec.getLsbD_shiftLeft, show (1 : BYTE) = 1#8 from rfl, BitVec.getLsbD_one]
  by_cases same : i = k
  · simp [same, same ▸ low]
  · simp [same]
    omega

theorem bitCount_eq (byte : BYTE) : bitCount.getD byte.toNat 0 = popCount byte := by
  revert byte
  decide

/-! ## The edits -/

section Edits

theorem setBit_edits (n : Nat) (byte : BYTE) (i : Nat) (low : i < 8) :
    (byte ||| (1 : BYTE) <<< (n % 8)).getLsbD i = if i = n % 8 then true else byte.getLsbD i := by
  rw [BitVec.getLsbD_or, getLsbD_one_shiftLeft _ low]
  split <;> simp [*]

theorem resetBit_edits (n : Nat) (byte : BYTE) (i : Nat) (low : i < 8) :
    (byte &&& ~~~((1 : BYTE) <<< (n % 8))).getLsbD i =
      if i = n % 8 then false else byte.getLsbD i := by
  rw [BitVec.getLsbD_and, BitVec.getLsbD_not, getLsbD_one_shiftLeft _ low]
  split <;> simp [*]

theorem xOrBit_edits (n : Nat) (byte : BYTE) (i : Nat) (low : i < 8) :
    (byte ^^^ (1 : BYTE) <<< (n % 8)).getLsbD i = if i = n % 8 then !byte.getLsbD i else byte.getLsbD i := by
  rw [BitVec.getLsbD_xor, getLsbD_one_shiftLeft _ low]
  split <;> simp [*]

theorem setBit_eq (b : Nat) : setBit buffer b = buffer.modify (b / 8) (· ||| (1 : BYTE) <<< (b % 8)) := by
  rw [setBit, Nat.shiftRight_eq_div_pow, Nat.and_two_pow_sub_one_eq_mod b 3]

theorem resetBit_eq (b : Nat) :
    resetBit buffer b = buffer.modify (b / 8) (· &&& ~~~((1 : BYTE) <<< (b % 8))) := by
  rw [resetBit, Nat.shiftRight_eq_div_pow, Nat.and_two_pow_sub_one_eq_mod b 3]

theorem xOrBit_eq (b : Nat) : xOrBit buffer b = buffer.modify (b / 8) (· ^^^ (1 : BYTE) <<< (b % 8)) := by
  rw [xOrBit, Nat.shiftRight_eq_div_pow, Nat.and_two_pow_sub_one_eq_mod b 3]

variable {ns : List Nat}

theorem foldl_setBit (nodup : ns.Nodup) (inside : ∀ n ∈ ns, n < 8 * buffer.length) :
    bitAt (ns.foldl setBit buffer) m = (bitAt buffer m || decide (m ∈ ns)) := by
  have edit : setBit = fun buffer b => buffer.modify (b / 8) (· ||| (1 : BYTE) <<< (b % 8)) :=
    funext fun buffer => funext fun b => setBit_eq b
  rw [edit, bitAt_foldl_modify (g := fun _ => true) setBit_edits nodup inside]
  split <;> simp [*]

theorem foldl_resetBit (nodup : ns.Nodup) (inside : ∀ n ∈ ns, n < 8 * buffer.length) :
    bitAt (ns.foldl resetBit buffer) m = (bitAt buffer m && !decide (m ∈ ns)) := by
  have edit : resetBit =
      fun buffer b => buffer.modify (b / 8) (· &&& ~~~((1 : BYTE) <<< (b % 8))) :=
    funext fun buffer => funext fun b => resetBit_eq b
  rw [edit, bitAt_foldl_modify (g := fun _ => false) resetBit_edits nodup inside]
  split <;> simp [*]

theorem foldl_xOrBit (nodup : ns.Nodup) (inside : ∀ n ∈ ns, n < 8 * buffer.length) :
    bitAt (ns.foldl xOrBit buffer) m = (bitAt buffer m ^^ decide (m ∈ ns)) := by
  have edit : xOrBit = fun buffer b => buffer.modify (b / 8) (· ^^^ (1 : BYTE) <<< (b % 8)) :=
    funext fun buffer => funext fun b => xOrBit_eq b
  rw [edit, bitAt_foldl_modify (g := fun bit => !bit) xOrBit_edits nodup inside]
  split <;> simp [*]

theorem mem_bitRange {s : Nat} {e : Int} : m ∈ bitRange s e ↔ s ≤ m ∧ (m : Int) ≤ e := by
  rw [bitRange, List.mem_range'_1]
  omega

theorem nodup_bitRange (s : Nat) (e : Int) : (bitRange s e).Nodup := List.nodup_range'

end Edits

/-! ## What an array shows -/

/-- The set bits below the length. -/
def shown (a : SFBitArray) : Finset Nat := (Finset.range (8 * a.nLength)).filter (bitAt a.buffer ·)

theorem mem_shown : n ∈ shown a ↔ n < 8 * a.nLength ∧ bitAt a.buffer n = true := by
  rw [shown, Finset.mem_filter, Finset.mem_range]

/-- The length is one that can be counted in bits. -/
def Short (a : SFBitArray) : Prop := a.nLength < 2 ^ 28

theorem bitLength_eq (short : Short a) : bitLength a.nLength = 8 * a.nLength := by
  have short : a.nLength < 268435456 := short
  rw [bitLength, BitVec.toInt_shiftLeft, BitVec.toNat_ofNat, Nat.mod_eq_of_lt (by omega),
    Nat.shiftLeft_eq, Int.bmod_eq_of_le] <;> omega

theorem getAt_eq (short : Short a) : a.getAt n = decide (n ∈ shown a) := by
  rw [SFBitArray.getAt, bitLength_eq short, getBit_eq]
  split
  · refine (decide_eq_false fun member => ?_).symm
    have := (mem_shown.mp member).1
    omega
  · have below : n < 8 * a.nLength := by omega
    cases bit : bitAt a.buffer n <;> simp [mem_shown, bit, below]

theorem counted (a : SFBitArray) (start : Int) : (a.buffer.take a.nLength).foldl
    (fun (n : Int) byte => if byte ≠ 0 then n + bitCount.getD byte.toNat 0 else n) start =
      start + (shown a).card := by
  have sum (bytes : List BYTE) : bytes.foldl
      (fun (n : Int) byte => if byte ≠ 0 then n + bitCount.getD byte.toNat 0 else n) start =
        start + (bytes.map popCount).sum := by
    induction bytes generalizing start with
    | nil => simp
    | cons byte bytes ih =>
        have head : (if byte ≠ 0 then start + bitCount.getD byte.toNat 0 else start) =
            start + popCount byte := by
          rw [bitCount_eq]
          split
          · rfl
          · rename_i zero
            rw [not_not.mp zero, show popCount 0 = 0 by decide]
            simp
        rw [List.foldl_cons, head, ih, List.map_cons, List.sum_cons]
        omega
  have size : (a.buffer.take a.nLength).length = a.nLength := by
    rw [List.length_take]
    exact min_eq_left a.within
  rw [sum, sum_popCount, size, shown, card_bits]
  congr 2
  refine List.countP_congr fun i member => ?_
  have below : i / 8 < a.nLength := by
    rw [List.mem_range] at member
    omega
  rw [bitAt, bitAt, List.getD_eq_getElem?_getD, List.getD_eq_getElem?_getD,
    List.getElem?_take_of_lt below]

/-- The count that is kept, if one is, is right. -/
def Counts (a : SFBitArray) : Prop := a.nCount = -1 ∨ a.nCount = (shown a).card

theorem getCount_eq_iff : a.getCount.1 = (shown a).card ↔ Counts a := by
  rw [SFBitArray.getCount, Counts, counted, Int.zero_add]
  split
  · rename_i fresh
    exact iff_of_true rfl (.inl fresh)
  · rename_i kept
    rw [or_iff_right kept]

/-! ## Calls that set, reset or toggle -/

/-- The bits of `a'` are those of `a` combined with a set, and it is at least `k` bytes long. -/
structure Merged (op : Bool → Bool → Bool) (a : SFBitArray) (k : Nat) (T : Finset Nat)
    (a' : SFBitArray) : Prop where
  nLength : a'.nLength = max a.nLength k
  bits : ∀ m < 8 * a'.nLength, bitAt a'.buffer m = op (bitAt a.buffer m) (decide (m ∈ T))
  nCount : a'.nCount = -1

/-- The set is combined in the same way just when nothing shows that was behind the length. -/
theorem Merged.shown_iff {op : Bool → Bool → Bool} {k : Nat} {T S' : Finset Nat} {a' : SFBitArray}
    (merged : Merged op a k T a')
    (result : ∀ m, m ∈ S' ↔ op (decide (m ∈ shown a)) (decide (m ∈ T)) = true)
    (inside : ∀ m, 8 * max a.nLength k ≤ m → op false (decide (m ∈ T)) = false) :
    shown a' = S' ↔ ∀ m, 8 * a.nLength ≤ m → m < 8 * k → bitAt a.buffer m = true →
      op true (decide (m ∈ T)) = op false (decide (m ∈ T)) := by
  rw [Finset.ext_iff]
  refine forall_congr' fun m => ?_
  rw [mem_shown, result]
  by_cases new : m < 8 * a'.nLength
  · rw [and_iff_right new, merged.bits m new]
    have size := merged.nLength
    by_cases old : m < 8 * a.nLength
    · have same : decide (m ∈ shown a) = bitAt a.buffer m := by
        cases bit : bitAt a.buffer m <;> simp [mem_shown, old, bit]
      rw [same]
      exact iff_of_true .rfl fun outside => absurd old (by omega)
    · have absent : decide (m ∈ shown a) = false :=
        decide_eq_false fun member => old (mem_shown.mp member).1
      have grown : m < 8 * k := by omega
      rw [absent]
      simp only [not_lt.mp old, grown, true_implies]
      cases bit : bitAt a.buffer m
      · exact iff_of_true .rfl nofun
      · rw [← Bool.eq_iff_iff]
        exact ⟨fun same _ => same, fun same => same rfl⟩
  · have size := merged.nLength
    have absent : decide (m ∈ shown a) = false := by
      refine decide_eq_false fun member => ?_
      have := (mem_shown.mp member).1
      omega
    rw [absent, inside m (by omega)]
    refine iff_of_true ⟨fun both => absurd both.1 new, nofun⟩ fun _ grown => ?_
    omega

theorem enlarge {k : Nat} {c : Prop} [Decidable c] (when : c ↔ a.nLength < k) :
    (if c then a.setLength k else a).nLength = max a.nLength k ∧
      ∀ m, bitAt (if c then a.setLength k else a).buffer m = bitAt a.buffer m := by
  split
  · rename_i small
    have more := when.mp small
    rw [SFBitArray.setLength, if_neg (by omega)]
    split
    · exact ⟨(max_eq_right more.le).symm, fun m => bitAt_append_zeros _⟩
    · exact ⟨(max_eq_right more.le).symm, fun m => rfl⟩
  · rename_i large
    exact ⟨(max_eq_left (not_lt.mp fun more => large (when.mpr more))).symm, fun m => rfl⟩

section Calls

variable {nBit nStartBit nEndBit : Nat} {src : SFBitArray}

theorem setRange_merged (nStartBit nEndBit : Nat) (short : Short a) : Merged (· || ·) a (nEndBit / 8 + 1)
    (.Icc nStartBit nEndBit) (a.setRange nStartBit nEndBit) := by
  have ⟨size, bits⟩ := enlarge (a := a) (k := nEndBit / 8 + 1)
    (c := (nEndBit : Int) ≥ bitLength a.nLength) (by rw [bitLength_eq short]; omega)
  refine ⟨size, fun m _ => ?_, rfl⟩
  have room := (if (nEndBit : Int) ≥ bitLength a.nLength then a.setLength (nEndBit / 8 + 1)
    else a).within
  refine (foldl_setBit (nodup_bitRange _ _) fun n member => ?_).trans ?_
  · have := (mem_bitRange.mp member).2
    omega
  · simp only [bits, mem_bitRange, Finset.mem_Icc, Int.ofNat_le]

theorem xOrRange_merged (nStartBit nEndBit : Nat) (short : Short a) : Merged (· ^^ ·) a (nEndBit / 8 + 1)
    (.Icc nStartBit nEndBit) (a.xOrRange nStartBit nEndBit) := by
  have ⟨size, bits⟩ := enlarge (a := a) (k := nEndBit / 8 + 1)
    (c := (nEndBit : Int) ≥ bitLength a.nLength) (by rw [bitLength_eq short]; omega)
  refine ⟨size, fun m _ => ?_, rfl⟩
  have room := (if (nEndBit : Int) ≥ bitLength a.nLength then a.setLength (nEndBit / 8 + 1)
    else a).within
  refine (foldl_xOrBit (nodup_bitRange _ _) fun n member => ?_).trans ?_
  · have := (mem_bitRange.mp member).2
    omega
  · simp only [bits, mem_bitRange, Finset.mem_Icc, Int.ofNat_le]

theorem bitRange_single : bitRange nBit nBit = [nBit] := by
  rw [bitRange, show ((nBit : Int) + 1 - nBit).toNat = 1 by omega]
  rfl

/-- One position is a range. -/
theorem setAt_eq : a.setAt nBit = a.setRange nBit nBit := by
  simp only [SFBitArray.setAt, SFBitArray.setRange, bitRange_single, List.foldl_cons,
    List.foldl_nil, Nat.shiftRight_eq_div_pow, Nat.reducePow]

theorem xOrAt_eq : a.xOrAt nBit = a.xOrRange nBit nBit := by
  simp only [SFBitArray.xOrAt, SFBitArray.xOrRange, bitRange_single, List.foldl_cons,
    List.foldl_nil, Nat.shiftRight_eq_div_pow, Nat.reducePow]

theorem resetRange_merged (nStartBit nEndBit : Nat) (short : Short a) : Merged (fun x y => x && !y) a 0
    (.Icc nStartBit nEndBit) (a.resetRange nStartBit nEndBit) := by
  refine ⟨(Nat.max_zero _).symm, fun m below => ?_, rfl⟩
  have below : m < 8 * a.nLength := below
  have room := a.within
  have last := bitLength_eq short
  refine (foldl_resetBit (nodup_bitRange _ _) fun n member => ?_).trans ?_
  · have := (mem_bitRange.mp member).2
    split at this <;> omega
  · have same : m ∈ bitRange nStartBit (if (nEndBit : Int) ≥ bitLength a.nLength
        then bitLength a.nLength - 1 else nEndBit) ↔ m ∈ Finset.Icc nStartBit nEndBit := by
      rw [mem_bitRange, Finset.mem_Icc]
      split <;> omega
    simp only [same]

theorem resetAt_eq : a.resetAt nBit = a.resetRange nBit nBit := by
  simp only [SFBitArray.resetAt, SFBitArray.resetRange]
  by_cases inside : (nBit : Int) < bitLength a.nLength
  · simp only [inside, not_le.mpr inside, if_true, if_false, bitRange_single,
      List.foldl_cons, List.foldl_nil]
  · have empty : bitRange nBit (bitLength a.nLength - 1) = [] := by
      rw [bitRange, show (bitLength a.nLength - 1 + 1 - nBit).toNat = 0 by omega]
      rfl
    simp only [inside, not_lt.mp inside, if_true, if_false, empty, List.foldl_nil]
    rfl

theorem combine_bits {op : BYTE → BYTE → BYTE} {g : Bool → Bool → Bool}
    (acts : ∀ x y i, i < 8 → (op x y).getLsbD i = g (x.getLsbD i) (y.getLsbD i))
    (inside : n ≤ buffer.length) : bitAt (SFBitArray.combine op src.buffer n buffer) m =
      if m < 8 * n then g (bitAt buffer m) (bitAt src.buffer m) else bitAt buffer m :=
  bitAt_foldl_zip acts inside

theorem orAssign_merged (a src : SFBitArray) : Merged (· || ·) a src.nLength (shown src) (a.orAssign src) := by
  have ⟨size, bits⟩ := enlarge (a := a) (k := src.nLength) .rfl
  refine ⟨size, fun m _ => ?_, rfl⟩
  have room := (if a.nLength < src.nLength then a.setLength src.nLength else a).within
  refine (combine_bits (fun x y i _ => BitVec.getLsbD_or) (by omega)).trans ?_
  rw [bits]
  split
  · rename_i below
    simp [mem_shown, below]
  · rename_i above
    simp [mem_shown, above]

theorem xOrAssign_merged (a src : SFBitArray) : Merged (· ^^ ·) a src.nLength (shown src) (a.xOrAssign src) := by
  have ⟨size, bits⟩ := enlarge (a := a) (k := src.nLength) .rfl
  refine ⟨size, fun m _ => ?_, rfl⟩
  have room := (if a.nLength < src.nLength then a.setLength src.nLength else a).within
  refine (combine_bits (fun x y i _ => BitVec.getLsbD_xor) (by omega)).trans ?_
  rw [bits]
  split
  · rename_i below
    simp [mem_shown, below]
  · rename_i above
    simp [mem_shown, above]

theorem trimmed_zero (buffer : List BYTE) {k : Nat} (low : SFBitArray.trimmed buffer n ≤ k)
    (high : k < n) : buffer.getD k 0 = 0 := by
  induction n with
  | zero => exact absurd high (Nat.not_lt_zero k)
  | succ n ih =>
      rw [SFBitArray.trimmed] at low
      split at low
      · rename_i zero
        rcases Nat.lt_succ_iff_lt_or_eq.mp high with lower | rfl
        · exact ih low lower
        · exact zero
      · omega

theorem shown_trim : shown a.trim = shown a := by
  ext m
  rw [mem_shown, mem_shown]
  have le := SFBitArray.trimmed_le a.buffer a.nLength
  refine ⟨fun ⟨low, bit⟩ => ⟨?_, bit⟩, fun ⟨low, bit⟩ => ⟨?_, bit⟩⟩
  · exact low.trans_le (Nat.mul_le_mul_left 8 le)
  · by_contra high
    have high : ¬m < 8 * SFBitArray.trimmed a.buffer a.nLength := high
    have zero := trimmed_zero a.buffer (n := a.nLength) (k := m / 8) (by omega) (by omega)
    rw [bitAt, zero] at bit
    simp at bit

theorem shown_empty (empty : a.nLength = 0) : shown a = ∅ := by
  refine Finset.eq_empty_of_forall_notMem fun m member => ?_
  have := (mem_shown.mp member).1
  omega

theorem andAssign_shown (a src : SFBitArray) : shown (a.andAssign src) = shown a ∩ shown src ∧
    (a.andAssign src).nCount = -1 ∧ (a.andAssign src).nLength ≤ a.nLength := by
  let shorter : SFBitArray :=
    { a with nLength := min a.nLength src.nLength, within := (min_le_left ..).trans a.within }
  let masked := shorter.write (SFBitArray.combine (· &&& ·) src.buffer shorter.nLength)
    (SFBitArray.length_combine _ _ _)
  have common : shown masked = shown a ∩ shown src := by
    ext m
    have size : masked.nLength = min a.nLength src.nLength := rfl
    rw [Finset.mem_inter, mem_shown, mem_shown, mem_shown, size]
    have shorter_le : shorter.nLength = min a.nLength src.nLength := rfl
    have masks : bitAt masked.buffer m =
        if m < 8 * shorter.nLength then bitAt a.buffer m && bitAt src.buffer m
          else bitAt a.buffer m :=
      combine_bits (fun x y i _ => BitVec.getLsbD_and) shorter.within
    rw [masks]
    by_cases below : m < 8 * shorter.nLength
    · rw [if_pos below, Bool.and_eq_true]
      have both : m < 8 * a.nLength ∧ m < 8 * src.nLength := by omega
      simp only [both, true_and, ← shorter_le, below]
    · rw [← shorter_le]
      refine iff_of_false (fun inside => below inside.1) fun both => below ?_
      have := both.1.1
      have := both.2.1
      omega
  rw [← common, ← shown_trim (a := masked)]
  have size : masked.trim.nLength ≤ a.nLength :=
    (SFBitArray.trimmed_le _ _).trans (min_le_left ..)
  have is : a.andAssign src =
      (if masked.trim.nLength = 0 then SFBitArray.freeBuffer else masked.trim).setModified := rfl
  rw [is]
  split
  · rename_i empty
    exact ⟨(shown_empty rfl).trans (shown_empty empty).symm, rfl, Nat.zero_le _⟩
  · exact ⟨rfl, rfl, size⟩

theorem setLength_shown {k : Nat} (positive : k ≠ 0) : (a.setLength k).nLength = k ∧
    (∀ m, bitAt (a.setLength k).buffer m = bitAt a.buffer m) ∧
      (a.setLength k).nCount = a.nCount := by
  rw [SFBitArray.setLength, if_neg positive]
  split
  · exact ⟨rfl, fun m => bitAt_append_zeros _, rfl⟩
  · exact ⟨rfl, fun m => rfl, rfl⟩

end Calls

/-! ## Runs of calls -/

variable {r : BitRun} {call : Nat × BitCall}

/-- Lengths can be counted in bits. -/
structure Shows (r : BitRun) : Prop where
  short : ∀ i, Short (r.arrays i)
  sets : ∀ i, shown (r.arrays i) = r.sets i
  counts : ∀ i, Counts (r.arrays i)

theorem represents_iff (short : ∀ i, Short (r.arrays i)) : r.Represents ↔ Shows r := by
  constructor
  · intro represents
    have sets (i : Nat) : shown (r.arrays i) = r.sets i := by
      ext n
      have at_ := (represents i).1 n
      rw [getAt_eq (short i)] at at_
      exact decide_eq_decide.mp at_
    exact ⟨short, sets, fun i => getCount_eq_iff.mp (by rw [(represents i).2, sets])⟩
  · intro shows i
    refine ⟨fun n => ?_, ?_⟩
    · rw [getAt_eq (short i), shows.sets]
    · rw [getCount_eq_iff.mpr (shows.counts i), shows.sets]

/-- The array that is called shows the new set and keeps no wrong count. -/
theorem step_represents_iff (shows : Shows r)
    (short : Short (r.array call.1 call.2)) : (r.step call).Represents ↔
      shown (r.array call.1 call.2) = r.set call.1 call.2 ∧ Counts (r.array call.1 call.2) := by
  have shortAll (i : Nat) : Short ((r.step call).arrays i) := by
    simp only [BitRun.step, Function.update_apply]
    split
    · exact short
    · exact shows.short i
  rw [represents_iff shortAll]
  constructor
  · intro shows'
    have sets := shows'.sets call.1
    have counts := shows'.counts call.1
    simp only [BitRun.step, Function.update_self] at sets counts
    exact ⟨sets, counts⟩
  · rintro ⟨set, counts⟩
    refine ⟨shortAll, fun i => ?_, fun i => ?_⟩ <;>
      simp only [BitRun.step, Function.update_apply] <;> split
    · exact set
    · exact shows.sets i
    · exact counts
    · exact shows.counts i

theorem mem_symmDiff_iff {S T : Finset Nat} :
    m ∈ S ∆ T ↔ (decide (m ∈ S) ^^ decide (m ∈ T)) = true := by
  rw [Finset.mem_symmDiff]
  by_cases left : m ∈ S <;> by_cases right : m ∈ T <;> simp [left, right]

theorem xor_flips (b : Bool) : (true ^^ b) = (false ^^ b) ↔ False := by
  cases b <;> simp

/-- What a call has to meet besides `Fits`, where it enlarges the array and combines. -/
theorem Merged.clean_iff {op : Bool → Bool → Bool} {i : Nat} {c : BitCall} {T : Finset Nat}
    (merged : Merged op (r.arrays i) (r.requested c) T (r.array i c))
    (other : ∀ k, c ≠ .setLength k)
    (result : ∀ m, m ∈ r.set i c ↔ op (decide (m ∈ shown (r.arrays i))) (decide (m ∈ T)) = true)
    (inside : ∀ m, 8 * max (r.arrays i).nLength (r.requested c) ≤ m →
      op false (decide (m ∈ T)) = false)
    (covers : ∀ m, m < 8 * r.requested c →
      (op true (decide (m ∈ T)) = op false (decide (m ∈ T)) ↔ r.Covers c m)) :
    shown (r.array i c) = r.set i c ∧ Counts (r.array i c) ↔ r.Clean (i, c) := by
  rw [and_iff_left (.inl merged.nCount), merged.shown_iff result inside]
  constructor
  · intro hidden
    refine ⟨fun m low high bit => ?_, fun k is => absurd is (other k)⟩
    rw [getBit_eq] at bit
    exact (covers m high).mp (hidden m low high bit)
  · intro clean m low high bit
    exact (covers m high).mpr (clean.exposes m low high (by rw [getBit_eq]; exact bit))

theorem setLength_clean_iff (shows : Shows r) (i k : Nat) :
    shown (r.array i (.setLength k)) = r.set i (.setLength k) ∧ Counts (r.array i (.setLength k)) ↔
      r.Clean (i, .setLength k) := by
  rw [BitRun.array, BitRun.set, ← shows.sets i]
  by_cases positive : k = 0
  · subst positive
    rw [SFBitArray.setLength, if_pos rfl]
    refine iff_of_true ⟨?_, .inl rfl⟩ ⟨fun m _ high => absurd high (by simp [BitRun.requested]), ?_⟩
    · rw [shown_empty rfl]
      simp
    · rintro k is positive
      cases is
      exact absurd rfl positive
  · obtain ⟨nLength, bits, nCount⟩ := setLength_shown (a := r.arrays i) positive
    have visible (m : Nat) : m ∈ shown ((r.arrays i).setLength k) ↔
        m < 8 * k ∧ bitAt (r.arrays i).buffer m = true := by
      rw [mem_shown, nLength, bits]
    have subset : (shown (r.arrays i)).filter (· < 8 * k) ⊆ shown ((r.arrays i).setLength k) := by
      intro m member
      obtain ⟨member, low⟩ := Finset.mem_filter.mp member
      exact (visible m).mpr ⟨low, (mem_shown.mp member).2⟩
    have same : shown ((r.arrays i).setLength k) = (shown (r.arrays i)).filter (· < 8 * k) ↔
        ∀ m, 8 * (r.arrays i).nLength ≤ m → m < 8 * k → bitAt (r.arrays i).buffer m = false := by
      constructor
      · intro same m above below
        cases bit : bitAt (r.arrays i).buffer m with
        | false => rfl
        | true =>
            have member := (visible m).mpr ⟨below, bit⟩
            rw [same] at member
            have := (mem_shown.mp (Finset.mem_filter.mp member).1).1
            omega
      · intro hidden
        refine (subset.antisymm fun m member => ?_).symm
        obtain ⟨low, bit⟩ := (visible m).mp member
        refine Finset.mem_filter.mpr ⟨mem_shown.mpr ⟨?_, bit⟩, low⟩
        by_contra above
        rw [hidden m (by omega) low] at bit
        contradiction
    have old := shows.counts i
    constructor
    · rintro ⟨shown', counts⟩
      refine ⟨fun m above below bit => ?_, ?_⟩
      · rw [getBit_eq, same.mp shown' m above below] at bit
        contradiction
      · rintro k' is - kept m member
        cases is
        rw [← shows.sets i] at member
        rw [Counts, nCount, or_iff_right kept, shown'] at counts
        rw [Counts, or_iff_right kept, counts] at old
        exact Finset.card_filter_eq_iff.mp (Int.ofNat_inj.mp old) m member
    · intro clean
      have shown' := same.mpr fun m above below => by
        cases bit : bitAt (r.arrays i).buffer m with
        | false => rfl
        | true => exact (clean.exposes m above below (by rw [getBit_eq]; exact bit)).elim
      refine ⟨shown', ?_⟩
      by_cases kept : (r.arrays i).nCount = -1
      · exact .inl (nCount.trans kept)
      · have below := clean.cuts k rfl positive kept
        rw [Counts, or_iff_right kept] at old
        rw [← shows.sets i] at below
        rw [Counts, nCount, shown', Finset.filter_true_of_mem below]
        exact .inr old

theorem call_clean_iff (shows : Shows r) (i : Nat) (c : BitCall) (fits : r.Fits (i, c)) :
    Short (r.array i c) ∧
      (shown (r.array i c) = r.set i c ∧ Counts (r.array i c) ↔ r.Clean (i, c)) := by
  have short := shows.short i
  have sets := shows.sets i
  have grows {op : Bool → Bool → Bool} {T : Finset Nat}
      (merged : Merged op (r.arrays i) (r.requested c) T (r.array i c)) : Short (r.array i c) := by
    rw [Short, merged.nLength]
    exact max_lt short fits
  cases c with
  | setAt nBit =>
      have merged := setRange_merged nBit nBit short
      rw [← setAt_eq] at merged
      refine ⟨grows merged, merged.clean_iff (fun _ => by simp) (fun m => ?_) (fun m high => ?_)
        fun m _ => ?_⟩
      · simp [BitRun.set, sets, or_comm]
      · simp [BitRun.requested] at high ⊢
        omega
      · simp [BitRun.Covers]
  | resetAt nBit =>
      have merged := resetRange_merged nBit nBit short
      rw [← resetAt_eq] at merged
      refine ⟨grows merged, merged.clean_iff (fun _ => by simp) (fun m => ?_) (fun m high => rfl)
        fun m high => absurd high (by simp [BitRun.requested])⟩
      simp [BitRun.set, sets, and_comm]
  | xOrAt nBit =>
      have merged := xOrRange_merged nBit nBit short
      rw [← xOrAt_eq] at merged
      refine ⟨grows merged, merged.clean_iff (fun _ => by simp) (fun m => ?_) (fun m high => ?_)
        fun m _ => ?_⟩
      · rw [BitRun.set, sets, ← Finset.Icc_self, mem_symmDiff_iff]
      · simp [BitRun.requested] at high ⊢
        omega
      · exact xor_flips _
  | setRange nStartBit nEndBit =>
      have merged := setRange_merged nStartBit nEndBit short
      refine ⟨grows merged, merged.clean_iff (fun _ => by simp) (fun m => ?_) (fun m high => ?_)
        fun m _ => ?_⟩
      · simp [BitRun.set, sets]
      · simp [BitRun.requested] at high ⊢
        omega
      · simp [BitRun.Covers]
  | resetRange nStartBit nEndBit =>
      have merged := resetRange_merged nStartBit nEndBit short
      refine ⟨grows merged, merged.clean_iff (fun _ => by simp) (fun m => ?_) (fun m high => rfl)
        fun m high => absurd high (by simp [BitRun.requested])⟩
      rw [BitRun.set, Finset.mem_sdiff, sets]
      by_cases gone : m ∈ Finset.Icc nStartBit nEndBit <;> simp only [gone] <;> simp
  | xOrRange nStartBit nEndBit =>
      have merged := xOrRange_merged nStartBit nEndBit short
      refine ⟨grows merged, merged.clean_iff (fun _ => by simp) (fun m => ?_) (fun m high => ?_)
        fun m _ => ?_⟩
      · rw [BitRun.set, sets, mem_symmDiff_iff]
      · simp [BitRun.requested] at high ⊢
        omega
      · exact xor_flips _
  | orAssign src =>
      have merged := orAssign_merged (r.arrays i) (r.arrays src)
      refine ⟨grows merged, merged.clean_iff (fun _ => by simp) (fun m => ?_) (fun m high => ?_)
        fun m _ => ?_⟩
      · simp [BitRun.set, shows.sets]
      · simp [BitRun.requested, mem_shown] at high ⊢
        omega
      · simp [BitRun.Covers, getAt_eq (shows.short src)]
  | andAssign src =>
      obtain ⟨common, nCount, nLength⟩ := andAssign_shown (r.arrays i) (r.arrays src)
      refine ⟨nLength.trans_lt short, iff_of_true ⟨?_, .inl nCount⟩ ⟨fun m _ high => ?_, ?_⟩⟩
      · rw [BitRun.array, common, sets, shows.sets, BitRun.set]
      · exact absurd high (by simp [BitRun.requested])
      · simp
  | xOrAssign src =>
      have merged := xOrAssign_merged (r.arrays i) (r.arrays src)
      refine ⟨grows merged, merged.clean_iff (fun _ => by simp) (fun m => ?_) (fun m high => ?_)
        fun m _ => ?_⟩
      · rw [BitRun.set, shows.sets, shows.sets, mem_symmDiff_iff]
      · simp [BitRun.requested, mem_shown] at high ⊢
        omega
      · exact xor_flips _
  | setLength k =>
      refine ⟨?_, setLength_clean_iff shows i k⟩
      by_cases positive : k = 0
      · subst positive
        rw [BitRun.array, SFBitArray.setLength, if_pos rfl]
        exact Nat.two_pow_pos 28
      · exact (setLength_shown positive).1.trans_lt fits
  | getCount =>
      have keeps : shown (r.array i .getCount) = shown (r.arrays i) ∧
          (r.array i .getCount).nLength = (r.arrays i).nLength := by
        rw [BitRun.array, SFBitArray.getCount]
        split <;> exact ⟨rfl, rfl⟩
      refine ⟨keeps.2.trans_lt short, iff_of_true ⟨keeps.1.trans sets, ?_⟩ ?_⟩
      · rw [Counts, keeps.1]
        refine .inr ?_
        rw [← getCount_eq_iff.mpr (shows.counts i), BitRun.array, SFBitArray.getCount]
        split <;> rfl
      · exact ⟨fun m _ high => absurd high (by simp [BitRun.requested]), by simp⟩

/-- A call that fits keeps the sets just when it is clean. -/
theorem step_clean_iff (shows : Shows r) (fits : r.Fits call) :
    (r.step call).Represents ↔ r.Clean call := by
  have ⟨short, clean⟩ := call_clean_iff shows call.1 call.2 fits
  rw [step_represents_iff shows short, clean]

theorem step_short (shows : Shows r) (fits : r.Fits call) (i : Nat) :
    Short ((r.step call).arrays i) := by
  simp only [BitRun.step, Function.update_apply]
  split
  · exact (call_clean_iff shows call.1 call.2 fits).1
  · exact shows.short i

theorem empty_shows : Shows {} :=
  ⟨fun _ => Nat.two_pow_pos 28, fun _ => shown_empty rfl, fun _ => .inl rfl⟩

theorem run_shows {calls : List (Nat × BitCall)}
    (run : Run (Guarded (fun r call => r.Fits call ∧ r.Clean call) BitRun.Steps) {} calls r) :
    Shows r := by
  apply run.invariant empty_shows
  rintro r call _ shows ⟨⟨fits, clean⟩, rfl⟩
  exact (represents_iff (step_short shows fits)).mp ((step_clean_iff shows fits).mpr clean)

theorem run_represents_sets {calls : List (Nat × BitCall)}
    (run : Run (Guarded (fun r call => r.Fits call ∧ r.Clean call) BitRun.Steps) {} calls r) :
    r.Represents ∧ ∀ call, r.Fits call → ((r.step call).Represents ↔ r.Clean call) := by
  have shows := run_shows run
  exact ⟨(represents_iff shows.short).mpr shows, fun call => step_clean_iff shows⟩

/-- One array is shortened and enlarged again when nothing is left behind its length. -/
def clearedFirst : List (Nat × BitCall) :=
  [(0, .setRange 3 9), (0, .getCount), (0, .resetRange 8 20), (0, .setLength 1), (0, .setAt 14),
    (1, .xOrAt 30), (1, .orAssign 0), (0, .andAssign 1), (1, .xOrAssign 0)]

set_option maxRecDepth 20000 in
theorem clearedFirst_represents : ∃ r : BitRun, r.sets 0 = {3, 4, 5, 6, 7, 14} ∧
    r.sets 1 = {30} ∧ r.Represents ∧
      ∀ call, r.Fits call → ((r.step call).Represents ↔ r.Clean call) := by
  have plays : (clearedFirst.foldlM (fun r call => if r.Fits call ∧ r.Clean call
      then some (r.step call) else none) ({} : BitRun)).map (fun r => (r.sets 0, r.sets 1)) =
        some ({3, 4, 5, 6, 7, 14}, {30}) := by
    decide
  obtain ⟨r, result, sets⟩ := Option.map_eq_some_iff.mp plays
  obtain ⟨first, second⟩ := Prod.mk.inj sets
  have run := Run.guarded_of_foldlM _ (fun r call => some (BitRun.step r call)) clearedFirst result
  refine ⟨r, first, second, run_represents_sets (run.mono ?_)⟩
  exact fun _ _ _ step => ⟨step.1, Option.some.inj step.2⟩

/-- A bit that `SetLength` cuts off is back when the array grows. -/
def shortened : List (Nat × BitCall) := [(0, .setAt 9), (0, .setLength 1), (0, .setLength 2)]

set_option maxRecDepth 20000 in
theorem shortened_reappears : ∃ r : BitRun, Run BitRun.Steps {} shortened r ∧
    r.sets 0 = ∅ ∧ (r.arrays 0).getAt 9 = true ∧ ¬r.Represents := by
  have plays : (shortened.foldl BitRun.step {}).sets 0 = ∅ ∧
      ((shortened.foldl BitRun.step {}).arrays 0).getAt 9 = true := by
    decide
  have run : Run BitRun.Steps {} shortened (shortened.foldl BitRun.step {}) := .of_foldl ..
  generalize shortened.foldl BitRun.step {} = r at plays run
  refine ⟨r, run, plays.1, plays.2, fun represents => ?_⟩
  have shows := (represents 0).1 9
  rw [plays.1, plays.2] at shows
  contradiction

end Cgsf.Proof.BaseLayer
