import Cgsf.BaseLayer.BitRanges
import Cgsf.Library.Windows
import Cgsf.Proof.BaseLayer.SFBitArray

/-!
# The range functions and the bits one by one
-/

namespace Cgsf.Proof.BaseLayer
open Cgsf.BaseLayer Library

variable {a src : BitArray} {s e k n m : Nat}

theorem getAt_plain (plain : a.bCompressed = false) (n : Nat) :
    a.getAt n = some (a.toSFBitArray.getAt n) := by
  rw [BitArray.getAt, plain]
  rfl

theorem rangeBits_eq (plain : a.bCompressed = false) :
    a.rangeBits s e = stretch a.toSFBitArray.getAt s (e + 1) := by
  unfold BitArray.rangeBits stretch
  simp [getAt_plain plain]

theorem rangeClear_iff (plain : a.bCompressed = false) :
    a.RangeClear s e ↔ stretch a.toSFBitArray.getAt s e = [] := by
  rw [stretch_eq_nil_iff]
  simp [BitArray.RangeClear, getAt_plain plain]

theorem byteClear_iff (plain : a.bCompressed = false) :
    a.ByteClear k ↔ stretch a.toSFBitArray.getAt (8 * k) (8 * (k + 1)) = [] := by
  rw [stretch_eq_nil_iff]
  simp only [BitArray.ByteClear, getAt_plain plain, ne_eq, Option.some.injEq, Bool.not_eq_true]
  constructor
  · intro clear n low high
    exact clear n (by omega)
  · intro clear n place
    exact clear n (by omega) (by omega)

/-! ## The loops -/

theorem positions_eq (fits : e < 2 ^ 31) : BitArray.positions s e = some (List.range' s (e - s)) := by
  rw [BitArray.positions, asInt, if_pos fits]
  rfl

theorem positions_none (unfit : ¬e < 2 ^ 31) : BitArray.positions s e = none := by
  rw [BitArray.positions, asInt, if_neg unfit]
  rfl

/-- The first byte that is gone through as a whole. -/
abbrev wholeByte (s : Nat) : Nat := s / 8 + BitArray.bFirstByte s

theorem bFirstByte_eq (s : Nat) : BitArray.bFirstByte s = if s % 8 = 0 then 0 else 1 := by
  have low : (s &&& 7) = s % 8 := Nat.and_two_pow_sub_one_eq_mod s 3
  rw [BitArray.bFirstByte, low]
  split_ifs <;> simp_all

theorem firstPositions_eq (fits : s % 8 ≠ 0 → (s / 8 + 1) * 8 < 2 ^ 31) :
    BitArray.firstPositions s = some (List.range' s (8 * wholeByte s - s)) := by
  rw [BitArray.firstPositions, wholeByte, bFirstByte_eq]
  by_cases whole : s % 8 = 0
  · have none : 8 * (s / 8) - s = 0 := by omega
    simp [whole, none]
  · simp only [whole, if_false, ne_eq, one_ne_zero, not_false_eq_true, if_true]
    rw [positions_eq (fits whole), Nat.mul_comm]

theorem firstPositions_none (begins : s % 8 ≠ 0) (unfit : ¬(s / 8 + 1) * 8 < 2 ^ 31) :
    BitArray.firstPositions s = none := by
  rw [BitArray.firstPositions, bFirstByte_eq, if_neg begins, if_pos one_ne_zero, positions_none unfit]

theorem countBits_eq (plain : a.bCompressed = false) (ns : List Nat) (c : Nat) :
    a.countBits ns c = some (c + (ns.filter a.toSFBitArray.getAt).length) := by
  induction ns generalizing c with
  | nil => rfl
  | cons n ns ih =>
      have step : a.countBits (n :: ns) c =
          a.countBits ns (if a.toSFBitArray.getAt n then c + 1 else c) := by
        unfold BitArray.countBits
        rw [List.foldlM_cons, getAt_plain plain]
        rfl
      rw [step, ih]
      cases set : a.toSFBitArray.getAt n
      · simp [set]
      · simp [set]
        omega

theorem listBits_eq (plain : a.bCompressed = false) (ns : List Nat) (r : Nat × List Nat) :
    a.listBits ns r = some (r.1 + (ns.filter a.toSFBitArray.getAt).length,
      r.2 ++ ns.filter a.toSFBitArray.getAt) := by
  induction ns generalizing r with
  | nil => simp [BitArray.listBits]
  | cons n ns ih =>
      have step : a.listBits (n :: ns) r =
          a.listBits ns (if a.toSFBitArray.getAt n then BitArray.push r n else r) := by
        unfold BitArray.listBits
        rw [List.foldlM_cons, getAt_plain plain]
        rfl
      rw [step, ih]
      cases set : a.toSFBitArray.getAt n
      · simp [set]
      · simp [set, BitArray.push]
        omega

theorem byteCount_eq (byte : BYTE) :
    (if byte ≠ 0 then k + BitArray.byteCount byte else k) = k + popCount byte := by
  have all : ∀ byte : BYTE, (if byte ≠ 0 then BitArray.byteCount byte else 0) = popCount byte := by
    decide
  rw [← all byte]
  split <;> rfl

theorem byteAt_inside (inside : k < a.nLength) : a.byteAt k = some (a.buffer.getD k 0) := by
  have room := a.within
  rw [BitArray.byteAt, if_pos inside, List.getD_eq_getElem _ _ (by omega),
    List.getElem?_eq_getElem (by omega)]

theorem byteAt_outside (outside : ¬k < a.nLength) : a.byteAt k = none := if_neg outside

theorem countBytes_cons {ks : List Nat} {c : Nat} (inside : k < a.nLength) :
    a.countBytes (k :: ks) c = a.countBytes ks (c + popCount (a.buffer.getD k 0)) := by
  unfold BitArray.countBytes
  rw [List.foldlM_cons, byteAt_inside inside, ← byteCount_eq]
  rfl

theorem countBytes_eq {c : Nat} (inside : ∀ j ∈ List.range' k n, j < a.nLength) :
    a.countBytes (List.range' k n) c =
      some (c + (stretch (bitAt a.buffer) (8 * k) (8 * (k + n))).length) := by
  induction n generalizing k c with
  | zero =>
      rw [stretch_of_le (by omega)]
      rfl
  | succ n ih =>
      rw [List.range'_succ, List.forall_mem_cons] at inside
      rw [List.range'_succ, countBytes_cons inside.1, ih inside.2, stretch_bytes_succ,
        List.length_append, length_stretch_byte, Nat.add_assoc]

theorem countBytes_none {c : Nat} (outside : ¬∀ j ∈ List.range' k n, j < a.nLength) :
    a.countBytes (List.range' k n) c = none := by
  induction n generalizing k c with
  | zero => exact absurd (List.forall_mem_nil _) outside
  | succ n ih =>
      rw [List.range'_succ, List.forall_mem_cons] at outside
      rw [List.range'_succ]
      by_cases here : k < a.nLength
      · rw [countBytes_cons here]
        exact ih fun rest => outside ⟨here, rest⟩
      · unfold BitArray.countBytes
        rw [List.foldlM_cons, byteAt_outside here]
        rfl

theorem byteLoop_eq {σ : Type} (body : σ → Nat → σ) {fuel : Nat} {byte : BYTE} (r : σ)
    (small : byte.toNat < 2 ^ fuel) : BitArray.byteLoop body fuel byte n r =
      ((List.range' n fuel).filter fun i => byte.getLsbD (i - n)).foldl body r := by
  induction fuel generalizing byte n r with
  | zero => rfl
  | succ fuel ih =>
      rw [BitArray.byteLoop, List.range'_succ]
      split
      · have half : (byte >>> 1).toNat < 2 ^ fuel := by
          rw [BitVec.toNat_ushiftRight, Nat.shiftRight_eq_div_pow]
          omega
        have bit : (byte &&& 1 ≠ 0) = (byte.getLsbD 0 = true) := by
          have all : ∀ byte : BYTE, (byte &&& 1 ≠ 0) = (byte.getLsbD 0 = true) := by decide
          exact all byte
        have rest : (List.range' (n + 1) fuel).filter (fun i => byte.getLsbD (i - n)) =
            (List.range' (n + 1) fuel).filter fun i => (byte >>> 1).getLsbD (i - (n + 1)) := by
          apply List.filter_congr
          intro i member
          have place := List.mem_range'_1.mp member
          rw [BitVec.getLsbD_ushiftRight]
          congr 1
          omega
        rw [ih _ half, List.filter_cons, Nat.sub_self, rest]
        simp only [bit]
        split
        · rfl
        · rfl
      · rename_i zero
        have zero := not_not.mp zero
        rw [zero]
        simp

theorem byteLoop_guard {σ : Type} (body : σ → Nat → σ) (byte : BYTE) (n : Nat) (r : σ) :
    (if byte ≠ 0 then BitArray.byteLoop body 8 byte n r else r) = BitArray.byteLoop body 8 byte n r := by
  split
  · rfl
  · rename_i zero
    rw [BitArray.byteLoop, if_neg zero]

theorem foldl_push (ns : List Nat) (r : Nat × List Nat) :
    ns.foldl BitArray.push r = (r.1 + ns.length, r.2 ++ ns) := by
  induction ns generalizing r with
  | nil => simp
  | cons n ns ih =>
      rw [List.foldl_cons, ih]
      simp [BitArray.push]
      omega

theorem listBytes_eq {r : Nat × List Nat} (inside : ∀ j ∈ List.range' k n, j < a.nLength) :
    a.listBytes (List.range' k n) r =
      some (r.1 + (stretch (bitAt a.buffer) (8 * k) (8 * (k + n))).length,
        r.2 ++ stretch (bitAt a.buffer) (8 * k) (8 * (k + n))) := by
  induction n generalizing k r with
  | zero =>
      rw [stretch_of_le (by omega)]
      simp [BitArray.listBytes]
  | succ n ih =>
      rw [List.range'_succ, List.forall_mem_cons] at inside
      have step : a.listBytes (k :: List.range' (k + 1) n) r = a.listBytes (List.range' (k + 1) n)
          ((stretch (bitAt a.buffer) (8 * k) (8 * (k + 1))).foldl BitArray.push r) := by
        have loop := byteLoop_eq (n := 8 * k) BitArray.push r (a.buffer.getD k 0).isLt
        rw [← stretch_byte] at loop
        have place : k <<< 3 = 8 * k := by rw [Nat.shiftLeft_eq, Nat.mul_comm]
        rw [← byteLoop_guard, ← place] at loop
        unfold BitArray.listBytes
        rw [List.foldlM_cons, byteAt_inside inside.1, ← place, ← loop]
        rfl
      rw [List.range'_succ, step, foldl_push, ih inside.2, stretch_bytes_succ _ k n, List.length_append,
        List.append_assoc, Nat.add_assoc]

/-! ## GetRangeCount -/

theorem le_wholeByte (s : Nat) : s ≤ 8 * wholeByte s := by
  rw [wholeByte, bFirstByte_eq]
  split <;> omega

/-- The range ends in its first byte, or has only whole bytes between the first and the last. -/
theorem insideByte_iff (le : s ≤ e) : BitArray.InsideByte s e ↔ e / 8 < wholeByte s := by
  rw [BitArray.InsideByte, wholeByte, bFirstByte_eq]
  split <;> omega

theorem middleBytes_eq (s e : Nat) :
    BitArray.middleBytes s e = List.range' (wholeByte s) (e - wholeByte s) := rfl

theorem mem_middleBytes : k ∈ BitArray.middleBytes s e ↔ wholeByte s ≤ k ∧ k < e := by
  rw [middleBytes_eq, List.mem_range'_1]
  omega

theorem bitAt_of_getAt {a : SFBitArray} (set : a.getAt n = true) : bitAt a.buffer n = true := by
  rw [SFBitArray.getAt, getBit_eq] at set
  split at set
  · cases set
  · exact set

/-- The bits of a byte, cut where a range inside it begins and ends. -/
theorem stretch_insideByte (p : Nat → Bool) (le : s ≤ e) (inside : e / 8 = s / 8) :
    (stretch p s (8 * (s / 8 + 1))).length + (stretch p (e / 8 * 8) (e + 1)).length =
      (stretch p s (e + 1)).length + (stretch p (8 * (s / 8)) (8 * (s / 8 + 1))).length := by
  have first := stretch_append p (show 8 * (s / 8) ≤ s by omega) (show s ≤ e + 1 by omega)
  have both := stretch_append p (show 8 * (s / 8) ≤ e + 1 by omega)
    (show e + 1 ≤ 8 * (s / 8 + 1) by omega)
  have last := stretch_append p (show s ≤ e + 1 by omega) (show e + 1 ≤ 8 * (s / 8 + 1) by omega)
  rw [inside, Nat.mul_comm (s / 8), ← both, ← last, ← first]
  simp only [List.length_append]
  omega

theorem countsRange_iff (plain : a.bCompressed = false) (le : s ≤ e) :
    a.CountsRange s e ↔ a.CountsWell s e := by
  rw [BitArray.CountsRange, rangeBits_eq plain]
  unfold BitArray.getRangeCount
  by_cases first : s % 8 ≠ 0 → (s / 8 + 1) * 8 < 2 ^ 31
  swap
  · obtain ⟨begins, unfit⟩ := Classical.not_imp.mp first
    rw [firstPositions_none begins unfit]
    exact iff_of_false (by rintro ⟨⟩) fun well => first well.first
  by_cases middle : ∀ k ∈ BitArray.middleBytes s (e / 8), k < a.nLength
  swap
  · have none (c : Nat) := countBytes_none (c := c) middle
    simp only [firstPositions_eq first, Option.bind_eq_bind, Option.bind_some, countBits_eq plain,
      middleBytes_eq, none, Option.bind_none]
    exact iff_of_false (by rintro ⟨⟩) fun well => middle well.middle
  by_cases last : e + 1 < 2 ^ 31
  swap
  · simp only [firstPositions_eq first, Option.bind_eq_bind, Option.bind_some, countBits_eq plain,
      middleBytes_eq, countBytes_eq middle, positions_none last, Option.bind_none]
    exact iff_of_false (by rintro ⟨⟩) fun well => last well.last
  simp only [firstPositions_eq first, Option.bind_eq_bind, Option.bind_some, countBits_eq plain,
    middleBytes_eq, countBytes_eq middle, positions_eq last, Option.some_inj, Nat.zero_add]
  change (stretch a.toSFBitArray.getAt s (8 * wholeByte s)).length + _ +
    (stretch a.toSFBitArray.getAt (e / 8 * 8) (e + 1)).length = _ ↔ _
  by_cases inside : e / 8 < wholeByte s
  · have same := (insideByte_iff le).mpr inside
    have whole : wholeByte s = s / 8 + 1 := by rw [wholeByte, bFirstByte_eq, if_neg same.1]
    have twice := stretch_insideByte a.toSFBitArray.getAt le same.2
    have empty : wholeByte s + (e / 8 - wholeByte s) = wholeByte s := by omega
    rw [empty, stretch_of_le (Nat.le_refl _), List.length_nil, Nat.add_zero, whole, twice,
      Nat.add_eq_left, List.length_eq_zero_iff, ← byteClear_iff plain]
    constructor
    · intro clear
      refine ⟨last, first, middle, fun n member => ?_, fun _ => clear⟩
      have place := mem_middleBytes.mp member
      omega
    · intro well
      exact well.once same
  · have ends : wholeByte s + (e / 8 - wholeByte s) = e / 8 := by omega
    have begins := le_wholeByte s
    have parts := stretch_append a.toSFBitArray.getAt begins (show 8 * wholeByte s ≤ 8 * (e / 8) by omega)
    have total := stretch_append a.toSFBitArray.getAt (show s ≤ 8 * (e / 8) by omega)
      (show 8 * (e / 8) ≤ e + 1 by omega)
    have known := length_stretch_eq_iff (s := 8 * wholeByte s) (e := 8 * (e / 8)) (q := bitAt a.buffer)
      fun n _ _ => @bitAt_of_getAt n a.toSFBitArray
    rw [ends, ← total, ← parts, Nat.mul_comm (e / 8)]
    simp only [List.length_append, Nat.add_left_inj, Nat.add_right_inj]
    rw [eq_comm, known]
    constructor
    · intro all
      refine ⟨last, first, middle, fun n member set => ?_, fun same => ?_⟩
      · have place := mem_middleBytes.mp member
        rw [getBit_eq] at set
        rw [getAt_plain plain, all n (by omega) (by omega) set]
      · exact absurd ((insideByte_iff le).mp same) inside
    · intro well n low high set
      have member := well.known n (mem_middleBytes.mpr ⟨by omega, by omega⟩) (by rwa [getBit_eq])
      rw [getAt_plain plain] at member
      exact Option.some.inj member

/-! ## IsRangeEmpty -/

theorem someBit_eq (plain : a.bCompressed = false) (s e : Nat) :
    a.someBit (List.range' s (e - s)) = some (decide (stretch a.toSFBitArray.getAt s e ≠ [])) := by
  have any (ns : List Nat) : a.someBit ns = some (ns.any a.toSFBitArray.getAt) := by
    induction ns with
    | nil => rfl
    | cons n ns ih =>
        rw [BitArray.someBit, getAt_plain plain, Option.bind_eq_bind, Option.bind_some, ih, List.any_cons]
        cases a.toSFBitArray.getAt n <;> rfl
  rw [any, stretch, Option.some_inj, Bool.eq_iff_iff]
  simp [and_assoc]

theorem stretch_byte_eq_nil_iff (bytes : List BYTE) (k : Nat) :
    stretch (bitAt bytes) (8 * k) (8 * (k + 1)) = [] ↔ bytes.getD k 0 = 0 := by
  have all : ∀ byte : BYTE, popCount byte = 0 ↔ byte = 0 := by decide
  rw [← List.length_eq_zero_iff, length_stretch_byte, all]

theorem someByte_eq (inside : ∀ j ∈ List.range' k n, j < a.nLength) :
    a.someByte (List.range' k n) =
      some (decide (stretch (bitAt a.buffer) (8 * k) (8 * (k + n)) ≠ [])) := by
  induction n generalizing k with
  | zero =>
      rw [stretch_of_le (by omega)]
      rfl
  | succ n ih =>
      rw [List.range'_succ, List.forall_mem_cons] at inside
      have parts : stretch (bitAt a.buffer) (8 * k) (8 * (k + (n + 1))) = [] ↔
          a.buffer.getD k 0 = 0 ∧ stretch (bitAt a.buffer) (8 * (k + 1)) (8 * (k + 1 + n)) = [] := by
        rw [stretch_bytes_succ _ k n, List.append_eq_nil_iff, stretch_byte_eq_nil_iff]
      rw [List.range'_succ, BitArray.someByte, byteAt_inside inside.1, Option.bind_eq_bind,
        Option.bind_some, ih inside.2]
      simp only [ne_eq, parts]
      split
      · rename_i set
        simp only [set, false_and, not_false_eq_true, decide_true]
        rfl
      · rename_i zero
        simp only [not_not.mp zero, true_and]

theorem getAt_short {a : SFBitArray} (short : a.nLength < 2 ^ 28) (inside : n < 8 * a.nLength) :
    a.getAt n = bitAt a.buffer n := by
  have fits : Short a := short
  rw [SFBitArray.getAt, bitLength_eq fits, if_neg (by omega), getBit_eq]

theorem getAt_beyond {a : SFBitArray} (short : a.nLength < 2 ^ 28) (beyond : 8 * a.nLength ≤ n) :
    a.getAt n = false := by
  have fits : Short a := short
  rw [SFBitArray.getAt, bitLength_eq fits, if_pos (by omega)]

/-- Nothing is shown behind the last position of the array. -/
theorem stretch_lastBit (short : a.nLength < 2 ^ 28) (full : a.nLength ≠ 0) (s e : Nat) :
    stretch a.toSFBitArray.getAt s (e + 1) = stretch a.toSFBitArray.getAt s (a.lastBit e + 1) := by
  have last : a.lastBit e = min e (8 * a.nLength - 1) := rfl
  by_cases more : e ≤ 8 * a.nLength - 1
  · rw [last, min_eq_left more]
  · have ends : a.lastBit e = 8 * a.nLength - 1 := by omega
    by_cases beyond : 8 * a.nLength ≤ s
    · rw [stretch_of_le (show a.lastBit e + 1 ≤ s by omega), stretch_eq_nil_iff]
      intro n low _
      exact getAt_beyond short (by omega)
    · have rest : stretch a.toSFBitArray.getAt (a.lastBit e + 1) (e + 1) = [] := by
        rw [stretch_eq_nil_iff]
        intro n low _
        exact getAt_beyond short (by omega)
      rw [← stretch_append _ (show s ≤ a.lastBit e + 1 by omega) (show a.lastBit e + 1 ≤ e + 1 by omega),
        rest, List.append_nil]

/-- What the three loops find. -/
theorem isRangeEmpty_eq (plain : a.bCompressed = false) (short : a.nLength < 2 ^ 28)
    (full : a.nLength ≠ 0) (first : (s / 8 + 1) * 8 < 2 ^ 31) :
    a.isRangeEmpty s e = some (decide (stretch a.toSFBitArray.getAt s (8 * (s / 8 + 1)) = [] ∧
      stretch a.toSFBitArray.getAt (8 * (s / 8 + 1)) (8 * (a.lastBit e / 8)) = [] ∧
        ((a.lastBit e + 1) % 8 ≠ 0 →
          stretch a.toSFBitArray.getAt (8 * (a.lastBit e / 8)) (a.lastBit e + 1) = []))) := by
  have fits : a.nLength * 8 < 2 ^ 31 := by omega
  have clamp : (if e ≥ a.nLength * 8 then a.nLength * 8 - 1 else e) = a.lastBit e := by
    rw [BitArray.lastBit]
    split <;> omega
  have inner : a.lastBit e < 8 * a.nLength := by
    rw [BitArray.lastBit]
    omega
  have low : (a.lastBit e + 1 &&& 7) = (a.lastBit e + 1) % 8 :=
    Nat.and_two_pow_sub_one_eq_mod (a.lastBit e + 1) 3
  have middle := someByte_eq (a := a) (k := s / 8 + 1) (n := a.lastBit e / 8 - (s / 8 + 1))
    fun j member => by
      have place := List.mem_range'_1.mp member
      omega
  have bits : stretch (bitAt a.buffer) (8 * (s / 8 + 1))
      (8 * (s / 8 + 1 + (a.lastBit e / 8 - (s / 8 + 1)))) =
        stretch a.toSFBitArray.getAt (8 * (s / 8 + 1)) (8 * (a.lastBit e / 8)) := by
    by_cases more : s / 8 + 1 ≤ a.lastBit e / 8
    · rw [Nat.add_sub_of_le more]
      apply stretch_congr
      intro n _ high
      rw [getAt_short short (by omega)]
    · rw [stretch_of_le (by omega), stretch_of_le (by omega)]
  rw [bits] at middle
  rw [BitArray.isRangeEmpty, if_neg full, asInt, if_pos fits]
  simp only [Option.bind_eq_bind, Option.bind_some, clamp, positions_eq first, low, middle,
    positions_eq (show a.lastBit e + 1 < 2 ^ 31 by omega), someBit_eq plain]
  rw [Nat.mul_comm (s / 8 + 1), Nat.mul_comm (a.lastBit e / 8)]
  by_cases first : stretch a.toSFBitArray.getAt s (8 * (s / 8 + 1)) = []
  swap
  · simp [first]
  by_cases bytes : stretch a.toSFBitArray.getAt (8 * (s / 8 + 1)) (8 * (a.lastBit e / 8)) = []
  swap
  · simp [first, bytes]
  by_cases part : (a.lastBit e + 1) % 8 = 0
  · simp [first, bytes, part]
  by_cases last : stretch a.toSFBitArray.getAt (8 * (a.lastBit e / 8)) (a.lastBit e + 1) = []
  · simp [first, bytes, part, last]
  · simp [first, bytes, part, last]

theorem tellsEmpty_iff (plain : a.bCompressed = false) (le : s ≤ e) :
    a.TellsEmpty s e ↔ a.nLength = 0 ∨ a.TellsWell s (a.lastBit e) := by
  rw [BitArray.TellsEmpty, rangeBits_eq plain]
  by_cases full : a.nLength = 0
  · have none : stretch a.toSFBitArray.getAt s (e + 1) = [] := by
      rw [stretch_eq_nil_iff]
      intro n _ _
      exact getAt_beyond (by omega) (by omega)
    rw [BitArray.isRangeEmpty, if_pos full, none]
    exact iff_of_true rfl (.inl full)
  rw [or_iff_right full]
  by_cases short : a.nLength < 2 ^ 28
  swap
  · rw [BitArray.isRangeEmpty, if_neg full, asInt, if_neg (by omega)]
    exact iff_of_false (by rintro ⟨⟩) fun well => short well.short
  by_cases first : (s / 8 + 1) * 8 < 2 ^ 31
  swap
  · have fits : a.nLength * 8 < 2 ^ 31 := by omega
    rw [BitArray.isRangeEmpty, if_neg full, asInt, if_pos fits]
    simp only [Option.bind_eq_bind, Option.bind_some, positions_none first, Option.bind_none]
    exact iff_of_false (by rintro ⟨⟩) fun well => first well.first
  rw [isRangeEmpty_eq plain short full first, stretch_lastBit short full s e, Option.some_inj,
    decide_eq_decide, List.length_eq_zero_iff]
  have inner : a.lastBit e < 8 * a.nLength := by
    rw [BitArray.lastBit]
    omega
  have outer : a.lastBit e < s → 8 * a.nLength ≤ s ∧ (a.lastBit e + 1) % 8 = 0 := by
    unfold BitArray.lastBit at inner ⊢
    omega
  generalize a.lastBit e = e' at inner outer ⊢
  have well : a.TellsWell s e' ↔ (e' / 8 = s / 8 → (e' + 1) % 8 ≠ 0 →
      stretch a.toSFBitArray.getAt s (e' + 1) = [] →
        stretch a.toSFBitArray.getAt (8 * (s / 8)) (8 * (s / 8 + 1)) = []) ∧
      (s / 8 < e' / 8 → (e' + 1) % 8 = 0 → stretch a.toSFBitArray.getAt s (8 * (e' / 8)) = [] →
        stretch a.toSFBitArray.getAt (8 * (e' / 8)) (8 * (e' / 8 + 1)) = []) := by
    have byte (k : Nat) := byteClear_iff (k := k) plain
    have range (m : Nat) := rangeClear_iff (s := s) (e := m) plain
    rw [← byte, ← byte, ← range, ← range, Nat.mul_comm 8 (e' / 8)]
    exact ⟨fun well => ⟨well.inside, well.last⟩, fun well => ⟨short, first, well.1, well.2⟩⟩
  rw [well]
  rcases Nat.lt_trichotomy (e' / 8) (s / 8) with before | same | after
  · -- The range is behind the array.
    obtain ⟨beyond, ends⟩ := outer (by omega)
    have none : stretch a.toSFBitArray.getAt s (8 * (s / 8 + 1)) = [] := by
      rw [stretch_eq_nil_iff]
      intro n low _
      exact getAt_beyond short (by omega)
    rw [none, stretch_of_le (show 8 * (e' / 8) ≤ 8 * (s / 8 + 1) by omega),
      stretch_of_le (show e' + 1 ≤ s by omega)]
    apply iff_of_true
    · simp [ends]
    · constructor <;> intro <;> omega
  · -- It is in one byte.
    have within : s ≤ e' := by
      by_contra less
      have := (outer (by omega)).2
      omega
    have twice := stretch_insideByte a.toSFBitArray.getAt within same
    rw [stretch_of_le (show 8 * (e' / 8) ≤ 8 * (s / 8 + 1) by omega)]
    rw [same, Nat.mul_comm (s / 8)] at twice
    simp only [same, true_implies, lt_self_iff_false, false_implies, and_true, true_and]
    by_cases part : (e' + 1) % 8 = 0
    · have ends : e' + 1 = 8 * (s / 8 + 1) := by omega
      simp [ends]
    · simp only [part, ne_eq, not_false_eq_true, true_implies, ← List.length_eq_zero_iff]
      omega
  · -- It has whole bytes between its ends.
    have parts := stretch_append a.toSFBitArray.getAt (show s ≤ 8 * (s / 8 + 1) by omega)
      (show 8 * (s / 8 + 1) ≤ 8 * (e' / 8) by omega)
    have whole := stretch_append a.toSFBitArray.getAt (show s ≤ 8 * (e' / 8) by omega)
      (show 8 * (e' / 8) ≤ e' + 1 by omega)
    have other : e' / 8 ≠ s / 8 := by omega
    simp only [← whole, ← parts, List.append_eq_nil_iff, other, after, false_implies, true_and,
      true_implies]
    by_cases part : (e' + 1) % 8 = 0
    · have ends : e' + 1 = 8 * (e' / 8 + 1) := by omega
      simp only [part, ne_eq, not_true_eq_false, false_implies, and_true, true_implies, ← ends]
      exact iff_self_and
    · simp only [part, ne_eq, not_false_eq_true, true_implies, false_implies, and_assoc, iff_self]

/-! ## Range2Array -/

/-- What the three loops push. -/
theorem range2Array_eq (plain : a.bCompressed = false) (short : a.nLength < 2 ^ 28)
    (begins : s < 8 * a.nLength) (nArray : List Nat) : a.range2Array s e nArray =
      some (((stretch a.toSFBitArray.getAt s (8 * wholeByte s)).length +
        (stretch a.toSFBitArray.getAt (8 * wholeByte s) (8 * (a.lastBit e / 8))).length +
          (stretch a.toSFBitArray.getAt (8 * (a.lastBit e / 8)) (a.lastBit e + 1)).length),
        nArray ++ stretch a.toSFBitArray.getAt s (8 * wholeByte s) ++
          stretch a.toSFBitArray.getAt (8 * wholeByte s) (8 * (a.lastBit e / 8)) ++
            stretch a.toSFBitArray.getAt (8 * (a.lastBit e / 8)) (a.lastBit e + 1)) := by
  have fits : a.nLength * 8 < 2 ^ 31 := by omega
  have clamp : min e (a.nLength * 8 - 1) = a.lastBit e := by rw [BitArray.lastBit, Nat.mul_comm]
  have inner : a.lastBit e < 8 * a.nLength := by
    rw [BitArray.lastBit]
    omega
  have middle (r : Nat × List Nat) := listBytes_eq (a := a) (k := wholeByte s)
    (n := a.lastBit e / 8 - wholeByte s) (r := r) fun j member => by
      have place := List.mem_range'_1.mp member
      omega
  have bits : stretch (bitAt a.buffer) (8 * wholeByte s)
      (8 * (wholeByte s + (a.lastBit e / 8 - wholeByte s))) =
        stretch a.toSFBitArray.getAt (8 * wholeByte s) (8 * (a.lastBit e / 8)) := by
    by_cases more : wholeByte s ≤ a.lastBit e / 8
    · rw [Nat.add_sub_of_le more]
      apply stretch_congr
      intro n _ high
      rw [getAt_short short (by omega)]
    · rw [stretch_of_le (by omega), stretch_of_le (by omega)]
  rw [bits] at middle
  rw [BitArray.range2Array, asInt, if_pos fits]
  simp only [Option.bind_eq_bind, Option.bind_some, if_neg (show ¬s ≥ a.nLength * 8 by omega), clamp,
    firstPositions_eq (show s % 8 ≠ 0 → (s / 8 + 1) * 8 < 2 ^ 31 by omega), listBits_eq plain,
    middleBytes_eq, middle, positions_eq (show a.lastBit e + 1 < 2 ^ 31 by omega), Nat.zero_add]
  rw [Nat.mul_comm (a.lastBit e / 8)]
  rfl

theorem listsRange_iff (plain : a.bCompressed = false) (le : s ≤ e) :
    a.ListsRange s e ↔ a.ListsWell s e := by
  rw [BitArray.ListsRange, rangeBits_eq plain]
  by_cases short : a.nLength < 2 ^ 28
  swap
  · apply iff_of_false
    · intro lists
      have first := lists []
      rw [BitArray.range2Array, asInt, if_neg (by omega)] at first
      cases first
    · exact fun well => short well.short
  by_cases begins : s < 8 * a.nLength
  swap
  · apply iff_of_true
    · intro nArray
      have none : stretch a.toSFBitArray.getAt s (e + 1) = [] := by
        rw [stretch_eq_nil_iff]
        intro n low _
        exact getAt_beyond short (by omega)
      have fits : a.nLength * 8 < 2 ^ 31 := by omega
      rw [BitArray.range2Array, asInt, if_pos fits, Option.bind_eq_bind, Option.bind_some,
        if_pos (by omega), none, List.append_nil]
      rfl
    · exact ⟨short, fun inside => absurd inside begins⟩
  have well : a.ListsWell s e ↔ (BitArray.InsideByte s (a.lastBit e) → a.ByteClear (s / 8)) :=
    ⟨fun well => well.once begins, fun once => ⟨short, fun _ => once⟩⟩
  have within : s ≤ a.lastBit e := by
    rw [BitArray.lastBit]
    omega
  simp only [range2Array_eq plain short begins, Option.some_inj, Prod.mk.injEq, well]
  rw [stretch_lastBit short (by omega) s e, insideByte_iff within]
  generalize a.lastBit e = e' at within ⊢
  by_cases inside : e' / 8 < wholeByte s
  · have same := (insideByte_iff within).mpr inside
    have whole : wholeByte s = s / 8 + 1 := by rw [wholeByte, bFirstByte_eq, if_neg same.1]
    have twice := stretch_insideByte a.toSFBitArray.getAt within same.2
    rw [Nat.mul_comm (e' / 8)] at twice
    rw [whole] at inside ⊢
    simp only [inside, true_implies, byteClear_iff plain,
      stretch_of_le (show 8 * (e' / 8) ≤ 8 * (s / 8 + 1) by omega), List.length_nil, Nat.add_zero,
      List.append_nil]
    constructor
    · intro lists
      have count := (lists []).1
      rw [← List.length_eq_zero_iff]
      omega
    · intro clear nArray
      have none := stretch_nil_mono clear (show 8 * (s / 8) ≤ s by omega) (Nat.le_refl _)
      have range := stretch_nil_mono none (Nat.le_refl s) (show e' + 1 ≤ 8 * (s / 8 + 1) by omega)
      have last := stretch_nil_mono clear (show 8 * (s / 8) ≤ 8 * (e' / 8) by omega)
        (show e' + 1 ≤ 8 * (s / 8 + 1) by omega)
      simp [none, range, last]
  · have begins := le_wholeByte s
    have parts := stretch_append a.toSFBitArray.getAt begins
      (show 8 * wholeByte s ≤ 8 * (e' / 8) by omega)
    have total := stretch_append a.toSFBitArray.getAt (show s ≤ 8 * (e' / 8) by omega)
      (show 8 * (e' / 8) ≤ e' + 1 by omega)
    apply iff_of_true
    · intro nArray
      simp [← total, ← parts, Nat.add_assoc]
    · exact fun less => absurd less inside

/-! ## CopyRange -/

variable {buffer bytes : List BYTE}

theorem copyBit_bits (inside : n < 8 * buffer.length) : bitAt (BitArray.copyBit bytes buffer n) m =
    if m = n then bitAt bytes n else bitAt buffer m := by
  rw [BitArray.copyBit, getBit_eq]
  split
  · rename_i set
    rw [setBit_eq, bitAt_modify (g := fun _ => true) (setBit_edits n) inside, set]
  · rename_i clear
    rw [resetBit_eq, bitAt_modify (g := fun _ => false) (resetBit_edits n) inside,
      Bool.eq_false_iff.mpr clear]

theorem foldl_copyBit {ns : List Nat} (inside : ∀ n ∈ ns, n < 8 * buffer.length) :
    bitAt (ns.foldl (BitArray.copyBit bytes) buffer) m =
      if m ∈ ns then bitAt bytes m else bitAt buffer m := by
  induction ns generalizing buffer with
  | nil => rfl
  | cons n ns ih =>
      have here := inside n List.mem_cons_self
      have rest : ∀ k ∈ ns, k < 8 * (BitArray.copyBit bytes buffer n).length := by
        intro k member
        rw [BitArray.length_copyBit]
        exact inside k (List.mem_cons_of_mem n member)
      rw [List.foldl_cons, ih rest, copyBit_bits here]
      by_cases same : m = n
      · simp [same]
      · simp [same]

theorem copyBytes_bits (inside : e ≤ buffer.length) : bitAt (BitArray.copyBytes bytes s e buffer) m =
    if s ≤ m / 8 ∧ m / 8 < e then bitAt bytes m else bitAt buffer m := by
  have byte (ks : List Nat) (buffer : List BYTE) (inside : ∀ k ∈ ks, k < buffer.length) :
      (ks.foldl (fun buffer k => buffer.set k (bytes.getD k 0)) buffer).getD (m / 8) 0 =
        if m / 8 ∈ ks then bytes.getD (m / 8) 0 else buffer.getD (m / 8) 0 := by
    induction ks generalizing buffer with
    | nil => rfl
    | cons k ks ih =>
        have here := inside k List.mem_cons_self
        have rest : ∀ j ∈ ks, j < (buffer.set k (bytes.getD k 0)).length := by
          intro j member
          rw [List.length_set]
          exact inside j (List.mem_cons_of_mem k member)
        rw [List.foldl_cons, ih _ rest]
        by_cases same : m / 8 = k
        · simp [same, here]
        · simp [same, Ne.symm same]
  have range : m / 8 ∈ List.range' s (e - s) ↔ s ≤ m / 8 ∧ m / 8 < e := by
    rw [List.mem_range'_1]
    omega
  rw [bitAt, BitArray.copyBytes, byte]
  · simp only [range]
    split <;> rfl
  · intro k member
    have place := List.mem_range'_1.mp member
    omega

theorem copied_bits {first last : List Nat} (inFirst : ∀ n ∈ first, n < 8 * buffer.length)
    (middle : e ≤ buffer.length) (inLast : ∀ n ∈ last, n < 8 * buffer.length) :
    bitAt (last.foldl (BitArray.copyBit bytes)
        (BitArray.copyBytes bytes s e (first.foldl (BitArray.copyBit bytes) buffer))) m =
      if m ∈ first ∨ (s ≤ m / 8 ∧ m / 8 < e) ∨ m ∈ last then bitAt bytes m
      else bitAt buffer m := by
  have size : (first.foldl (BitArray.copyBit bytes) buffer).length = buffer.length :=
    length_loop (BitArray.length_copyBit _) _ _
  rw [foldl_copyBit, copyBytes_bits (by rw [size]; exact middle), foldl_copyBit inFirst]
  · split_ifs <;> tauto
  · rw [BitArray.length_copyBytes, size]
    exact inLast

theorem mem_copied (le : s ≤ e) (n : Nat) :
    (n ∈ List.range' s (8 * wholeByte s - s) ∨
      (wholeByte s ≤ n / 8 ∧ n / 8 < max (wholeByte s) (e / 8)) ∨
        n ∈ List.range' (max (wholeByte s) (e / 8) * 8) (e + 1 - max (wholeByte s) (e / 8) * 8)) ↔
      s ≤ n ∧ (n ≤ e ∨ BitArray.InsideByte s e ∧ n / 8 = s / 8) := by
  have begins := le_wholeByte s
  rw [List.mem_range'_1, List.mem_range'_1, BitArray.InsideByte]
  have whole : wholeByte s = if s % 8 = 0 then s / 8 else s / 8 + 1 := by
    rw [wholeByte, bFirstByte_eq]
    split <;> rfl
  by_cases aligned : s % 8 = 0
  · rw [if_pos aligned] at whole
    omega
  · rw [if_neg aligned] at whole
    omega

theorem grown_eq (plain : a.bCompressed = false) (e : Nat) :
    ∃ g : BitArray, (if e ≥ a.nLength * 8 then a.setLength (e / 8 + 1) else a) = g ∧
      g.bCompressed = false ∧ g.nLength = max a.nLength (e / 8 + 1) ∧
        ∀ m, bitAt g.buffer m = bitAt a.buffer m := by
  have larger := enlarge (a := a.toSFBitArray) (k := e / 8 + 1) (c := e ≥ a.nLength * 8) (by omega)
  by_cases more : e ≥ a.nLength * 8
  · rw [if_pos more] at larger
    rw [if_pos more]
    refine ⟨_, rfl, ?_⟩
    rw [BitArray.setLength, plain]
    exact ⟨rfl, larger.1, larger.2⟩
  · rw [if_neg more] at larger
    rw [if_neg more]
    exact ⟨a, rfl, plain, larger.1, larger.2⟩

/-- The bits of the array that a copy leaves. -/
theorem copyRange_eq (plain : a.bCompressed = false) (short : a.nLength < 2 ^ 28)
    (short' : src.nLength < 2 ^ 28) (le : s ≤ e) (begins : s < 8 * src.nLength) :
    ∃ a', a.copyRange src s e = some a' ∧ a'.bCompressed = false ∧
      a'.nLength = max a.nLength (src.lastBit e / 8 + 1) ∧ ∀ n, bitAt a'.buffer n =
        if s ≤ n ∧ (n ≤ src.lastBit e ∨ BitArray.InsideByte s (src.lastBit e) ∧ n / 8 = s / 8)
        then bitAt src.buffer n else bitAt a.buffer n := by
  have clamp : min e (src.nLength * 8 - 1) = src.lastBit e := by rw [BitArray.lastBit, Nat.mul_comm]
  have within : s ≤ src.lastBit e := by
    rw [BitArray.lastBit]
    omega
  have inner : src.lastBit e < 8 * src.nLength := by
    rw [BitArray.lastBit]
    omega
  obtain ⟨g, grown, plain', length, bits⟩ := grown_eq plain (src.lastBit e)
  have fits : src.nLength * 8 < 2 ^ 31 := by omega
  have fits' : a.nLength * 8 < 2 ^ 31 := by omega
  have room := g.within
  have begins' := le_wholeByte s
  rw [BitArray.copyRange, asInt, if_pos fits, asInt, if_pos fits']
  simp only [Option.bind_eq_bind, Option.bind_some, if_neg (show ¬s ≥ src.nLength * 8 by omega), clamp,
    grown, firstPositions_eq (show s % 8 ≠ 0 → (s / 8 + 1) * 8 < 2 ^ 31 by omega),
    positions_eq (show src.lastBit e + 1 < 2 ^ 31 by omega)]
  change ∃ a', (if (∀ n ∈ List.range' s (8 * wholeByte s - s) ++
      List.range' (max (wholeByte s) (src.lastBit e / 8) * 8)
        (src.lastBit e + 1 - max (wholeByte s) (src.lastBit e / 8) * 8),
      n / 8 < min g.nLength src.nLength) ∧ (max (wholeByte s) (src.lastBit e / 8) > wholeByte s →
        max (wholeByte s) (src.lastBit e / 8) ≤ min g.nLength src.nLength) then some _ else none) =
      some a' ∧ _
  rw [if_pos]
  · refine ⟨_, rfl, plain', length, fun n => ?_⟩
    simp only [← mem_copied within n, ← bits]
    have copied := mem_copied within
    apply copied_bits
    · intro k member
      have place := (copied k).mp (.inl member)
      unfold BitArray.InsideByte at place
      omega
    · have whole : wholeByte s ≤ src.lastBit e / 8 + 1 := by
        rw [wholeByte, bFirstByte_eq]
        split <;> omega
      change max (wholeByte s) _ ≤ _
      omega
    · intro k member
      have place := (copied k).mp (.inr (.inr member))
      unfold BitArray.InsideByte at place
      omega
  · have copied := mem_copied within
    constructor
    · intro n member
      have place := (copied n).mp (by
        rcases List.mem_append.mp member with first | last
        · exact .inl first
        · exact .inr (.inr last))
      unfold BitArray.InsideByte at place
      omega
    · intro more
      omega

theorem copiesRange_iff (plain : a.bCompressed = false) (plain' : src.bCompressed = false)
    (le : s ≤ e) : a.CopiesRange src s e ↔
      src.nLength < 2 ^ 28 ∧ (8 * src.nLength ≤ s ∨ a.CopiesWell src s e) := by
  by_cases short' : src.nLength < 2 ^ 28
  swap
  · have none : a.copyRange src s e = none := by
      rw [BitArray.copyRange, asInt, if_neg (by omega)]
      rfl
    apply iff_of_false
    · rintro ⟨a', is, -⟩
      rw [none] at is
      cases is
    · exact fun well => short' well.1
  rw [and_iff_right short']
  have fits : src.nLength * 8 < 2 ^ 31 := by omega
  by_cases beyond : 8 * src.nLength ≤ s
  · refine iff_of_true ⟨a, ?_, fun n => ?_⟩ (.inl beyond)
    · rw [BitArray.copyRange, asInt, if_pos fits, Option.bind_eq_bind, Option.bind_some,
        if_pos (by omega)]
      rfl
    · rw [if_neg (by omega)]
  rw [or_iff_right beyond]
  by_cases short : a.nLength < 2 ^ 28
  swap
  · have none : a.copyRange src s e = none := by
      rw [BitArray.copyRange, asInt, if_pos fits, Option.bind_eq_bind, Option.bind_some,
        if_neg (by omega), asInt, if_neg (by omega)]
      rfl
    apply iff_of_false
    · rintro ⟨a', is, -⟩
      rw [none] at is
      cases is
    · exact fun well => short well.short
  obtain ⟨a', is, plainA, length, bits⟩ := copyRange_eq plain short short' le (by omega)
  have range (n : Nat) : (s ≤ n ∧ n ≤ e ∧ n < 8 * src.nLength) ↔ s ≤ n ∧ n ≤ src.lastBit e := by
    rw [BitArray.lastBit]
    omega
  have within : s ≤ src.lastBit e ∧ src.lastBit e < 8 * src.nLength := by
    rw [BitArray.lastBit]
    omega
  have copies : a.CopiesRange src s e ↔ ∀ n, a'.toSFBitArray.getAt n =
      if s ≤ n ∧ n ≤ src.lastBit e then src.toSFBitArray.getAt n else a.toSFBitArray.getAt n := by
    unfold BitArray.CopiesRange
    simp only [is, Option.some_inj, exists_eq_left', getAt_plain plainA, getAt_plain plain,
      getAt_plain plain', range]
    apply forall_congr'
    intro n
    split <;> simp
  have well : a.CopiesWell src s e ↔ (BitArray.InsideByte s (src.lastBit e) → ∀ n, n / 8 = s / 8 →
        src.lastBit e < n → src.toSFBitArray.getAt n = a.toSFBitArray.getAt n) ∧
      ∀ n, 8 * a.nLength ≤ n → n / 8 ≤ src.lastBit e / 8 → (n < s ∨ src.lastBit e < n ∧
        ¬BitArray.InsideByte s (src.lastBit e)) → bitAt a.buffer n = false := by
    constructor
    · rintro ⟨-, behind, added⟩
      simp only [getAt_plain plain, getAt_plain plain', Option.some_inj, getBit_eq] at behind added
      exact ⟨behind, added⟩
    · rintro ⟨behind, added⟩
      refine ⟨short, ?_, ?_⟩
      · simpa only [getAt_plain plain, getAt_plain plain', Option.some_inj] using behind
      · simpa only [getBit_eq] using added
  have short'' : a'.nLength < 2 ^ 28 := by omega
  rw [copies, well]
  generalize src.lastBit e = e' at *
  constructor
  · intro all
    constructor
    · intro inside n place behind
      have here := all n
      have same := inside.2
      rw [if_neg (by omega), getAt_short short'' (by omega), bits, if_pos ⟨by omega, .inr ⟨inside, place⟩⟩,
        ← getAt_short short' (by omega)] at here
      exact here
    · intro n above place outside
      have here := all n
      have apart : ¬(s ≤ n ∧ (n ≤ e' ∨ BitArray.InsideByte s e' ∧ n / 8 = s / 8)) := by
        rintro ⟨low, within | ⟨inside, -⟩⟩
        · omega
        · exact outside.elim (fun less => by omega) fun more => more.2 inside
      rw [if_neg (by omega), getAt_short short'' (by omega), bits, if_neg apart,
        getAt_beyond short above] at here
      exact here
  · rintro ⟨behind, added⟩ n
    by_cases copied : s ≤ n ∧ (n ≤ e' ∨ BitArray.InsideByte s e' ∧ n / 8 = s / 8)
    · have place : n / 8 ≤ e' / 8 := by
        unfold BitArray.InsideByte at copied
        omega
      rw [getAt_short short'' (by omega), bits, if_pos copied, ← getAt_short short' (by omega)]
      split
      · rfl
      · rename_i outside
        obtain ⟨inside, byte⟩ := copied.2.resolve_left (by omega)
        exact behind inside n byte (by omega)
    · rw [if_neg fun both => copied ⟨both.1, .inl both.2⟩]
      by_cases old : n < 8 * a.nLength
      · rw [getAt_short short'' (by omega), bits, if_neg copied, getAt_short short old]
      · rw [getAt_beyond short (by omega)]
        by_cases new : n < 8 * a'.nLength
        · rw [getAt_short short'' new, bits, if_neg copied]
          apply added n (by omega) (by omega)
          by_cases low : n < s
          · exact .inl low
          · have above : e' < n := by
              by_contra less
              exact copied ⟨by omega, .inl (by omega)⟩
            refine .inr ⟨above, fun inside => copied ⟨by omega, .inr ⟨inside, ?_⟩⟩⟩
            have same := inside.2
            omega
        · exact getAt_beyond short'' (by omega)

/-! ## All four -/

/-- The plain array of these bytes. -/
abbrev plainArray (bytes : List BYTE) : BitArray :=
  { buffer := bytes, nLength := bytes.length, within := Nat.le_refl _ }

end Cgsf.Proof.BaseLayer
