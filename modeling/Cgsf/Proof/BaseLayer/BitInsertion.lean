import Cgsf.BaseLayer.BitInsertion
import Cgsf.Library.Shifting
import Cgsf.Proof.BaseLayer.BitRanges

/-!
# Inserted bits can be deleted again
-/

namespace Cgsf.Proof.BaseLayer
open Cgsf.BaseLayer Library

variable {a b : SFBitArray} {buffer : List BYTE} {c e k n s : Nat}

/-! ## The bits of a buffer -/

theorem bitAt_setBit (inside : n < 8 * buffer.length) :
    bitAt (setBit buffer n) = Function.update (bitAt buffer) n true := by
  funext m
  rw [setBit_eq, bitAt_modify (g := fun _ => true) (setBit_edits n) inside, Function.update_apply]

theorem bitAt_resetBit (inside : n < 8 * buffer.length) :
    bitAt (resetBit buffer n) = Function.update (bitAt buffer) n false := by
  funext m
  rw [resetBit_eq, bitAt_modify (g := fun _ => false) (resetBit_edits n) inside, Function.update_apply]

theorem bitAt_moveBit (inside : k + c < 8 * buffer.length) :
    bitAt (SFBitArray.moveBit c k buffer) = raise c k (bitAt buffer) := by
  unfold SFBitArray.moveBit raise
  rw [getBit_eq]
  split
  · rw [bitAt_setBit, bitAt_resetBit (by omega)]
    rw [length_resetBit]
    exact inside
  · rfl

theorem bitAt_moveBits (inside : e + c ≤ 8 * buffer.length) :
    bitAt (SFBitArray.moveBits s c e buffer) =
      (List.range' s (e - s)).foldr (raise c) (bitAt buffer) := by
  have each (ks : List Nat) (below : ∀ k ∈ ks, k < e) :
      (ks.foldr (SFBitArray.moveBit c) buffer).length = buffer.length ∧
        bitAt (ks.foldr (SFBitArray.moveBit c) buffer) = ks.foldr (raise c) (bitAt buffer) := by
    induction ks with
    | nil => exact ⟨rfl, rfl⟩
    | cons k ks ih =>
        obtain ⟨here, below⟩ := List.forall_mem_cons.mp below
        obtain ⟨size, bits⟩ := ih below
        rw [List.foldr_cons, List.foldr_cons, SFBitArray.length_moveBit, bitAt_moveBit, bits]
        · exact ⟨size, rfl⟩
        · omega
  apply (each _ _).2
  intro k member
  have place := List.mem_range'_1.mp member
  omega

/-! ## What the array shows -/

theorem getAt_eq_and (short : Short a) (n : Nat) :
    a.getAt n = (decide (n < 8 * a.nLength) && bitAt a.buffer n) := by
  by_cases inside : n < 8 * a.nLength
  · rw [getAt_short short inside, decide_eq_true inside, Bool.true_and]
  · rw [getAt_beyond short (not_lt.mp inside), decide_eq_false inside, Bool.false_and]

/-- Nothing that was behind the length shows. -/
theorem setRange_shows (s e : Nat) (short : Short a) (fits : e / 8 + 1 < 2 ^ 28)
    (clear : ∀ n, 8 * a.nLength ≤ n → n < 8 * (e / 8 + 1) → bitAt a.buffer n = false) :
    (a.setRange s e).nLength = max a.nLength (e / 8 + 1) ∧
      ∀ n, (a.setRange s e).getAt n = (a.getAt n || decide (s ≤ n ∧ n ≤ e)) := by
  have merged := setRange_merged s e short
  have size := merged.nLength
  have short' : Short (a.setRange s e) := by
    unfold Short
    rw [size]
    exact max_lt short fits
  refine ⟨size, ?_⟩
  intro n
  rw [getAt_eq_and short', getAt_eq_and short, size]
  by_cases below : n < 8 * max a.nLength (e / 8 + 1)
  · rw [merged.bits n (by rw [size]; exact below), decide_eq_true below, Bool.true_and]
    simp only [Finset.mem_Icc]
    by_cases old : n < 8 * a.nLength
    · rw [decide_eq_true old, Bool.true_and]
    · rw [clear n (not_lt.mp old) (by omega), Bool.and_false]
  · have outside : ¬(s ≤ n ∧ n ≤ e) := by omega
    have old : ¬n < 8 * a.nLength := by omega
    simp only [below, outside, old, decide_false, Bool.false_and, Bool.or_false]

theorem resetRange_shows (s e : Nat) (short : Short a) :
    (a.resetRange s e).nLength = a.nLength ∧
      ∀ n, (a.resetRange s e).getAt n = (a.getAt n && !decide (s ≤ n ∧ n ≤ e)) := by
  have merged := resetRange_merged s e short
  have size : (a.resetRange s e).nLength = a.nLength := merged.nLength.trans (Nat.max_zero _)
  have short' : Short (a.resetRange s e) := by
    unfold Short
    rw [size]
    exact short
  refine ⟨size, ?_⟩
  intro n
  rw [getAt_eq_and short', getAt_eq_and short, size]
  by_cases below : n < 8 * a.nLength
  · rw [merged.bits n (by rw [size]; exact below)]
    simp only [Finset.mem_Icc, below, decide_true, Bool.true_and]
  · simp [below]

/-! ## Delete -/

theorem shiftBit_shows (short : Short a) (inside : k < 8 * a.nLength) (le : s ≤ e) (behind : e < k) :
    (a.shiftBit s e k).nLength = a.nLength ∧
      (a.shiftBit s e k).getAt = lower (e + 1 - s) a.getAt k := by
  have place : s + k - (e + 1) = k - (e + 1 - s) := by omega
  have apart : k ≠ k - (e + 1 - s) := by omega
  have point (n m : Nat) : decide (n ≤ m ∧ m ≤ n) = decide (m = n) := by
    congr 1
    exact propext ⟨fun both => by omega, fun same => by omega⟩
  unfold SFBitArray.shiftBit lower
  rw [place]
  obtain ⟨size, bits⟩ := resetRange_shows k k short
  obtain ⟨size', bits'⟩ := resetRange_shows (k - (e + 1 - s)) (k - (e + 1 - s)) short
  split
  · have short' : Short (a.resetRange k k) := by
      unfold Short
      rw [size]
      exact short
    obtain ⟨size'', bits''⟩ := setRange_shows (k - (e + 1 - s)) (k - (e + 1 - s)) short'
      (by have := short; unfold Short at this; omega) (by intro n; omega)
    rw [resetAt_eq, setAt_eq]
    refine ⟨by omega, ?_⟩
    funext m
    rw [bits'', bits, point, point, Function.update_apply, Function.update_apply]
    split_ifs <;> simp [*]
  · rw [resetAt_eq]
    refine ⟨size', ?_⟩
    funext m
    rw [bits', point, Function.update_apply]
    split_ifs <;> simp [*]

theorem foldl_shiftBit (le : s ≤ e) {ks : List Nat} (short : Short a)
    (inside : ∀ k ∈ ks, e < k ∧ k < 8 * a.nLength) :
    (ks.foldl (SFBitArray.shiftBit s e) a).nLength = a.nLength ∧
      (ks.foldl (SFBitArray.shiftBit s e) a).getAt = ks.foldl (lower (e + 1 - s)) a.getAt := by
  induction ks generalizing a with
  | nil => exact ⟨rfl, rfl⟩
  | cons k ks ih =>
      obtain ⟨here, inside⟩ := List.forall_mem_cons.mp inside
      obtain ⟨size, bits⟩ := shiftBit_shows short here.2 le here.1
      have short' : Short (a.shiftBit s e k) := by
        unfold Short
        rw [size]
        exact short
      rw [List.foldl_cons, List.foldl_cons, ← bits, ← size]
      apply ih short'
      rw [size]
      exact inside

/-- What is cut off is clear. -/
theorem cutBits_shows (short : Short a) (inside : n < 8 * a.nLength)
    (clear : ∀ m, n ≤ m → a.getAt m = false) :
    ∃ b, a.cutBits n = some b ∧ ∀ m, b.getAt m = a.getAt m := by
  have room := a.within
  unfold SFBitArray.cutBits
  rw [dif_pos (show n / 8 < a.buffer.length by omega)]
  refine ⟨_, rfl, ?_⟩
  intro m
  have size : n / 8 + (if n % 8 ≠ 0 then 1 else 0) ≤ a.nLength := by
    split <;> omega
  have ends : n ≤ 8 * (n / 8 + if n % 8 ≠ 0 then 1 else 0) := by
    split <;> omega
  rw [getAt_eq_and (Nat.lt_of_le_of_lt size short), getAt_eq_and short]
  dsimp only
  rw [foldl_resetBit List.nodup_range']
  · by_cases low : m < n
    · have old : m < 8 * a.nLength := by omega
      have new : m < 8 * (n / 8 + if n % 8 ≠ 0 then 1 else 0) := by omega
      have kept : m ∉ List.range' n (8 - n % 8) := by
        intro member
        have := (List.mem_range'_1.mp member).1
        omega
      rw [decide_eq_true new, decide_eq_true old, decide_eq_false kept, Bool.not_false, Bool.and_true]
    · have none := clear m (not_lt.mp low)
      rw [getAt_eq_and short] at none
      rw [none]
      by_cases new : m < 8 * (n / 8 + if n % 8 ≠ 0 then 1 else 0)
      · have member : m ∈ List.range' n (8 - n % 8) := by
          rw [List.mem_range'_1]
          split at new <;> omega
        simp [member]
      · rw [decide_eq_false new, Bool.false_and]
  · intro k member
    have := List.mem_range'_1.mp member
    omega

theorem asInt_eq_some_iff : asInt n = some k ↔ n < 2 ^ 31 ∧ n = k := by
  unfold asInt
  split
  · rename_i fits
    rw [Option.some.injEq]
    exact (and_iff_right fits).symm
  · rename_i unfit
    apply iff_of_false
    · rintro ⟨⟩
    · exact fun both => unfit both.1

theorem asInt_bits (short : Short a) : asInt (a.nLength * 8) = some (8 * a.nLength) := by
  have short : a.nLength < 2 ^ 28 := short
  unfold asInt
  rw [if_pos (by omega), Nat.mul_comm]

/-- The bits of the range are gone and the bits behind them have moved down. -/
theorem delete_shows (short : Short a) {nStart nEnd : Int} (placed : 0 ≤ nStart) :
    ∃ b, a.delete nStart nEnd = some b ∧ ∀ n : Nat, b.getAt n =
      if n < nStart then a.getAt n else a.getAt (n + (nEnd + 1 - nStart).toNat) := by
  unfold SFBitArray.delete
  rw [asInt_bits short]
  simp only [Option.bind_eq_bind, Option.bind_some]
  split
  · rename_i nothing
    refine ⟨a, rfl, ?_⟩
    intro n
    split
    · rfl
    · rcases nothing with behind | empty
      · rw [getAt_beyond short (by omega), getAt_beyond short (by omega)]
      · rw [show (nEnd + 1 - nStart).toNat = 0 by omega, Nat.add_zero]
  · rename_i some
    rw [not_or, not_le, not_lt] at some
    rw [if_neg (not_lt.mpr placed)]
    generalize first : nStart.toNat = s
    generalize last : (min nEnd (((8 * a.nLength : Nat) : Int) - 1)).toNat = e
    have le : s ≤ e := by omega
    have inside : e < 8 * a.nLength := by omega
    obtain ⟨size, reset⟩ := resetRange_shows s e short
    have short' : Short (a.resetRange s e) := by
      unfold Short
      rw [size]
      exact short
    have below : ∀ k ∈ List.range' (e + 1) (8 * a.nLength - (e + 1)),
        e < k ∧ k < 8 * (a.resetRange s e).nLength := by
      intro k member
      have := List.mem_range'_1.mp member
      omega
    obtain ⟨size', shifted⟩ := foldl_shiftBit le short' below
    have bits (m : Nat) := @foldl_lower (a.resetRange s e).getAt (e + 1 - s) m
      (8 * a.nLength - (e + 1)) (e + 1) (by omega) (by omega) (by
        intro m low high
        have covered : s ≤ m ∧ m ≤ e := by omega
        rw [reset, decide_eq_true covered, Bool.not_true, Bool.and_false])
    rw [← shifted] at bits
    have short'' : Short ((List.range' (e + 1) (8 * a.nLength - (e + 1))).foldl
        (SFBitArray.shiftBit s e) (a.resetRange s e)) := by
      unfold Short
      rw [size', size]
      exact short
    have kept (m : Nat) (outside : m < s ∨ e < m) : (a.resetRange s e).getAt m = a.getAt m := by
      rw [reset, decide_eq_false (by omega), Bool.not_false, Bool.and_true]
    have ends : e + 1 + (8 * a.nLength - (e + 1)) = 8 * a.nLength := by omega
    rw [ends] at bits
    have clear (m : Nat) (behind : 8 * a.nLength - (e - s + 1) ≤ m) :
        ((List.range' (e + 1) (8 * a.nLength - (e + 1))).foldl (SFBitArray.shiftBit s e)
          (a.resetRange s e)).getAt m = false := by
      rw [bits, if_neg (by omega), if_neg (by omega)]
      by_cases low : m < 8 * a.nLength
      · rw [if_pos low]
      · rw [if_neg low, kept m (.inr (by omega)), getAt_beyond short (not_lt.mp low)]
    obtain ⟨b, cut, same⟩ := cutBits_shows short'' (by rw [size', size]; omega) clear
    refine ⟨b, cut, ?_⟩
    intro m
    rw [same]
    have start : e + 1 - (e + 1 - s) = s := by omega
    by_cases before : m < s
    · rw [bits, start, if_pos before, kept m (.inl before), if_pos (show (m : Int) < nStart by omega)]
    · rw [if_neg (show ¬(m : Int) < nStart by omega)]
      by_cases here : m < 8 * a.nLength - (e + 1 - s)
      · rw [bits, start, if_neg before, if_pos here, kept _ (.inr (by omega))]
        congr 2
        omega
      · rw [clear m (by omega), getAt_beyond short (by omega)]

/-! ## Insert -/

section Insert

variable {nStart : Int} {nCount : Nat} {bSet : Bool}

/-- The length that is asked for is the length that there is. -/
theorem grown_shows (a : SFBitArray) (nStart : Int) (nCount : Nat) :
    (a.setLength (a.insertLength nStart nCount)).nLength = a.insertLength nStart nCount ∧
      ∀ n < 8 * a.insertLength nStart nCount,
        bitAt (a.setLength (a.insertLength nStart nCount)).buffer n = bitAt a.buffer n := by
  have long : 8 * a.nLength ≤ a.insertLength nStart nCount := by
    unfold SFBitArray.insertLength
    omega
  generalize a.insertLength nStart nCount = k at *
  by_cases none : k = 0
  · subst none
    refine ⟨rfl, ?_⟩
    intro n below
    omega
  · obtain ⟨size, bits⟩ := @enlarge a k (a.nLength < k) _ .rfl
    rw [if_pos (show a.nLength < k by omega)] at size bits
    refine ⟨by omega, ?_⟩
    intro n _
    exact bits n

/-- The bits behind `nStart` have moved up. -/
theorem moved_shows (short : a.insertLength nStart nCount < 2 ^ 28) (s n : Nat) :
    (((a.setLength (a.insertLength nStart nCount)).write
      (SFBitArray.moveBits s nCount (8 * a.nLength)) (SFBitArray.length_moveBits _ _ _)).getAt n = true) ↔
        n < 8 * a.insertLength nStart nCount ∧
          ((s + nCount ≤ n ∧ n < s + (8 * a.nLength - s) + nCount ∧ bitAt a.buffer (n - nCount) = true) ∨
            (n < s ∨ s + (8 * a.nLength - s) ≤ n) ∧ bitAt a.buffer n = true) := by
  obtain ⟨size, bits⟩ := grown_shows a nStart nCount
  have room := (a.setLength (a.insertLength nStart nCount)).within
  have long : 8 * a.nLength + nCount ≤ a.insertLength nStart nCount := by
    unfold SFBitArray.insertLength
    omega
  have short' : Short ((a.setLength (a.insertLength nStart nCount)).write
      (SFBitArray.moveBits s nCount (8 * a.nLength)) (SFBitArray.length_moveBits _ _ _)) :=
    lt_of_eq_of_lt size short
  rw [getAt_eq_and short', Bool.and_eq_true, decide_eq_true_eq]
  change n < 8 * (a.setLength _).nLength ∧ bitAt (SFBitArray.moveBits s nCount (8 * a.nLength) _) n = true ↔ _
  rw [bitAt_moveBits (by omega), foldr_raise, size]
  apply and_congr_right
  intro below
  rw [bits n below]
  apply or_congr_left
  apply and_congr_right
  intro low
  apply and_congr_right
  intro high
  rw [bits (n - nCount) (by omega)]

/-- What there is after an insertion, with the bits that were left in the buffer. -/
def Shown (a : SFBitArray) (nStart : Int) (nCount : Nat) (bSet : Bool) (n : Nat) : Prop :=
  (n ≤ nStart ∧ n < 8 * a.insertLength nStart nCount ∧ bitAt a.buffer n = true) ∨
    (nStart < n ∧ n ≤ nStart + nCount ∧ bSet = true) ∨
      (nStart + nCount < n ∧ n < 8 * a.insertLength nStart nCount ∧
        (n - nCount < 8 * a.nLength ∧ bitAt a.buffer (n - nCount) = true ∨
          8 * a.nLength ≤ n ∧ bitAt a.buffer n = true))

theorem insert_shows (placed : -1 ≤ nStart) (short : a.insertLength nStart nCount < 2 ^ 28) :
    ∃ b, a.insert nStart nCount bSet = some b ∧ Short b ∧
      ∀ n, b.getAt n = true ↔ Shown a nStart nCount bSet n := by
  have sum : (a.insertLength nStart nCount : Int) =
      8 * a.nLength + nCount + (nStart - 8 * a.nLength).toNat := by
    unfold SFBitArray.insertLength
    omega
  have shortOld : Short a := by
    unfold Short
    omega
  obtain ⟨size, _⟩ := grown_shows a nStart nCount
  have moved := moved_shows short (nStart + 1).toNat
  unfold SFBitArray.insert
  rw [asInt_bits shortOld, asInt, if_pos (show a.insertLength nStart nCount < 2 ^ 31 by omega)]
  simp only [Option.bind_eq_bind, Option.bind_some]
  rw [if_neg (not_lt.mpr placed)]
  generalize grown : (a.setLength (a.insertLength nStart nCount)).write
    (SFBitArray.moveBits (nStart + 1).toNat nCount (8 * a.nLength)) (SFBitArray.length_moveBits _ _ _) = g at *
  have length : g.nLength = a.insertLength nStart nCount := by
    rw [← grown]
    exact size
  have shortNew : Short g := lt_of_eq_of_lt length short
  rw [asInt_bits shortNew, Option.bind_some]
  unfold Shown
  by_cases empty : nStart + nCount < 0
  · rw [if_pos empty]
    refine ⟨g.setModified, rfl, shortNew, ?_⟩
    intro n
    change g.getAt n = true ↔ _
    rw [moved]
    have none : nCount = 0 := by omega
    have first : (nStart + 1).toNat = 0 := by omega
    have start : nStart = -1 := by omega
    rw [none, first, start, Nat.sub_zero]
    grind
  · obtain ⟨e, ends⟩ := Int.eq_ofNat_of_zero_le (not_lt.mp empty)
    rw [if_neg empty, ends, Int.toNat_natCast]
    have last : e ≤ a.insertLength nStart nCount := by omega
    cases bSet with
    | false =>
        obtain ⟨size', bits⟩ := resetRange_shows (nStart + 1).toNat e shortNew
        refine ⟨_, rfl, lt_of_eq_of_lt (size'.trans length) short, ?_⟩
        intro n
        rw [if_neg Bool.false_ne_true, bits, Bool.and_eq_true, moved]
        generalize bitAt a.buffer n = here
        generalize bitAt a.buffer (n - nCount) = there
        cases here <;> cases there <;> simp <;> omega
    | true =>
        have fits : e / 8 + 1 < 2 ^ 28 := by omega
        have clear (n : Nat) (low : 8 * g.nLength ≤ n) (high : n < 8 * (e / 8 + 1)) :
            bitAt g.buffer n = false := by
          have none : a.insertLength nStart nCount = 0 := by omega
          have freed : g.buffer = [] := by
            rw [← List.length_eq_zero_iff, ← grown, none]
            exact SFBitArray.length_moveBits _ _ _ []
          rw [freed]
          simp [bitAt]
        obtain ⟨size', bits⟩ := setRange_shows (nStart + 1).toNat e shortNew fits clear
        refine ⟨_, rfl, lt_of_eq_of_lt size' (max_lt shortNew fits), ?_⟩
        intro n
        rw [if_pos rfl, bits, Bool.or_eq_true, moved]
        generalize bitAt a.buffer n = here
        generalize bitAt a.buffer (n - nCount) = there
        cases here <;> cases there <;> simp <;> omega

theorem insert_iff : (∃ b, a.insert nStart nCount bSet = some b) ↔
    -1 ≤ nStart ∧ a.insertLength nStart nCount < 2 ^ 28 := by
  constructor
  · rintro ⟨b, is⟩
    unfold SFBitArray.insert at is
    obtain ⟨nMaxBits, _, is⟩ := Option.bind_eq_some_iff.mp is
    obtain ⟨nLength, fits, is⟩ := Option.bind_eq_some_iff.mp is
    split at is
    · cases is
    · rename_i placed
      obtain ⟨nBits, counted, _⟩ := Option.bind_eq_some_iff.mp is
      obtain rfl := (asInt_eq_some_iff.mp fits).2
      have short := (asInt_eq_some_iff.mp counted).1
      have size : ((a.setLength (a.insertLength nStart nCount)).write
          (SFBitArray.moveBits (nStart + 1).toNat nCount nMaxBits)
            (SFBitArray.length_moveBits _ _ _)).nLength = a.insertLength nStart nCount :=
        (grown_shows a nStart nCount).1
      exact ⟨not_lt.mp placed, by omega⟩
  · rintro ⟨placed, short⟩
    obtain ⟨b, is, _⟩ := @insert_shows a nStart nCount bSet placed short
    exact ⟨b, is⟩

/-- The bits that were left show just where they should not. -/
theorem shown_iff (bSet : Bool) (placed : -1 ≤ nStart) (short : a.insertLength nStart nCount < 2 ^ 28) (n : Nat) :
    (Shown a nStart nCount bSet n ↔ a.inserted nStart nCount bSet n = true) ↔
      (8 * a.nLength ≤ n → n < 8 * a.insertLength nStart nCount → getBit a.buffer n = true →
        nStart < n ∧ (n ≤ nStart + nCount ∨ a.getAt (n - nCount) = true)) := by
  have long : 8 * a.nLength + nCount ≤ a.insertLength nStart nCount := by
    unfold SFBitArray.insertLength
    omega
  have shortOld : Short a := by
    unfold Short
    omega
  unfold Shown SFBitArray.inserted
  rw [getBit_eq]
  by_cases before : n ≤ nStart
  · rw [if_pos before, getAt_eq_and shortOld]
    cases bitAt a.buffer n <;> simp <;> omega
  · rw [if_neg before]
    by_cases inside : n ≤ nStart + nCount
    · rw [if_pos inside]
      cases bSet <;> simp <;> omega
    · rw [if_neg inside, getAt_eq_and shortOld]
      cases bitAt a.buffer n <;> cases bitAt a.buffer (n - nCount) <;> simp <;> omega

theorem insertDeletes_iff_insertsWell (a : SFBitArray) (nStart : Int) (nCount : Nat) (bSet : Bool) :
    a.InsertDeletes nStart nCount bSet ↔ a.InsertsWell nStart nCount := by
  constructor
  · rintro ⟨b, is, shows, _⟩
    obtain ⟨placed, short⟩ := insert_iff.mp ⟨b, is⟩
    refine ⟨placed, short, ?_⟩
    intro n
    apply (shown_iff bSet placed short n).mp
    obtain ⟨b', is', _, bits⟩ := @insert_shows a nStart nCount bSet placed short
    cases is.symm.trans is'
    rw [← bits, shows]
  · rintro ⟨placed, short, exposes⟩
    obtain ⟨b, is, short', bits⟩ := @insert_shows a nStart nCount bSet placed short
    have shows (n : Nat) : b.getAt n = a.inserted nStart nCount bSet n := by
      rw [Bool.eq_iff_iff, bits]
      exact (shown_iff bSet placed short n).mpr (exposes n)
    obtain ⟨c, gone, same⟩ := @delete_shows b short' (nStart + 1) (nStart + nCount) (by omega)
    refine ⟨b, is, shows, c, gone, ?_⟩
    intro n
    rw [same, shows, shows]
    unfold SFBitArray.inserted
    split
    · rw [if_pos (by omega)]
    · rw [if_neg (by omega), if_neg (by omega)]
      congr 1
      omega

end Insert

/-! ## Arrays that are built -/

/-- The bits can be counted, and none is left behind the length. -/
structure Tidy (a : SFBitArray) : Prop where
  short : Short a
  clear : ∀ n, 8 * a.nLength ≤ n → bitAt a.buffer n = false

theorem init_tidy (fits : buffer.length < 2 ^ 28) : Tidy (SFBitArray.init buffer) := by
  have cut : (SFBitArray.init buffer).nLength = SFBitArray.trimmed buffer buffer.length := rfl
  constructor
  · exact Nat.lt_of_le_of_lt (SFBitArray.trimmed_le ..) fits
  · intro n behind
    have zero : buffer.getD (n / 8) 0 = 0 := by
      by_cases inside : n / 8 < buffer.length
      · exact trimmed_zero buffer (by omega) inside
      · rw [List.getD_eq_getElem?_getD, List.getElem?_eq_none (not_lt.mp inside)]
        rfl
    unfold bitAt
    change (buffer.getD (n / 8) 0).getLsbD (n % 8) = false
    rw [zero]
    exact BitVec.getLsbD_zero

theorem Tidy.setRange (tidy : Tidy a) (fits : e / 8 + 1 < 2 ^ 28) : Tidy (a.setRange s e) := by
  have size := (setRange_merged s e tidy.short).nLength
  constructor
  · exact lt_of_eq_of_lt size (max_lt tidy.short fits)
  · intro n behind
    rw [size] at behind
    obtain ⟨grown, bits⟩ := @enlarge a (e / 8 + 1) ((e : Int) ≥ bitLength a.nLength) _
      (by rw [bitLength_eq tidy.short]; omega)
    have room := (if (e : Int) ≥ bitLength a.nLength then a.setLength (e / 8 + 1) else a).within
    have outside : n ∉ bitRange s e := by
      rw [mem_bitRange]
      omega
    refine (foldl_setBit (nodup_bitRange _ _) ?_).trans ?_
    · intro m member
      have := (mem_bitRange.mp member).2
      omega
    · rw [bits, tidy.clear n (by omega), decide_eq_false outside]
      rfl

theorem Tidy.resetRange (tidy : Tidy a) : Tidy (a.resetRange s e) := by
  have size := (resetRange_merged s e tidy.short).nLength
  have room := a.within
  constructor
  · exact lt_of_eq_of_lt (size.trans (Nat.max_zero _)) tidy.short
  · intro n behind
    refine (foldl_resetBit (nodup_bitRange _ _) ?_).trans ?_
    · intro m member
      have last := (mem_bitRange.mp member).2
      rw [bitLength_eq tidy.short] at last
      split at last <;> omega
    · rw [tidy.clear n (by omega), Bool.false_and]

theorem Tidy.build (tidy : Tidy a) {call : SFBitArray.BuildCall} (fits : call.Fits) :
    Tidy (a.build call) := by
  cases call with
  | init pBuffer => exact init_tidy fits
  | setAt nBit =>
      change Tidy (a.setAt nBit)
      rw [setAt_eq]
      exact tidy.setRange fits
  | resetAt nBit =>
      change Tidy (a.resetAt nBit)
      rw [resetAt_eq]
      exact tidy.resetRange
  | setRange nStartBit nEndBit => exact tidy.setRange fits

theorem run_tidy {calls : List SFBitArray.BuildCall} (run : Run SFBitArray.Builds a calls b)
    (fits : ∀ call ∈ calls, call.Fits) (tidy : Tidy a) : Tidy b := by
  induction run with
  | start => exact tidy
  | next rest step ih =>
      rw [List.forall_mem_append, List.forall_mem_singleton] at fits
      cases step
      exact (ih fits.1).build fits.2

theorem Tidy.insertsWell_iff (tidy : Tidy a) (nStart : Int) (nCount : Nat) :
    a.InsertsWell nStart nCount ↔ -1 ≤ nStart ∧ a.insertLength nStart nCount < 2 ^ 28 := by
  constructor
  · exact fun well => ⟨well.placed, well.short⟩
  · rintro ⟨placed, short⟩
    refine ⟨placed, short, ?_⟩
    intro n behind _ set
    rw [getBit_eq, tidy.clear n behind] at set
    cases set

/-- When the calls that build the array fit, it matters only where and how much is inserted. -/
theorem insertDeletes_iff {calls : List SFBitArray.BuildCall} (run : Run SFBitArray.Builds {} calls a)
    (nStart : Int) (nCount : Nat) (bSet : Bool) :
    (a.InsertDeletes nStart nCount bSet ↔ a.InsertsWell nStart nCount) ∧
      ((∀ call ∈ calls, call.Fits) →
        (a.InsertsWell nStart nCount ↔ -1 ≤ nStart ∧ a.insertLength nStart nCount < 2 ^ 28)) := by
  refine ⟨insertDeletes_iff_insertsWell a nStart nCount bSet, ?_⟩
  intro fits
  have empty : Tidy {} := by
    constructor
    · exact Nat.two_pow_pos 28
    · intro n _
      simp [bitAt]
  exact (run_tidy run fits empty).insertsWell_iff nStart nCount

/-- Five bits are inserted behind bit 2 of three bytes. -/
def threeBytes : List SFBitArray.BuildCall :=
  [.init [0xa5, 0x3c, 0], .setAt 17, .resetAt 2, .setRange 9 12]

theorem threeBytes_insertDeletes : ∃ a, Run SFBitArray.Builds {} threeBytes a ∧
    a.getAt 17 = true ∧ a.InsertDeletes 2 5 true := by
  have run : Run SFBitArray.Builds {} threeBytes (threeBytes.foldl SFBitArray.build {}) := .of_foldl ..
  have shows : (threeBytes.foldl SFBitArray.build {}).getAt 17 = true ∧
      (threeBytes.foldl SFBitArray.build {}).insertLength 2 5 < 2 ^ 28 := by
    decide
  have fits : ∀ call ∈ threeBytes, call.Fits := by
    simp [threeBytes, SFBitArray.BuildCall.Fits]
  have well := insertDeletes_iff run 2 5 true
  exact ⟨_, run, shows.1, well.1.mpr ((well.2 fits).mpr ⟨by decide, shows.2⟩)⟩

/-- 2 ^ 28 bits are inserted into one byte: as many bytes and eight more are asked for. -/
theorem oneByte_not_inserted : ∃ a, Run SFBitArray.Builds {} [.init [0x20]] a ∧
    a.insert 0 (2 ^ 28) false = none ∧ ¬a.InsertDeletes 0 (2 ^ 28) false := by
  have long : ¬(SFBitArray.init [0x20]).insertLength 0 (2 ^ 28) < 2 ^ 28 := by decide
  have fails (b : SFBitArray) (is : (SFBitArray.init [0x20]).insert 0 (2 ^ 28) false = some b) : False :=
    long (insert_iff.mp ⟨b, is⟩).2
  refine ⟨SFBitArray.init [0x20], .next .start rfl, ?_, ?_⟩
  · exact Option.eq_none_iff_forall_ne_some.mpr fun b is => fails b is
  · rintro ⟨b, is, _⟩
    exact fails b is

end Cgsf.Proof.BaseLayer
