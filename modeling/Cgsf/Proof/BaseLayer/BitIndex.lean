import Cgsf.BaseLayer.BitIndex
import Cgsf.Library.Selection
import Cgsf.Proof.BaseLayer.BitRanges

/-!
# Rank and select on the bit array
-/

namespace Cgsf.Proof.BaseLayer
open Cgsf.BaseLayer Library

variable {a a' : IndexedArray} {seg size k n : Nat} {ns xs : List Nat}

theorem setBits_eq (a : IndexedArray) : a.setBits = stretch (bitAt a.buffer) 0 (8 * a.nLength) := by
  unfold IndexedArray.setBits stretch
  rw [List.range_eq_range', Nat.sub_zero]
  congr 1
  funext n
  exact getBit_eq

theorem mem_setBits : n ∈ a.setBits ↔ n < 8 * a.nLength ∧ bitAt a.buffer n = true := by
  rw [setBits_eq, mem_stretch]
  simp

/-! ## Index -/

theorem foldl_indexBit_none (ns : List Nat) : ns.foldl (IndexedArray.indexBit seg size) none = none := by
  induction ns with
  | nil => rfl
  | cons n ns ih => exact ih

theorem bind_foldl_indexBit (r : Option (Nat × List Nat)) (ns : List Nat) :
    (r.bind fun r => ns.foldl (IndexedArray.indexBit seg size) (some r)) =
      ns.foldl (IndexedArray.indexBit seg size) r := by
  cases r with
  | none => exact (foldl_indexBit_none ns).symm
  | some r => rfl

/-- The loop over the set bits notes every `seg`-th, if there is room for them. -/
theorem foldl_indexBit (positive : 0 < seg) (ns : List Nat) : ∃ xs, Samples seg ns xs ∧
    ns.foldl (IndexedArray.indexBit seg size) (some (0, [])) =
      if xs.length ≤ size then some (ns.length, xs) else none := by
  induction ns using List.reverseRecOn with
  | nil => exact ⟨[], .nil seg, (if_pos (Nat.zero_le size)).symm⟩
  | append_singleton ns n ih =>
      obtain ⟨xs, samples, loop⟩ := ih
      rw [List.foldl_append, loop, List.length_append, List.length_singleton]
      by_cases whole : ns.length % seg = 0
      · refine ⟨xs ++ [n], samples.take whole positive, ?_⟩
        rw [List.length_append, List.length_singleton]
        by_cases room : xs.length ≤ size
        · rw [if_pos room]
          simp [IndexedArray.indexBit, whole, Nat.succ_le_iff]
        · rw [if_neg room, if_neg (by omega)]
          rfl
      · refine ⟨xs, samples.skip whole, ?_⟩
        by_cases room : xs.length ≤ size
        · rw [if_pos room, if_pos room]
          simp [IndexedArray.indexBit, whole]
        · rw [if_neg room, if_neg room]
          rfl

/-- The positions of a byte with a set bit in it fit. -/
def ByteFits (a : IndexedArray) (k : Nat) : Prop := a.buffer.getD k 0 ≠ 0 → 8 * k < 2 ^ 31

theorem indexByte_iff {r r' : Nat × List Nat} : a.indexByte seg size r k = some r' ↔
    ByteFits a k ∧ (stretch (bitAt a.buffer) (8 * k) (8 * (k + 1))).foldl
      (IndexedArray.indexBit seg size) (some r) = some r' := by
  have place : k <<< 3 = 8 * k := by rw [Nat.shiftLeft_eq, Nat.mul_comm]
  rw [stretch_byte, ← byteLoop_eq _ _ (a.buffer.getD k 0).isLt, ← byteLoop_guard]
  unfold IndexedArray.indexByte ByteFits asInt
  rw [place]
  by_cases set : a.buffer.getD k 0 ≠ 0
  · rw [if_pos set, if_pos set]
    by_cases fits : 8 * k < 2 ^ 31
    · rw [if_pos fits]
      exact (and_iff_right fun _ => fits).symm
    · rw [if_neg fits]
      apply iff_of_false
      · rintro ⟨⟩
      · rintro ⟨byte, _⟩
        exact fits (byte set)
  · rw [if_neg set, if_neg set]
    exact (and_iff_right fun is => absurd is set).symm

theorem indexBytes_iff {r r' : Nat × List Nat} :
    (List.range' k n).foldlM (a.indexByte seg size) r = some r' ↔
      (∀ j ∈ List.range' k n, ByteFits a j) ∧ (stretch (bitAt a.buffer) (8 * k) (8 * (k + n))).foldl
        (IndexedArray.indexBit seg size) (some r) = some r' := by
  induction n generalizing k r with
  | zero =>
      rw [stretch_of_le (show 8 * (k + 0) ≤ 8 * k from Nat.le_refl _)]
      simp
  | succ n ih =>
      have split : (stretch (bitAt a.buffer) (8 * k) (8 * (k + (n + 1)))).foldl
          (IndexedArray.indexBit seg size) (some r) = some r' ↔
            ∃ r₁, (stretch (bitAt a.buffer) (8 * k) (8 * (k + 1))).foldl
              (IndexedArray.indexBit seg size) (some r) = some r₁ ∧
                (stretch (bitAt a.buffer) (8 * (k + 1)) (8 * (k + 1 + n))).foldl
                  (IndexedArray.indexBit seg size) (some r₁) = some r' := by
        rw [stretch_bytes_succ, List.foldl_append, ← bind_foldl_indexBit, Option.bind_eq_some_iff]
      rw [List.range'_succ, List.foldlM_cons, List.forall_mem_cons, split]
      change (a.indexByte seg size r k).bind _ = _ ↔ _
      rw [Option.bind_eq_some_iff]
      simp only [indexByte_iff, ih]
      constructor
      · rintro ⟨r₁, ⟨first, here⟩, rest, there⟩
        exact ⟨⟨first, rest⟩, r₁, here, there⟩
      · rintro ⟨⟨first, rest⟩, r₁, here, there⟩
        exact ⟨r₁, ⟨first, here⟩, rest, there⟩

/-- The index is there: where every `m_nBitSeg`-th set bit is. -/
structure Noted (a : IndexedArray) (xs : List Nat) : Prop where
  nCount : a.nCount = a.setBits.length
  nIndexes : a.nIndexes = some xs
  positive : 0 < a.nBitSeg
  samples : Samples a.nBitSeg a.setBits xs

/-- The count that the segments and the room for the index are computed from. -/
abbrev keptCount (a : IndexedArray) : Nat := a.getCount.1.toNat

theorem index_iff (full : a.nLength ≠ 0) : a.index = some a' ↔
    (∀ j < a.nLength, ByteFits a j) ∧
      ∃ xs, Noted a' xs ∧ xs.length ≤ indexSize (keptCount a) ∧ a'.nBitSeg = bitSeg (keptCount a) ∧
        a'.buffer = a.buffer ∧ a'.nLength = a.nLength := by
  obtain ⟨xs, samples, loop⟩ :=
    @foldl_indexBit (bitSeg (keptCount a)) (indexSize (keptCount a)) (Nat.succ_pos _) a.setBits
  have bytes (r : Nat × List Nat) := @indexBytes_iff a (bitSeg (keptCount a))
    (indexSize (keptCount a)) 0 a.nLength (0, []) r
  simp only [Nat.zero_add, Nat.mul_zero, ← setBits_eq, loop, ← List.range_eq_range', List.mem_range] at bytes
  unfold IndexedArray.index
  rw [if_neg full]
  constructor
  · intro is
    obtain ⟨r, result, same⟩ := Option.bind_eq_some_iff.mp is
    cases same
    obtain ⟨fits, result⟩ := (bytes r).mp result
    split at result
    · rename_i room
      cases result
      exact ⟨fits, xs, ⟨rfl, rfl, Nat.succ_pos _, samples⟩, room, rfl, rfl, rfl⟩
    · cases result
  · rintro ⟨fits, xs', noted, room, seg, buffer, nLength⟩
    have same : a'.setBits = a.setBits := by
      unfold IndexedArray.setBits
      rw [buffer, nLength]
    have equal : xs' = xs := by
      apply List.ext_getElem?
      intro j
      rw [noted.samples, seg, same, samples]
    subst equal
    rw [if_pos room] at bytes
    apply Option.bind_eq_some_iff.mpr
    refine ⟨(a.setBits.length, xs'), (bytes _).mpr ⟨fits, rfl⟩, ?_⟩
    have count := noted.nCount
    have indexes := noted.nIndexes
    rw [same] at count
    obtain ⟨⟨buffer', nLength', within, nCount⟩, counted, nIndexes, nBitSeg⟩ := a'
    cases buffer
    cases nLength
    cases count
    cases indexes
    cases seg
    rfl

section Lookup

variable (noted : Noted a xs)
include noted

theorem Noted.getCount : a.getCount = ((a.setBits.length : Int), a) := by
  have kept := noted.nCount
  have base : a.toSFBitArray.getCount = (a.nCount, a.toSFBitArray) := if_neg (by omega)
  have same (b : SFBitArray) (counted : -1 ≤ b.nCount) (is : b = a.toSFBitArray) :
      ({ a with toSFBitArray := b, counted } : IndexedArray) = a := by
    cases is
    rfl
  apply Prod.ext
  · exact (congrArg Prod.fst base).trans kept
  · exact same _ _ (congrArg Prod.snd base)

theorem Noted.indexed : a.indexed = some a := by
  rw [IndexedArray.indexed, noted.nIndexes]
  rfl

/-- `GetIndexBit` leaves the array as it is. -/
theorem Noted.getIndexBit (k : Int) : a.getIndexBit k =
    (if 0 ≤ k ∧ k < a.setBits.length then a.indexBitAt k.toNat else some (-1)).map (·, a) := by
  unfold IndexedArray.getIndexBit
  rw [noted.getCount]
  by_cases low : k ≤ -1
  · rw [if_pos low, if_neg (by omega)]
    rfl
  · rw [if_neg low]
    by_cases high : k ≥ a.setBits.length
    · rw [if_pos high, if_neg (by omega)]
      rfl
    · rw [if_neg high, if_pos (by omega), noted.indexed]
      exact Option.map_eq_bind.symm

theorem Noted.getBitIndex (n : Int) : a.getBitIndex n =
    (if a.setBits = [] then some (-1) else a.bitIndexAt n).map (·, a) := by
  unfold IndexedArray.getBitIndex
  rw [noted.getCount]
  by_cases none : a.setBits = []
  · rw [if_pos none, none]
    rfl
  · have some : ¬(a.setBits.length : Int) = 0 := by
      intro zero
      exact none (List.length_eq_zero_iff.mp (Int.ofNat.inj zero))
    rw [if_neg some, if_neg none, noted.indexed]
    exact Option.map_eq_bind.symm

end Lookup

/-! ## GetIndexBit -/

theorem nextBit_eq (a : IndexedArray) (ns : List Nat) (r b : Nat) : a.nextBit ns r b =
    ((b :: ns.filter a.toSFBitArray.getAt)[r]?.map Int.ofNat).getD (-1) := by
  induction ns generalizing r b with
  | nil => cases r <;> simp [IndexedArray.nextBit]
  | cons n ns ih =>
      cases r with
      | zero => simp [IndexedArray.nextBit]
      | succ r =>
          rw [IndexedArray.nextBit, ih, List.filter_cons]
          split
          · rfl
          · rfl

theorem bitLength_le (nLength : Nat) : bitLength nLength ≤ 8 * nLength := by
  unfold bitLength
  rw [BitVec.toInt_shiftLeft, BitVec.toNat_ofNat, Nat.shiftLeft_eq, Int.bmod_def]
  omega

/-- `GetAt` shows set bits only. -/
theorem setBits_of_getAt (shows : a.toSFBitArray.getAt n = true) : n ∈ a.setBits := by
  have set := bitAt_of_getAt shows
  have last := bitLength_le a.nLength
  rw [SFBitArray.getAt] at shows
  split at shows
  · cases shows
  · exact mem_setBits.mpr ⟨by omega, set⟩

/-- `GetAt` shows the set bits. -/
def Known (a : IndexedArray) : Prop := ∀ n ∈ a.setBits, a.toSFBitArray.getAt n = true

theorem Known.getAt (known : Known a) (n : Nat) :
    a.toSFBitArray.getAt n = (bitAt a.buffer n && decide (n < 8 * a.nLength)) := by
  rw [Bool.eq_iff_iff, Bool.and_eq_true, decide_eq_true_eq]
  constructor
  · intro shows
    exact (mem_setBits.mp (setBits_of_getAt shows)).symm
  · rintro ⟨set, inside⟩
    exact known n (mem_setBits.mpr ⟨inside, set⟩)

theorem Known.stretch (known : Known a) {s e : Nat} (inside : e ≤ 8 * a.nLength) :
    stretch a.toSFBitArray.getAt s e = stretch (bitAt a.buffer) s e := by
  apply stretch_congr
  intro n _ high
  rw [known.getAt, decide_eq_true (by omega), Bool.and_true]

/-- Nothing is seen from `nMaxBit` on, so a scan to there sees all that is left. -/
theorem Known.scan (known : Known a) (s : Nat) :
    (bitRange s (bitLength a.nLength - 1)).filter a.toSFBitArray.getAt =
      Library.stretch (bitAt a.buffer) s (8 * a.nLength) := by
  have ends := bitLength_le a.nLength
  have range : (bitRange s (bitLength a.nLength - 1)).filter a.toSFBitArray.getAt =
      Library.stretch a.toSFBitArray.getAt s (bitLength a.nLength).toNat := by
    rw [bitRange, Library.stretch]
    congr 2
    omega
  rw [range, ← known.stretch (Nat.le_refl _)]
  have nothing {m : Nat} (beyond : (bitLength a.nLength).toNat ≤ m) : a.toSFBitArray.getAt m = false := by
    rw [SFBitArray.getAt, if_pos (by omega)]
  by_cases beyond : (bitLength a.nLength).toNat ≤ s
  · rw [stretch_of_le beyond, eq_comm, stretch_eq_nil_iff]
    intro n low _
    exact nothing (beyond.trans low)
  · have rest : Library.stretch a.toSFBitArray.getAt (bitLength a.nLength).toNat (8 * a.nLength) = [] := by
      rw [stretch_eq_nil_iff]
      intro n low _
      exact nothing low
    rw [← stretch_append _ (not_le.mp beyond).le (show (bitLength a.nLength).toNat ≤ 8 * a.nLength by omega),
      rest, List.append_nil]

theorem getIndexBit_eq (noted : Noted a xs) (known : Known a) (inside : k < a.setBits.length) :
    a.indexBitAt k = a.setBits[k]?.map Int.ofNat := by
  have whole := Nat.div_add_mod k a.nBitSeg
  have start : k / a.nBitSeg * a.nBitSeg < a.setBits.length := by
    rw [Nat.mul_comm]
    omega
  have entry : k / a.nBitSeg < xs.length := noted.samples.lt_length_iff.mpr start
  have place := noted.samples (k / a.nBitSeg)
  rw [List.getElem?_eq_getElem entry] at place
  unfold IndexedArray.indexBitAt
  rw [noted.nIndexes]
  simp only [Option.bind_eq_bind, Option.bind_some, if_neg (not_le.mpr entry)]
  by_cases one : a.nBitSeg = 1
  · have direct := noted.samples k
    rw [one, Nat.mul_one] at direct
    rw [if_pos one, direct, List.getElem?_eq_getElem inside]
    rfl
  · have begins : (Library.stretch (bitAt a.buffer) 0 (8 * a.nLength))[k / a.nBitSeg * a.nBitSeg]? =
        some xs[k / a.nBitSeg] := by
      rw [← setBits_eq, place]
    have ⟨_, low, set⟩ := mem_stretch.mp (List.mem_of_getElem? begins)
    have rest := drop_select begins
    rw [← setBits_eq, stretch_cons set low, ← known.scan] at rest
    rw [if_neg one, List.getElem?_eq_getElem entry, Option.bind_some, nextBit_eq, ← rest,
      List.getElem?_drop, Nat.mul_comm, whole, List.getElem?_eq_getElem inside]
    rfl

/-! ## GetBitIndex -/

/-- Whatever the search is for, it ends at an entry of the index. -/
theorem select_ends {nBit : Int} {fuel s m : Nat} {e : Int} (low : m < xs.length)
    (high : e ≤ xs.length) (enough : e < s + fuel) (positive : 0 < fuel) :
    ∃ m', IndexedArray.search xs nBit fuel s e m = some m' ∧ m' < xs.length := by
  induction fuel generalizing s e m with
  | zero => exact absurd positive (Nat.lt_irrefl 0)
  | succ fuel ih =>
      rw [IndexedArray.search]
      split
      · rename_i more
        have middle : ((e + s) / 2).toNat < xs.length := by omega
        simp only [List.getElem?_eq_getElem middle, Option.bind_eq_bind, Option.bind_some]
        split
        · exact ⟨_, rfl, middle⟩
        · split
          · exact ih middle (by omega) (by omega) (by omega)
          · exact ih middle high (by omega) (by omega)
      · exact ⟨m, rfl, low⟩

theorem stepBack_ends {nBit : Int} {m : Nat} (low : m < xs.length) :
    ∃ m' b, IndexedArray.stepBack xs nBit m = some m' ∧ xs[m']? = some b ∧
      (m' = 0 ∨ (b : Int) ≤ nBit) := by
  induction m with
  | zero => exact ⟨0, xs[0], rfl, List.getElem?_eq_getElem low, .inl rfl⟩
  | succ m ih =>
      rw [IndexedArray.stepBack, List.getElem?_eq_getElem low]
      simp only [Option.bind_eq_bind, Option.bind_some]
      split
      · exact ih (Nat.lt_of_succ_lt low)
      · rename_i below
        exact ⟨m + 1, xs[m + 1], rfl, List.getElem?_eq_getElem low, .inr (not_lt.mp below)⟩

theorem foldl_seen (a : IndexedArray) (ns : List Nat) (start : Int) :
    ns.foldl (fun (nBitIndex : Int) dwCount =>
      if a.toSFBitArray.getAt dwCount then nBitIndex + 1 else nBitIndex) start =
        start + (ns.filter a.toSFBitArray.getAt).length := by
  induction ns generalizing start with
  | nil => simp
  | cons n ns ih =>
      rw [List.foldl_cons, ih, List.filter_cons]
      split
      · rw [List.length_cons]
        omega
      · rfl

/-- The answer is counted from a set bit that is an entry of the index, behind which `n` is unless it
is the first. -/
theorem bitIndexAt_eq (noted : Noted a xs) (set : a.setBits ≠ []) (n : Int) : ∃ m b : Nat,
    a.setBits[m]? = some b ∧ (m = 0 ∨ (b : Int) ≤ n) ∧ a.bitIndexAt n = (a.getAt n).map fun seen =>
      ((m + (stretch a.toSFBitArray.getAt b n.toNat).length : Nat) - if seen then 0 else 1 : Int) := by
  have full : 0 < xs.length := by
    rw [noted.samples.lt_length_iff, Nat.zero_mul]
    exact List.length_pos_iff.mpr set
  obtain ⟨m, found, low⟩ := @select_ends xs n (xs.length + 1) 0 0 xs.length full
    (Int.le_refl _) (by omega) (Nat.succ_pos _)
  obtain ⟨j, b, back, entry, behind⟩ := @stepBack_ends xs n m low
  refine ⟨j * a.nBitSeg, b, ?_, ?_, ?_⟩
  · rw [← noted.samples, entry]
  · rcases behind with first | behind
    · exact .inl (by rw [first, Nat.zero_mul])
    · exact .inr behind
  · have range : (bitRange b (n - 1)).filter a.toSFBitArray.getAt =
        stretch a.toSFBitArray.getAt b n.toNat := by
      rw [bitRange, stretch]
      congr 2
      omega
    unfold IndexedArray.bitIndexAt
    rw [noted.nIndexes]
    simp only [Option.bind_eq_bind, Option.bind_some, found, back, entry, foldl_seen, range]
    cases a.getAt n with
    | none => rfl
    | some seen => cases seen <;> simp

theorem Known.rank (known : Known a) (n : Nat) :
    rank a.toSFBitArray.getAt n = Library.rank (bitAt a.buffer) (min (8 * a.nLength) n) := by
  by_cases inside : n ≤ 8 * a.nLength
  · rw [min_eq_right inside, Library.rank, known.stretch inside, Library.rank]
  · have low := (not_le.mp inside).le
    have rest : Library.stretch a.toSFBitArray.getAt (8 * a.nLength) n = [] := by
      rw [stretch_eq_nil_iff]
      intro m beyond _
      rw [known.getAt, decide_eq_false (by omega), Bool.and_false]
    rw [min_eq_left low, rank_add _ low, rest, Library.rank, known.stretch (Nat.le_refl _),
      Library.rank]
    rfl

theorem rank_setBits {b : Nat} (place : a.setBits[k]? = some b) :
    b < 8 * a.nLength ∧ Library.rank (bitAt a.buffer) b = k := by
  have inside := (mem_setBits.mp (List.mem_of_getElem? place)).1
  rw [setBits_eq] at place
  exact ⟨inside, rank_select place⟩

theorem getAt_ofNat (a : IndexedArray) (n : Nat) : a.getAt n = some (a.toSFBitArray.getAt n) :=
  if_pos (Int.natCast_nonneg n)

theorem bitIndexAt_known (noted : Noted a xs) (known : Known a) (set : a.setBits ≠ []) (n : Nat) :
    a.bitIndexAt n = some ((rank a.toSFBitArray.getAt (n + 1) : Int) - 1) := by
  obtain ⟨m, b, place, behind, answer⟩ := bitIndexAt_eq noted set n
  obtain ⟨inside, count⟩ := rank_setBits place
  have start : rank a.toSFBitArray.getAt b = m := by
    rw [known.rank, min_eq_right inside.le, count]
  rw [answer, getAt_ofNat, Int.toNat_natCast, Option.map_some, rank_succ]
  congr 1
  by_cases low : b ≤ n
  · rw [rank_add _ low, start]
    split
    · omega
    · omega
  · have first : m = 0 := by omega
    have none := rank_add a.toSFBitArray.getAt (show n + 1 ≤ b by omega)
    rw [start, first, rank_succ] at none
    rw [stretch_of_le (by omega), first]
    cases seen : a.toSFBitArray.getAt n
    · rw [seen] at none
      simp
      omega
    · rw [seen, if_pos rfl] at none
      omega

/-! ## Both -/

theorem getIndexBit_selects (noted : Noted a xs) (known : Known a) (k : Int) :
    (a.getIndexBit k).map Prod.fst =
      if 0 ≤ k ∧ k < a.getCount.1 then a.setBits[k.toNat]?.map Int.ofNat else some (-1) := by
  rw [noted.getIndexBit, noted.getCount, Option.map_map]
  refine (congrFun Option.map_id _).trans ?_
  split
  · rename_i inside
    exact getIndexBit_eq noted known (by omega)
  · rfl

theorem getBitIndex_ranks (noted : Noted a xs) (known : Known a) {n : Int}
    (low : a.setBits ≠ [] → 0 ≤ n) : (a.getBitIndex n).map Prod.fst =
      some (((a.setBits.countP fun nBit : Nat => (nBit : Int) ≤ n : Nat) : Int) - 1) := by
  rw [noted.getBitIndex, Option.map_map]
  refine (congrFun Option.map_id _).trans ?_
  split
  · rename_i none
    rw [none]
    rfl
  · rename_i set
    obtain ⟨n, rfl⟩ := Int.eq_ofNat_of_zero_le (low set)
    rw [bitIndexAt_known noted known set, known.rank, ← countP_stretch, ← setBits_eq]
    simp [Nat.lt_succ_iff]

theorem getBitIndex_getIndexBit (noted : Noted a xs) (known : Known a) (k : Int) (low : 0 ≤ k)
    (high : k < a.getCount.1) :
    ((a.getIndexBit k).bind fun r => r.2.getBitIndex r.1).map Prod.fst = some k := by
  rw [noted.getCount] at high
  obtain ⟨k, rfl⟩ := Int.eq_ofNat_of_zero_le low
  have inside : k < a.setBits.length := by omega
  have place := List.getElem?_eq_getElem inside
  have set : a.setBits ≠ [] := List.ne_nil_of_mem (List.mem_of_getElem? place)
  have ⟨below, count⟩ := rank_setBits place
  rw [noted.getIndexBit, if_pos (by omega), Int.toNat_natCast, getIndexBit_eq noted known inside, place]
  simp only [Option.map_some, Option.bind_some]
  rw [noted.getBitIndex, if_neg set]
  have answer := bitIndexAt_known noted known set a.setBits[k]
  rw [rank_succ, known _ (List.mem_of_getElem? place), if_pos rfl, known.rank, min_eq_right below.le,
    count] at answer
  change Option.map Prod.fst (Option.map _ (a.bitIndexAt (a.setBits[k] : Int))) = _
  rw [answer]
  simp

theorem setBits_congr (buffer : a'.buffer = a.buffer) (nLength : a'.nLength = a.nLength) :
    a'.setBits = a.setBits ∧ a'.toSFBitArray.getAt = a.toSFBitArray.getAt := by
  constructor
  · unfold IndexedArray.setBits
    rw [buffer, nLength]
  · funext n
    unfold SFBitArray.getAt
    rw [buffer, nLength]

theorem card_shown (a : IndexedArray) : a.setBits.length = (shown a.toSFBitArray).card := by
  rw [shown, card_bits, setBits_eq, stretch, Nat.sub_zero, ← List.range_eq_range',
    List.countP_eq_length_filter]

theorem keptCount_fresh (fresh : a.nCount = -1) : keptCount a = a.setBits.length := by
  have count : a.getCount.1 = (shown a.toSFBitArray).card := getCount_eq_iff.mpr (.inl fresh)
  rw [keptCount, count, Int.toNat_natCast, card_shown]

theorem keptCount_kept (kept : a.nCount ≠ -1) : keptCount a = a.nCount.toNat := by
  have base : a.toSFBitArray.getCount = (a.nCount, a.toSFBitArray) := if_neg kept
  exact congrArg (fun r => r.1.toNat) base

/-- A count that is right, whether it is kept or not, leaves room. -/
theorem room_of_count (n : Nat) : n ≤ indexSize n * bitSeg n := by
  have := Nat.lt_mul_div_succ n (show 0 < bitSeg n from Nat.succ_pos _)
  rw [Nat.mul_comm]
  exact this.le

theorem room_iff : a.setBits.length ≤ indexSize (keptCount a) * bitSeg (keptCount a) ↔
    (a.nCount ≠ -1 → a.setBits.length ≤ indexSize a.nCount.toNat * bitSeg a.nCount.toNat) := by
  by_cases fresh : a.nCount = -1
  · rw [keptCount_fresh fresh]
    exact iff_of_true (room_of_count _) fun kept => absurd fresh kept
  · rw [keptCount_kept fresh]
    exact ⟨fun room _ => room, fun room => room fresh⟩

theorem byteFits_of_known (known : Known a) {j : Nat} (inside : j < a.nLength) : ByteFits a j := by
  intro set
  have bits : stretch (bitAt a.buffer) (8 * j) (8 * (j + 1)) ≠ [] := by
    rw [Ne, stretch_byte_eq_nil_iff]
    exact set
  obtain ⟨n, member⟩ := List.exists_mem_of_ne_nil _ bits
  have ⟨low, high, holds⟩ := mem_stretch.mp member
  have shows := known n (mem_setBits.mpr ⟨by omega, holds⟩)
  have fits : bitLength a.nLength < 2 ^ 31 := BitVec.toInt_lt
  rw [SFBitArray.getAt] at shows
  split at shows
  · cases shows
  · omega

/-- A set bit that `GetAt` does not show is not counted where it should be. -/
theorem known_of_inverse (noted : Noted a xs) {b : Nat} (place : a.setBits[k]? = some b)
    (answer : a.bitIndexAt b = some (k : Int)) : a.toSFBitArray.getAt b = true := by
  have set : a.setBits ≠ [] := List.ne_nil_of_mem (List.mem_of_getElem? place)
  obtain ⟨m, c, start, behind, is⟩ := bitIndexAt_eq noted set b
  rw [answer, getAt_ofNat, Option.map_some, Option.some.injEq, Int.toNat_natCast] at is
  by_contra hidden
  rw [if_neg hidden] at is
  have count := (rank_setBits place).2
  have first := (rank_setBits start).2
  have fewer := @length_stretch_le a.toSFBitArray.getAt (bitAt a.buffer)
    (fun n shows => bitAt_of_getAt shows) c b
  by_cases low : c ≤ b
  · have total := rank_add (bitAt a.buffer) low
    omega
  · rw [stretch_of_le (not_le.mp low).le, List.length_nil] at is
    omega

theorem ranksAndSelects_iff (full : a.nLength ≠ 0) (n : Int) :
    a.RanksAndSelects n ↔ a.IndexesWell ∧ (a.setBits ≠ [] → 0 ≤ n) := by
  constructor
  · rintro ⟨a', is, selects, ranks, inverse⟩
    obtain ⟨fits, xs, noted, room, seg, buffer, nLength⟩ := (index_iff full).mp is
    obtain ⟨bits, getAt⟩ := setBits_congr buffer nLength
    have known : Known a' := by
      intro b member
      obtain ⟨k, place⟩ := List.mem_iff_getElem?.mp member
      have inside := (List.getElem?_eq_some_iff.mp place).1
      have count : a'.getCount.1 = a'.setBits.length := by rw [noted.getCount]
      have select := selects k
      have back := inverse k (Int.natCast_nonneg k) (by omega)
      rw [count, if_pos (by omega), ← bits, Int.toNat_natCast, place] at select
      obtain ⟨r, found, value⟩ := Option.map_eq_some_iff.mp select
      have state : r = (Int.ofNat b, a') := by
        rw [noted.getIndexBit] at found
        obtain ⟨v, _, rfl⟩ := Option.map_eq_some_iff.mp found
        rw [← value]
      rw [found, Option.bind_some, state, noted.getBitIndex, if_neg (List.ne_nil_of_mem member),
        Option.map_map] at back
      apply known_of_inverse noted place
      simpa using back
    refine ⟨⟨room_iff.mp ?_, ?_⟩, ?_⟩
    · rw [← bits, ← seg]
      exact noted.samples.length_le_iff.mp room
    · rw [← bits, ← getAt]
      exact known
    · intro set
      by_contra negative
      rw [← bits] at set
      obtain ⟨m, b, place, _, answer⟩ := bitIndexAt_eq noted set n
      have shows := known b (List.mem_of_getElem? place)
      have unread : a'.getAt n = none := by
        rw [SFBitArray.getAt] at shows
        split at shows
        · cases shows
        · rw [IndexedArray.getAt, if_neg negative, if_neg (by omega)]
      rw [noted.getBitIndex, if_neg set, answer, unread] at ranks
      cases ranks
  · rintro ⟨⟨room, known⟩, low⟩
    obtain ⟨xs, samples, _⟩ :=
      @foldl_indexBit (bitSeg (keptCount a)) (indexSize (keptCount a)) (Nat.succ_pos _) a.setBits
    let a' : IndexedArray := { a with
      nCount := a.setBits.length
      counted := by omega
      nIndexes := some xs
      nBitSeg := bitSeg (keptCount a) }
    have noted : Noted a' xs := ⟨rfl, rfl, Nat.succ_pos _, samples⟩
    have fits := samples.length_le_iff.mpr (room_iff.mpr room)
    refine ⟨a', (index_iff full).mpr ⟨fun j inside => byteFits_of_known known inside, xs, noted, fits,
      rfl, rfl, rfl⟩, getIndexBit_selects noted known, getBitIndex_ranks noted known low, ?_⟩
    exact getBitIndex_getIndexBit noted known

/-- Three bits in two bytes. -/
def threeBits : IndexedArray := { buffer := [0x12, 0x10], nLength := 2 }

theorem threeBits_ranks : threeBits.setBits = [1, 4, 12] ∧ threeBits.RanksAndSelects 11 := by
  refine ⟨by decide, (ranksAndSelects_iff (by decide) 11).mpr ⟨⟨?_, by decide⟩, by decide⟩⟩
  intro kept
  exact absurd rfl kept

/-- The count of the eight bits that were left is kept when sixteen show again. -/
def enlarged : IndexedArray where
  toSFBitArray := ((SFBitArray.freeBuffer.setRange 0 15).setLength 1).getCount.2.setLength 2
  counted := by decide +kernel

/-- The tenth index is written behind the nine that are allocated, and what is before the first
position is read before the buffer. -/
theorem enlarged_not_indexed : enlarged.index = none ∧ ¬enlarged.RanksAndSelects 3 ∧
    (threeBits.index.bind fun a => a.getBitIndex (-1)) = none ∧ ¬threeBits.RanksAndSelects (-1) := by
  have overflows : enlarged.index = none := by decide
  have unread : (threeBits.index.bind fun a => a.getBitIndex (-1)) = none := by decide
  refine ⟨overflows, ?_, unread, ?_⟩
  · rintro ⟨a, is, _⟩
    rw [overflows] at is
    cases is
  · rintro ⟨a, is, _, ranks, _⟩
    rw [is, Option.bind_some] at unread
    rw [unread] at ranks
    cases ranks

/-! ## In a run -/

theorem indexesWell_of_counts (short : Short a.toSFBitArray) (counts : Counts a.toSFBitArray) :
    a.IndexesWell := by
  constructor
  · intro kept
    have right : a.nCount = (shown a.toSFBitArray).card := counts.resolve_left kept
    rw [right, Int.toNat_natCast, ← card_shown]
    exact room_of_count _
  · intro n member
    have ⟨inside, set⟩ := mem_setBits.mp member
    rw [getAt_short short inside, set]

/-- While every call fits and is clean, the arrays can be indexed. -/
theorem run_ranks {calls : List (Nat × BitCall)} {r : BitRun}
    (run : Run (Guarded (fun r call => r.Fits call ∧ r.Clean call) BitRun.Steps) {} calls r) {i : Nat}
    (is : a.toSFBitArray = r.arrays i) : a.IndexesWell := by
  have shows := run_shows run
  apply indexesWell_of_counts
  · rw [is]
    exact shows.short i
  · rw [is]
    exact shows.counts i

end Cgsf.Proof.BaseLayer
