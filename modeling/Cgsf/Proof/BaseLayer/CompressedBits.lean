import Cgsf.BaseLayer.CompressedBits
import Cgsf.Proof.BaseLayer.SFBitArray

/-!
# Reading the compressed bits
-/

namespace Cgsf.Proof.BaseLayer
open Cgsf.BaseLayer Library RunLength

variable {c c' : Packed} {ts us : List Token} {front rest back : List BYTE} {b lo hi : BYTE}
  {n k : Nat}

/-! ## Memory -/

theorem getElem?_front (front rest : List BYTE) (i : Nat) :
    (front ++ rest)[front.length + i]? = rest[i]? := by
  rw [List.getElem?_append_right (Nat.le_add_right ..), Nat.add_sub_cancel_left]

theorem readWord_at (front rest : List BYTE) (lo hi : BYTE) :
    readWord (front ++ lo :: hi :: rest) front.length = some (word lo hi) := by
  have low := getElem?_front front (lo :: hi :: rest) 0
  have high := getElem?_front front (lo :: hi :: rest) 1
  rw [Nat.add_zero] at low
  rw [readWord, low, high]
  rfl

theorem writeByte_at (front rest : List BYTE) (b lo : BYTE) :
    writeByte (front ++ b :: rest) front.length lo = some (front ++ lo :: rest) := by
  rw [writeByte, if_pos (by simp), List.set_append_right _ _ (Nat.le_refl _), Nat.sub_self]
  rfl

theorem writeWord_at (front rest : List BYTE) (lo hi : BYTE) (w : Nat) :
    writeWord (front ++ lo :: hi :: rest) front.length w = some
      (front ++ BitVec.ofNat 8 w :: BitVec.ofNat 8 (w / 256) :: rest) := by
  rw [writeWord, if_pos (by simp), List.set_append_right _ _ (Nat.le_refl _), Nat.sub_self,
    List.set_append_right _ _ (Nat.le_add_right ..), Nat.add_sub_cancel_left]
  rfl

theorem setBitAt_at (front rest : List BYTE) (b : BYTE) (n : Nat) :
    setBitAt (front ++ b :: rest) front.length (n &&& 7) =
      some (front ++ (b ||| (1 : BYTE) <<< (n % 8)) :: rest) := by
  have low : (n &&& 7) = n % 8 := Nat.and_two_pow_sub_one_eq_mod n 3
  rw [setBitAt, if_pos (by simp), List.take_left, List.drop_left, setBit_eq, low,
    Nat.div_eq_of_lt (Nat.mod_lt n (by decide)), Nat.mod_mod]
  rfl

theorem memset_at (front old rest : List BYTE) (b : BYTE) :
    memset (front ++ old ++ rest) front.length b old.length =
      some (front ++ List.replicate old.length b ++ rest) := by
  rw [memset, if_pos (by simp), ← List.length_append, List.drop_left, List.append_assoc front old,
    List.take_left]

theorem reAllocPtr_zeros (bytes : List BYTE) (slack k : Nat) :
    reAllocPtr (bytes ++ List.replicate slack 0) (bytes.length + k) = bytes ++ List.replicate k 0 := by
  rw [reAllocPtr, List.take_length_add_append, List.take_replicate, List.append_assoc,
    List.replicate_append_replicate, List.length_append, List.length_replicate]
  congr 2
  omega

/-- The bytes behind a place are moved back, into room that is made for them. -/
theorem memmove_back (front rest : List BYTE) (slack k : Nat) :
    ∃ gap : List BYTE, gap.length = k ∧
      memmove (reAllocPtr (front ++ rest ++ List.replicate slack 0) ((front ++ rest).length + k))
        (front.length + k) front.length rest.length = some (front ++ gap ++ rest) := by
  refine ⟨(rest ++ List.replicate k 0).take k, by simp, ?_⟩
  rw [reAllocPtr_zeros, memmove, if_pos (by simp; omega), Int.toNat_natCast,
    List.append_assoc front rest, List.take_length_add_append, List.drop_left, List.take_left,
    List.drop_eq_nil_of_le (by simp; omega), List.append_nil]

/-- The bytes behind a gap are moved into it. -/
theorem memmove_front (front gap rest back : List BYTE) : ∃ old : List BYTE, old.length = gap.length ∧
    memmove (front ++ gap ++ rest ++ back) front.length (front.length + gap.length) rest.length =
      some (front ++ rest ++ old ++ back) := by
  refine ⟨(gap ++ rest).drop rest.length, by simp, ?_⟩
  rw [memmove, if_pos (by simp; omega), Int.toNat_natCast, ← List.length_append,
    List.append_assoc (front ++ gap), List.drop_left, List.take_left, List.append_assoc front,
    List.take_left, ← List.drop_drop, List.drop_left, ← List.append_assoc gap,
    List.drop_append_of_le_length (by simp), List.append_assoc (front ++ rest)]

/-! ## The loops -/

theorem word_code (front rest : List BYTE) (small : k < 65536) :
    readWord (front ++ BitVec.ofNat 8 k :: BitVec.ofNat 8 (k / 256) :: rest) front.length = some k := by
  rw [readWord_at, word_ofNat small]

theorem getBit_byte : getBit [b] (n &&& 7) = b.getLsbD (n % 8) := by
  have low : (n &&& 7) = n % 8 := Nat.and_two_pow_sub_one_eq_mod n 3
  rw [getBit_eq, low, bitAt_cons_low (Nat.mod_lt n (by decide))]

/-- The tokens begin at `front.length`, and the bytes that count end behind them. -/
structure Reads (c : Packed) (front : List BYTE) (ts : List Token) : Prop where
  valid : RunLength.Valid ts
  src : ∃ back, c.src = front ++ (encode ts ++ back)
  nSrcLen : c.nSrcLen = front.length + (encode ts).length

theorem Reads.next {t : Token} (reads : Reads c front (t :: ts)) : Reads c (front ++ t.code) ts := by
  obtain ⟨valid, ⟨back, src⟩, size⟩ := reads
  refine ⟨(valid_cons.mp valid).2, ⟨back, ?_⟩, ?_⟩
  · rw [src, encode_cons, List.append_assoc, List.append_assoc]
  · rw [size, encode_cons, List.length_append, List.length_append, Nat.add_assoc]

theorem Reads.literal (reads : Reads c front (.literal b :: ts)) :
    front.length < c.nSrcLen ∧ c.src[front.length]? = some b ∧ ¬(b = 0 ∨ b = 0xff) := by
  obtain ⟨valid, ⟨back, src⟩, size⟩ := reads
  refine ⟨?_, ?_, (valid_cons.mp valid).1⟩
  · simp [size, Token.code]
  · rw [src]
    exact getElem?_front front _ 0

theorem Reads.run (reads : Reads c front (.run b k :: ts)) :
    front.length < c.nSrcLen ∧ c.src[front.length]? = some b ∧ (b = 0 ∨ b = 0xff) ∧
      readWord c.src (front.length + 1) = some k := by
  obtain ⟨valid, ⟨back, src⟩, size⟩ := reads
  obtain ⟨marks, -, small⟩ := (valid_cons.mp valid).1
  refine ⟨?_, ?_, marks, ?_⟩
  · simp [size, Token.code]
  · rw [src]
    exact getElem?_front front _ 0
  · have read := word_code (front ++ [b]) (encode ts ++ back) small
    rw [src, encode_cons, Token.code]
    simpa using read

theorem Reads.done (reads : Reads c front []) : ¬front.length < c.nSrcLen := by
  rw [reads.nSrcLen]
  simp

/-- What follows the bits that were gone through. -/
theorem bitAt_append_of_le {xs ys : List BYTE} (beyond : xs.length ≤ n / 8) :
    bitAt (xs ++ ys) n = bitAt ys (n - 8 * xs.length) := by
  have byte : (n - 8 * xs.length) / 8 = n / 8 - xs.length := Nat.sub_mul_div n 8 xs.length
  have bit : (n - 8 * xs.length) % 8 = n % 8 := Nat.sub_mul_mod (by omega)
  rw [bitAt, bitAt, List.getD_append_right _ _ _ _ beyond, byte, bit]

theorem bitAt_nil : bitAt [] n = false := by
  simp [bitAt]

theorem bitAt_run {xs ys : List BYTE} (low : xs.length ≤ n / 8) (high : n / 8 < xs.length + k) :
    bitAt (xs ++ (List.replicate k b ++ ys)) n = b.getLsbD (n % 8) := by
  have bit : (n - 8 * xs.length) % 8 = n % 8 := Nat.sub_mul_mod (by omega)
  rw [bitAt_append_of_le low, bitAt, List.getD_append _ _ _ _ (by simp; omega),
    List.getD_replicate _ (by omega), bit]

theorem ones_getLsbD {i : Nat} (low : i < 8) : (0xff : BYTE).getLsbD i = true := by
  have all : ∀ i < 8, (0xff : BYTE).getLsbD i = true := by decide
  exact all i low

theorem getAtLoop_eq {fuel : Nat} (xs : List BYTE) (reads : Reads c front ts)
    (beyond : xs.length ≤ n / 8) (enough : (encode ts).length < fuel) :
    c.getAtLoop n fuel front.length xs.length = some (bitAt (xs ++ expand ts) n) := by
  induction ts generalizing front xs fuel with
  | nil =>
      obtain ⟨fuel, rfl⟩ := Nat.exists_eq_succ_of_ne_zero (Nat.ne_of_gt (Nat.zero_lt_of_lt enough))
      rw [Packed.getAtLoop, if_neg reads.done, bitAt_append_of_le beyond, expand_nil, bitAt_nil]
  | cons t ts ih =>
      obtain ⟨fuel, rfl⟩ := Nat.exists_eq_succ_of_ne_zero (Nat.ne_of_gt (Nat.zero_lt_of_lt enough))
      have next := reads.next
      rw [encode_cons, List.length_append] at enough
      cases t with
      | literal b =>
          obtain ⟨inside, byte, plain⟩ := reads.literal
          rw [Packed.getAtLoop, if_pos inside, byte]
          simp only [Option.bind_eq_bind, Option.bind_some, if_neg plain]
          by_cases here : xs.length = n / 8
          · rw [if_pos here, getBit_byte, bitAt_append_of_le beyond, expand_cons, Token.bytes]
            have same : n - 8 * xs.length = n % 8 := by omega
            rw [same, List.singleton_append, bitAt_cons_low (Nat.mod_lt n (by decide))]
            rfl
          · rw [if_neg here]
            have loop := @ih _ fuel (xs ++ [b]) next (by simp; omega)
              (by simp [Token.code] at enough; omega)
            simpa [Token.code, Token.bytes] using loop
      | run b k =>
          obtain ⟨inside, byte, marks, count⟩ := reads.run
          rw [Packed.getAtLoop, if_pos inside, byte]
          simp only [Option.bind_eq_bind, Option.bind_some, if_pos marks, count]
          by_cases here : xs.length + k > n / 8
          · rw [if_pos here, expand_cons, Token.bytes, bitAt_run beyond here]
            rcases marks with rfl | rfl
            · simp
            · rw [ones_getLsbD (Nat.mod_lt n (by decide))]
              rfl
          · rw [if_neg here]
            have loop := @ih _ fuel (xs ++ List.replicate k b) next (by simp; omega)
              (by simp [Token.code] at enough; omega)
            simpa [Token.code, Token.bytes] using loop

theorem getAt_eq_bitAt (encodes : c.Encodes ts) (n : Nat) : c.getAt n = some (bitAt (expand ts) n) := by
  rw [Packed.getAt]
  obtain ⟨empty, rfl⟩ | ⟨size, slack, src⟩ := encodes.bytes
  · rw [if_neg (by omega), expand_nil, bitAt_nil]
  · rw [if_pos (by omega)]
    have reads : Reads c [1] ts := ⟨encodes.valid, ⟨_, src⟩, size⟩
    exact getAtLoop_eq [] reads (Nat.zero_le _) (by omega)

/-- Room is made if it is needed, and nothing that was written is lost. -/
theorem grow_eq (xs : List BYTE) (room : Nat) {nEnd nLength : Nat} (used : xs.length ≤ nEnd)
    (more : nEnd < nLength) (fits : nEnd < 2 ^ 31)
    (grown : xs.length + room ≤ nEnd → nLength < 2 ^ 31) :
    Packed.grow (xs ++ List.replicate room 0) nEnd nLength = some (xs ++ List.replicate
      ((if xs.length + room ≤ nEnd then nLength else xs.length + room) - xs.length) 0) := by
  rw [Packed.grow, asInt, if_pos fits]
  simp only [Option.bind_eq_bind, Option.bind_some, List.length_append, List.length_replicate,
    ge_iff_le]
  split
  · rename_i short
    have size : nLength = xs.length + (nLength - xs.length) := by omega
    rw [asInt, if_pos (grown short), Option.map_some]
    exact congrArg some ((congrArg _ size).trans (reAllocPtr_zeros xs room _))
  · rw [Nat.add_sub_cancel_left]

theorem grow_none {xs : List BYTE} {room nEnd nLength : Nat}
    (unfit : ¬(nEnd < 2 ^ 31 ∧ (xs.length + room ≤ nEnd → nLength < 2 ^ 31))) :
    Packed.grow (xs ++ List.replicate room 0) nEnd nLength = none := by
  rw [Packed.grow, asInt]
  split
  · rename_i fits
    obtain ⟨short, large⟩ := Classical.not_imp.mp fun grown => unfit ⟨fits, grown⟩
    simp only [Option.bind_eq_bind, Option.bind_some, List.length_append, List.length_replicate,
      ge_iff_le]
    rw [if_pos short, asInt, if_neg large]
    rfl
  · rfl

theorem decompressFits_cons {t : Token} {nDesLen nLength : Nat} (nEnd : Nat)
    (is : nDesLen + Packed.ahead t = nEnd) : Packed.DecompressFits nDesLen nLength (t :: ts) ↔
      nEnd + 10 < 2 ^ 31 ∧ (nLength ≤ nEnd + 10 → nEnd + 1024 < 2 ^ 31) ∧
        Packed.DecompressFits (nDesLen + t.bytes.length)
          (if nLength ≤ nEnd + 10 then nEnd + 1024 else nLength) ts := by
  subst is
  rfl

/-- The tokens are written one after the other, as long as the sums fit. -/
theorem decompressLoop_iff {fuel : Nat} {r : List BYTE} (xs : List BYTE) (room : Nat)
    (reads : Reads c front ts) (enough : (encode ts).length < fuel) :
    c.decompressLoop (-1) fuel front.length xs.length (xs ++ List.replicate room 0) = some r ↔
      Packed.DecompressFits xs.length (xs.length + room) ts ∧ xs ++ expand ts = r := by
  induction ts generalizing front xs fuel room with
  | nil =>
      obtain ⟨fuel, rfl⟩ := Nat.exists_eq_succ_of_ne_zero (Nat.ne_of_gt (Nat.zero_lt_of_lt enough))
      have cut := reAllocPtr_zeros xs room 0
      rw [Nat.add_zero, List.replicate_zero, List.append_nil] at cut
      rw [Packed.decompressLoop, if_neg fun both => reads.done both.1, cut, Option.some_inj, expand_nil,
        List.append_nil, Packed.DecompressFits, true_and]
  | cons t ts ih =>
      obtain ⟨fuel, rfl⟩ := Nat.exists_eq_succ_of_ne_zero (Nat.ne_of_gt (Nat.zero_lt_of_lt enough))
      have next := reads.next
      rw [encode_cons, List.length_append] at enough
      cases t with
      | literal b =>
          obtain ⟨inside, byte, plain⟩ := reads.literal
          rw [Packed.decompressLoop, if_pos ⟨inside, .inl rfl⟩, byte,
            decompressFits_cons xs.length rfl]
          simp only [Option.bind_eq_bind, Option.bind_some, if_neg plain]
          by_cases fits : xs.length + 10 < 2 ^ 31 ∧
            (xs.length + room ≤ xs.length + 10 → xs.length + 1024 < 2 ^ 31)
          · have grown := grow_eq xs room (Nat.le_add_right _ 10)
              (by omega) fits.1 fits.2
            generalize size : (if xs.length + room ≤ xs.length + 10 then xs.length + 1024
              else xs.length + room) = nLength at grown
            have large : xs.length + 10 < nLength := by
              split at size <;> omega
            obtain ⟨room', is⟩ := Nat.exists_eq_succ_of_ne_zero (show nLength - xs.length ≠ 0 by omega)
            rw [grown, Option.bind_some, is, List.replicate_succ, writeByte_at, Option.bind_some]
            have loop := @ih _ fuel (xs ++ [b]) room' next
              (by simp [Token.code] at enough; omega)
            have total : xs.length + 1 + room' = nLength := by omega
            simp only [List.length_append, List.length_singleton, Token.code, total,
              List.append_assoc, List.singleton_append] at loop
            exact loop.trans (and_congr_left' ⟨fun rest => ⟨fits.1, fits.2, rest⟩,
              fun all => all.2.2⟩)
          · rw [grow_none fits]
            exact iff_of_false (by rintro ⟨⟩) fun all => fits ⟨all.1.1, all.1.2.1⟩
      | run b k =>
          obtain ⟨inside, byte, marks, count⟩ := reads.run
          rw [Packed.decompressLoop, if_pos ⟨inside, .inl rfl⟩, byte,
            decompressFits_cons (xs.length + k) rfl]
          simp only [Option.bind_eq_bind, Option.bind_some, if_pos marks, count]
          by_cases fits : xs.length + k + 10 < 2 ^ 31 ∧
            (xs.length + room ≤ xs.length + k + 10 → xs.length + k + 1024 < 2 ^ 31)
          · have grown := grow_eq xs room (by omega)
              (by omega) fits.1 fits.2
            generalize size : (if xs.length + room ≤ xs.length + k + 10 then xs.length + k + 1024
              else xs.length + room) = nLength at grown
            have large : xs.length + k + 10 < nLength := by
              split at size <;> omega
            obtain ⟨room', is⟩ := Nat.exists_eq_add_of_le (show k ≤ nLength - xs.length by omega)
            have loop := @ih _ fuel (xs ++ List.replicate k b) room' next
              (by simp [Token.code] at enough; omega)
            have total : xs.length + k + room' = nLength := by omega
            simp only [List.length_append, List.length_replicate, Token.code, total,
              List.append_assoc, List.length_cons, List.length_nil, Nat.zero_add,
              Nat.reduceAdd] at loop
            have set := memset_at xs (List.replicate k 0) (List.replicate room' 0) b
            rw [List.length_replicate, List.append_assoc, List.append_assoc] at set
            have filled (f : List BYTE → Option (List BYTE)) :
                (if b ≠ 0 then (memset (xs ++ (List.replicate k 0 ++ List.replicate room' 0)) xs.length
                  b k).bind f else f (xs ++ (List.replicate k 0 ++ List.replicate room' 0))) =
                f (xs ++ (List.replicate k b ++ List.replicate room' 0)) := by
              split
              · rw [set, Option.bind_some]
              · rename_i zero
                rw [not_not.mp zero]
            rw [grown, Option.bind_some, is, List.replicate_add, filled, expand_cons, Token.bytes,
              List.length_replicate]
            exact loop.trans (and_congr_left' ⟨fun rest => ⟨fits.1, fits.2, rest⟩,
              fun all => all.2.2⟩)
          · rw [grow_none fits]
            exact iff_of_false (by rintro ⟨⟩) fun all => fits ⟨all.1.1, all.1.2.1⟩

/-- Where every bit can be numbered, every sum fits. -/
theorem decompressFits_of_addressable {nDesLen nLength : Nat}
    (addressable : nDesLen + (expand ts).length ≤ 2 ^ 28) (valid : RunLength.Valid ts) :
    Packed.DecompressFits nDesLen nLength ts := by
  induction ts generalizing nDesLen nLength with
  | nil => trivial
  | cons t ts ih =>
      rw [expand_cons, List.length_append] at addressable
      have short : Packed.ahead t ≤ t.bytes.length := by
        cases t with
        | literal b => exact Nat.zero_le _
        | run b k => exact (List.length_replicate ..).ge
      refine ⟨by omega, fun _ => by omega, ih (by omega) (valid_cons.mp valid).2⟩

theorem decompress_eq (encodes : c.Encodes ts) (addressable : (expand ts).length ≤ 2 ^ 28) :
    c.decompress = some (expand ts) := by
  rw [Packed.decompress]
  obtain ⟨empty, rfl⟩ | ⟨size, slack, src⟩ := encodes.bytes
  · rw [if_pos empty]
    rfl
  · rw [if_neg (by omega)]
    have reads : Reads c [1] ts := ⟨encodes.valid, ⟨_, src⟩, size⟩
    refine (decompressLoop_iff [] _ reads (by omega)).mpr
      ⟨decompressFits_of_addressable ?_ encodes.valid, rfl⟩
    rwa [List.length_nil, Nat.zero_add]

end Cgsf.Proof.BaseLayer
