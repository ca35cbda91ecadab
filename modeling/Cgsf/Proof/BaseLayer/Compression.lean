import Cgsf.Proof.BaseLayer.CompressedBits

/-!
# What is compressed is decompressed again
-/

namespace Cgsf.Proof.BaseLayer
open Cgsf.BaseLayer Library RunLength

variable {ts : List Token} {xs ys src front rest : List BYTE} {b : BYTE} {nSrcLen room : Nat}

/-- `ys` is left to be compressed. -/
structure Left (src : List BYTE) (nSrcLen : Nat) (front ys : List BYTE) : Prop where
  bytes : ∃ back, src = front ++ (ys ++ back)
  size : nSrcLen = front.length + ys.length

theorem Left.done (left : Left src nSrcLen front []) : ¬front.length < nSrcLen := by
  rw [left.size, List.length_nil, Nat.add_zero]
  exact Nat.lt_irrefl _

theorem Left.inside (left : Left src nSrcLen front (b :: rest)) : front.length < nSrcLen := by
  rw [left.size, List.length_cons]
  omega

theorem Left.byte (left : Left src nSrcLen front (b :: rest)) : src[front.length]? = some b := by
  obtain ⟨back, rfl⟩ := left.bytes
  have byte := getElem?_front front (b :: rest ++ back) 0
  rwa [Nat.add_zero, List.cons_append, List.getElem?_cons_zero] at byte

theorem Left.append (left : Left src nSrcLen front (xs ++ ys)) :
    Left src nSrcLen (front ++ xs) ys where
  bytes := by
    obtain ⟨back, is⟩ := left.bytes
    exact ⟨back, by simp [is]⟩
  size := by rw [left.size, List.length_append, List.length_append, Nat.add_assoc]

theorem runLength_eq (left : Left src nSrcLen front ys) (b : BYTE) (most : Nat) :
    runLength src nSrcLen b most front.length = leading b most ys := by
  induction most generalizing front ys with
  | zero => rfl
  | succ most ih =>
      rw [runLength]
      cases ys with
      | nil =>
          rw [if_neg fun both => left.done both.1]
          rfl
      | cons c rest =>
          have next := ih (@Left.append [c] rest src front nSrcLen left)
          rw [List.length_append] at next
          simp only [leading, left.byte, Option.some_inj]
          by_cases same : c = b
          · rw [if_pos ⟨left.inside, same⟩, if_pos same]
            exact congrArg (· + 1) next
          · rw [if_neg fun both => same both.2, if_neg same]

theorem moreRoom_eq (fits : xs.length + 5 < 2 ^ 31)
    (grown : xs.length + room < xs.length + 5 → xs.length + room + 1024 < 2 ^ 31) :
    moreRoom (xs ++ List.replicate room 0) xs.length = some (xs ++ List.replicate
      ((if xs.length + room < xs.length + 5 then xs.length + room + 1024 else xs.length + room) -
        xs.length) 0) := by
  rw [moreRoom, asInt, if_pos fits]
  simp only [Option.bind_eq_bind, Option.bind_some, List.length_append, List.length_replicate,
    gt_iff_lt]
  split
  · rename_i short
    have size : xs.length + room + 1024 = xs.length + (xs.length + room + 1024 - xs.length) := by omega
    rw [asInt, if_pos (grown short), Option.map_some]
    exact congrArg some ((congrArg _ size).trans (reAllocPtr_zeros xs room _))
  · rw [Nat.add_sub_cancel_left]

theorem moreRoom_none (unfit : ¬(xs.length + 5 < 2 ^ 31 ∧
    (xs.length + room < xs.length + 5 → xs.length + room + 1024 < 2 ^ 31))) :
    moreRoom (xs ++ List.replicate room 0) xs.length = none := by
  rw [moreRoom, asInt]
  split
  · rename_i fits
    obtain ⟨short, large⟩ := Classical.not_imp.mp fun grown => unfit ⟨fits, grown⟩
    simp only [Option.bind_eq_bind, Option.bind_some, List.length_append, List.length_replicate,
      gt_iff_lt]
    rw [if_pos short, asInt, if_neg large]
    rfl
  · rfl

theorem compressFits_cons {t : Token} {nDesLen nLength : Nat} :
    Packed.CompressFits nDesLen nLength (t :: ts) ↔
      (nDesLen + 5 < 2 ^ 31 ∧ (nLength < nDesLen + 5 → nLength + 1024 < 2 ^ 31)) ∧
        Packed.CompressFits (nDesLen + t.code.length)
          (if nLength < nDesLen + 5 then nLength + 1024 else nLength) ts :=
  and_assoc.symm

/-- The bytes are written as tokens, as long as the sums fit. -/
theorem compressLoop_spec (left : Left src nSrcLen front ys) (xs : List BYTE)
    (room fuel : Nat) (enough : ys.length < fuel) :
    (Packed.CompressFits xs.length (xs.length + room) (tokens ys) → ∃ slack,
      compressLoop src nSrcLen fuel front.length xs.length (xs ++ List.replicate room 0) =
        some ⟨xs ++ encode (tokens ys) ++ List.replicate slack 0,
          (xs ++ encode (tokens ys)).length⟩) ∧
    (¬Packed.CompressFits xs.length (xs.length + room) (tokens ys) →
      compressLoop src nSrcLen fuel front.length xs.length (xs ++ List.replicate room 0) = none) := by
  induction ys using tokens.induct generalizing front xs fuel room with
  | case1 =>
      obtain ⟨fuel, rfl⟩ := Nat.exists_eq_succ_of_ne_zero (Nat.ne_of_gt (Nat.zero_lt_of_lt enough))
      rw [tokens, compressLoop, if_neg left.done]
      exact ⟨fun _ => ⟨room, by simp⟩, fun unfit => absurd trivial unfit⟩
  | case2 b rest marks ih =>
      obtain ⟨fuel, rfl⟩ := Nat.exists_eq_succ_of_ne_zero (Nat.ne_of_gt (Nat.zero_lt_of_lt enough))
      have marks' : b = 0 ∨ b = 0xff := marks
      have byte := left.byte
      have count := runLength_eq (@Left.append [b] rest src front nSrcLen left) b (COMPRESS_COUNT - 1)
      rw [List.length_append, List.length_singleton] at count
      rw [tokens, if_pos marks, compressLoop, if_pos left.inside, compressFits_cons]
      by_cases fits : xs.length + 5 < 2 ^ 31 ∧
        (xs.length + room < xs.length + 5 → xs.length + room + 1024 < 2 ^ 31)
      · have grown := moreRoom_eq fits.1 fits.2
        generalize large : (if xs.length + room < xs.length + 5 then xs.length + room + 1024
          else xs.length + room) = nLength at grown
        have more : xs.length + 3 ≤ nLength := by
          split at large <;> omega
        obtain ⟨room', more⟩ := Nat.exists_eq_add_of_le (show 3 ≤ nLength - xs.length by omega)
        rw [more, List.replicate_add] at grown
        have written := writeWord_at (xs ++ [b]) (List.replicate room' 0) 0 0
          (leading b (COMPRESS_COUNT - 1) rest + 1)
        rw [List.append_assoc, List.length_append, List.length_singleton] at written
        simp only [Option.bind_eq_bind, Option.bind_some, grown, byte, List.replicate,
          List.cons_append, List.nil_append, writeByte_at, if_pos marks', count]
        rw [show COMPRESS_COUNT - 1 = 65534 from rfl] at written ⊢
        have cut := leading_append_drop b 65534 rest
        generalize leading b 65534 rest = k at written cut ih ⊢
        rw [show xs ++ b :: 0 :: 0 :: List.replicate room' 0 =
          xs ++ ([b] ++ 0 :: 0 :: List.replicate room' 0) from rfl, written]
        have total : xs.length + 3 + room' = nLength := by omega
        have whole := congrArg List.length cut
        rw [List.length_append, List.length_replicate] at whole
        have run : Left src nSrcLen front (List.replicate (k + 1) b ++ rest.drop k) := by
          rw [List.replicate_succ, List.cons_append, cut]
          exact left
        have loop := ih run.append (xs ++ (Token.run b (k + 1)).code) room' fuel
          (by simp at enough ⊢; omega)
        simp only [List.length_append, List.length_replicate, Token.code, total, List.append_assoc,
          List.length_cons, List.length_nil, Nat.zero_add, Nat.reduceAdd] at loop
        rw [and_iff_right fits, Option.bind_some, encode_cons, ← List.append_assoc xs (Token.code _)]
        simp only [List.length_append, List.append_assoc, Token.code, List.length_cons, List.length_nil,
          Nat.zero_add, Nat.reduceAdd]
        exact loop
      · simp only [moreRoom_none fits, fits, false_and, not_false_eq_true, true_implies, false_implies,
          true_and]
        rfl
  | case3 b rest plain ih =>
      obtain ⟨fuel, rfl⟩ := Nat.exists_eq_succ_of_ne_zero (Nat.ne_of_gt (Nat.zero_lt_of_lt enough))
      have plain' : ¬(b = 0 ∨ b = 0xff) := plain
      have byte := left.byte
      rw [tokens, if_neg plain, compressLoop, if_pos left.inside, compressFits_cons]
      by_cases fits : xs.length + 5 < 2 ^ 31 ∧
        (xs.length + room < xs.length + 5 → xs.length + room + 1024 < 2 ^ 31)
      · have grown := moreRoom_eq fits.1 fits.2
        generalize large : (if xs.length + room < xs.length + 5 then xs.length + room + 1024
          else xs.length + room) = nLength at grown
        have more : xs.length + 3 ≤ nLength := by
          split at large <;> omega
        obtain ⟨room', more⟩ := Nat.exists_eq_succ_of_ne_zero (show nLength - xs.length ≠ 0 by omega)
        rw [more, List.replicate_succ] at grown
        simp only [Option.bind_eq_bind, Option.bind_some, grown, byte, writeByte_at, if_neg plain']
        have total : xs.length + 1 + room' = nLength := by omega
        have loop := ih (@Left.append [b] rest src front nSrcLen left) (xs ++ [b]) room' fuel
          (by simp at enough; omega)
        simp only [List.length_append, List.length_singleton, total, List.append_assoc,
          List.singleton_append] at loop
        rw [and_iff_right fits, encode_cons, List.length_append]
        simp only [List.append_assoc] at loop ⊢
        exact loop
      · simp only [moreRoom_none fits, fits, false_and, not_false_eq_true, true_implies, false_implies,
          true_and]
        rfl

theorem length_withoutTail (src : List BYTE) :
    (withoutTail src).length = SFBitArray.trimmed src src.length :=
  List.length_take_of_le (SFBitArray.trimmed_le ..)

/-- What `Compress` makes can be read as the tokens of the array. -/
theorem compress_reads (full : SFBitArray.trimmed src src.length ≠ 0) :
    (Packed.CompressFits 1 (withoutTail src).length (tokens (withoutTail src)) →
      ∃ c, compress src = some c ∧ Reads c [1] (tokens (withoutTail src))) ∧
    (¬Packed.CompressFits 1 (withoutTail src).length (tokens (withoutTail src)) →
      compress src = none) := by
  have size := length_withoutTail src
  obtain ⟨room, more⟩ := Nat.exists_eq_succ_of_ne_zero full
  have left : Left src (SFBitArray.trimmed src src.length) [] (withoutTail src) :=
    ⟨⟨_, (List.take_append_drop ..).symm⟩, by rw [size, List.length_nil, Nat.zero_add]⟩
  have loop := compressLoop_spec left [1] room (SFBitArray.trimmed src src.length + 1)
    (by rw [size]; exact Nat.lt_succ_self _)
  have head : writeByte (allocPtr (SFBitArray.trimmed src src.length)) 0 1 =
      some ([1] ++ List.replicate room 0) := by
    rw [more]
    exact writeByte_at [] _ 0 1
  have total : [(1 : BYTE)].length + room = (withoutTail src).length := by
    rw [size, more, List.length_singleton, Nat.add_comm]
  rw [total, List.length_singleton, List.length_nil] at loop
  simp only [compress, if_neg full, head, Option.bind_some]
  refine ⟨fun fits => ?_, loop.2⟩
  obtain ⟨slack, written⟩ := loop.1 fits
  exact ⟨_, written, (tokens_spec _).1, ⟨_, List.append_assoc ..⟩, List.length_append⟩

theorem roundTrips_iff (src : List BYTE) : RoundTrips src ↔ SumsFit src := by
  rw [RoundTrips, SumsFit]
  by_cases empty : SFBitArray.trimmed src src.length = 0
  · have nothing : withoutTail src = [] := by rw [withoutTail, empty, List.take_zero]
    rw [nothing, tokens, compress, if_pos empty]
    exact iff_of_true ⟨_, rfl, rfl⟩ ⟨trivial, trivial⟩
  · obtain ⟨written, unfit⟩ := compress_reads empty
    by_cases fits : Packed.CompressFits 1 (withoutTail src).length (tokens (withoutTail src))
    · obtain ⟨c, made, reads⟩ := written fits
      have size : c.nSrcLen = 1 + (encode (tokens (withoutTail src))).length := reads.nSrcLen
      have decoded := @decompressLoop_iff _ _ _ c.nSrcLen (withoutTail src) [] c.nSrcLen reads (by omega)
      have whole : [] ++ expand (tokens (withoutTail src)) = withoutTail src := (tokens_spec _).2
      have same : c.decompress = c.decompressLoop (-1) c.nSrcLen [(1 : BYTE)].length 0
          ([] ++ List.replicate c.nSrcLen 0) := by
        rw [Packed.decompress, if_neg (by omega)]
        rfl
      rw [List.length_nil, Nat.zero_add, and_iff_left whole, ← same, size] at decoded
      rw [and_iff_right fits, made, ← decoded]
      constructor
      · rintro ⟨c', is, bytes⟩
        exact Option.some.inj is ▸ bytes
      · exact fun bytes => ⟨c, rfl, bytes⟩
    · rw [unfit fits]
      refine iff_of_false ?_ fun both => fits both.1
      rintro ⟨c, is, -⟩
      cases is

/-! ## Where the sums end -/

theorem compressFits_of_short {nDesLen nLength : Nat} (valid : RunLength.Valid ts)
    (short : nDesLen + 3 * (expand ts).length + 1029 ≤ 2 ^ 31) :
    Packed.CompressFits nDesLen nLength ts := by
  induction ts generalizing nDesLen nLength with
  | nil => trivial
  | cons t ts ih =>
      obtain ⟨first, others⟩ := valid_cons.mp valid
      have code := Token.length_code_le first
      have positive := List.length_pos_of_ne_nil t.code_ne_nil
      rw [expand_cons, List.length_append] at short
      refine ⟨by omega, fun near => by omega, ih others (by omega)⟩

/-- An array whose bits all have an `int` for their number comes back. -/
theorem roundTrips_of_addressable (addressable : src.length ≤ 2 ^ 28) : RoundTrips src := by
  obtain ⟨valid, bytes⟩ := tokens_spec (withoutTail src)
  have size := (length_withoutTail src).trans_le (SFBitArray.trimmed_le ..)
  refine (roundTrips_iff src).mpr ⟨compressFits_of_short valid ?_,
    decompressFits_of_addressable ?_ valid⟩
  · rw [bytes]
    omega
  · rw [bytes]
    omega

theorem compressFits_last {t : Token} {nDesLen nLength : Nat}
    (fits : Packed.CompressFits nDesLen nLength (ts ++ [t])) :
    nDesLen + (encode ts).length + 5 < 2 ^ 31 := by
  induction ts generalizing nDesLen nLength with
  | nil => exact fits.1
  | cons u ts ih =>
      have rest := ih fits.2.2
      rwa [encode_cons, List.length_append, ← Nat.add_assoc]

/-- A byte 0 and a byte 0xff, `n` times. -/
def alternating (n : Nat) : List BYTE := (List.replicate n [0, 0xff]).flatten

theorem tokens_alternating (n : Nat) :
    tokens (alternating n) = (List.replicate n [.run 0 1, .run 0xff 1]).flatten := by
  induction n with
  | zero => rw [alternating, List.replicate_zero, List.flatten_nil, tokens]; rfl
  | succ n ih =>
      have next : leading (0xff : BYTE) 65534 (alternating n) = 0 := by
        cases n with
        | zero => rfl
        | succ n => rfl
      have bytes : alternating (n + 1) = 0 :: 0xff :: alternating n := rfl
      have alone : leading (0 : BYTE) 65534 (0xff :: alternating n) = 0 := rfl
      rw [bytes, tokens, if_pos (.inl rfl), alone, List.drop_zero, tokens, if_pos (.inr rfl), next,
        List.drop_zero, ih]
      rfl

theorem withoutTail_alternating (n : Nat) : withoutTail (alternating n) = alternating n := by
  cases n with
  | zero => rfl
  | succ n =>
      have bytes : alternating (n + 1) = alternating n ++ [0] ++ [0xff] := by
        rw [alternating, List.replicate_succ', List.flatten_append]
        simp [alternating]
      rw [bytes, withoutTail, List.length_append, List.length_singleton, SFBitArray.trimmed,
        List.getD_append_right _ _ _ _ (Nat.le_refl _), Nat.sub_self, if_neg (by decide)]
      exact List.take_of_length_le (by simp)

theorem length_encode_alternating (n : Nat) : (encode (tokens (alternating n))).length = 6 * n := by
  rw [tokens_alternating]
  induction n with
  | zero => rfl
  | succ n ih =>
      rw [List.replicate_succ, List.flatten_cons, encode_append, List.length_append, ih]
      simp [Token.code]
      omega

theorem alternating_unfit {n : Nat} (large : 2 ^ 31 ≤ 6 * n + 9) :
    ¬RoundTrips (alternating (n + 1)) := by
  rw [roundTrips_iff, SumsFit, withoutTail_alternating]
  have size := length_encode_alternating n
  have split : tokens (alternating (n + 1)) = tokens (alternating n) ++ [.run 0 1] ++ [.run 0xff 1] := by
    rw [tokens_alternating, tokens_alternating, List.replicate_succ', List.flatten_append]
    simp
  rw [split]
  rintro ⟨fits, -⟩
  have last := compressFits_last fits
  rw [encode_append, List.length_append, size] at last
  have run : (encode [.run 0 1]).length = 3 := rfl
  omega

/-- 715827882 bytes become more than an `int` can count. -/
theorem alternating_not_roundTrips : ¬RoundTrips (alternating 357913941) :=
  alternating_unfit (by omega)

end Cgsf.Proof.BaseLayer
