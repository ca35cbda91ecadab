import Cgsf.Proof.BaseLayer.CompressedSetAt

/-!
# Setting a compressed bit sets it in the array
-/

namespace Cgsf.Proof.BaseLayer
open Cgsf.BaseLayer Library RunLength

variable {c c' : Packed} {ts us before after : List Token} {b x : BYTE} {back : List BYTE}
  {n k slack : Nat}

theorem setAt_spec (encodes : c.Encodes ts) (n : Nat) : SetSpec c ts n (c.setAt n) := by
  rw [Packed.setAt]
  obtain ⟨empty, rfl⟩ | ⟨size, slack, src⟩ := encodes.bytes
  · rw [if_neg (by omega)]
    exact appendAt_spec encodes (Nat.zero_le _)
  · rw [if_pos (by omega)]
    have length : c.nSrcLen = (1 :: encode [] ++ encode ts).length := by
      rw [size]
      simp [Nat.add_comm]
    have reached : Reached c [] ts 0 0 :=
      ⟨encodes.valid, ⟨slack, src⟩, length, nofun, fun _ last => by cases last⟩
    exact setAtLoop_spec reached (Nat.zero_le _) (by omega)

/-- The tokens of an array are known from its bytes. -/
theorem encodes_unique (encodes : c.Encodes ts) (encodes' : c.Encodes us) : us = ts := by
  obtain ⟨empty, rfl⟩ | ⟨size, slack, src⟩ := encodes.bytes <;>
    obtain ⟨empty', rfl⟩ | ⟨size', slack', src'⟩ := encodes'.bytes
  · rfl
  · omega
  · omega
  · refine encode_inj encodes.valid encodes'.valid ?_
    have same := src'.symm.trans src
    rw [List.cons_append, List.cons_append] at same
    exact List.append_inj_left (List.cons.inj same).2 (by omega)

theorem beforeRun_iff (encodes : c.Encodes ts) : c.BeforeRun n ↔ Miscounts ts n := by
  constructor
  · rintro ⟨before, b, k, after, other, rest⟩
    exact ⟨before, b, k, after, (encodes_unique encodes other).symm, rest⟩
  · rintro ⟨before, b, k, after, rfl, rest⟩
    exact ⟨before, b, k, after, encodes, rest⟩

theorem withBit_of_set {xs : List BYTE} (bit : bitAt xs n = true) : Packed.withBit xs n = xs := by
  have inside : n / 8 < xs.length := by
    by_contra beyond
    have nothing := @bitAt_append_of_le n xs [] (by omega)
    rw [List.append_nil, bit, bitAt_nil] at nothing
    cases nothing
  obtain ⟨front, b, rest, rfl, place⟩ : ∃ front b rest, xs = front ++ b :: rest ∧
      front.length = n / 8 := by
    refine ⟨xs.take (n / 8), xs[n / 8], xs.drop (n / 8 + 1), ?_, ?_⟩
    · rw [List.getElem_cons_drop, List.take_append_drop]
    · rw [List.length_take]
      omega
  rw [bitAt_at place] at bit
  rw [withBit_at _ _ _ place]
  congr 2
  refine BitVec.eq_of_getLsbD_eq fun i low => ?_
  rw [setBit_edits n b i low]
  split
  · rename_i is
    rw [is, bit]
  · rfl

theorem bitAt_withBit (xs : List BYTE) (n m : Nat) :
    bitAt (Packed.withBit xs n) m = (decide (m = n) || bitAt xs m) := by
  have inside : ∀ k ∈ [n], k < 8 * (xs ++ List.replicate (n / 8 + 1 - xs.length) 0).length := by
    intro k member
    obtain rfl := List.mem_singleton.mp member
    rw [List.length_append, List.length_replicate]
    omega
  have edit := foldl_setBit (m := m) (List.nodup_singleton n) inside
  rw [List.foldl_cons, List.foldl_nil, bitAt_append_zeros] at edit
  rw [Packed.withBit, edit, Bool.or_comm]
  simp

theorem length_withBit_le {xs : List BYTE} (short : xs.length ≤ 2 ^ 28) (int : n < 2 ^ 31) :
    (Packed.withBit xs n).length ≤ 2 ^ 28 := by
  rw [Packed.withBit, length_setBit, List.length_append, List.length_replicate]
  omega

/-- What a miscounted array can be read as: the run has another count, and what follows it begins with
the high byte of the sum. -/
theorem miscounted_tokens {y z : BYTE} (validB : RunLength.Valid before)
    (encodes : Packed.Encodes ⟨1 :: encode before ++ 0xff :: BitVec.ofNat 8 k :: y :: z :: back,
      (1 :: encode before).length + 3 + (encode after).length⟩ us) :
    ∃ ws, us = before ++ .run 0xff (word (BitVec.ofNat 8 k) y) :: ws ∧
      encode ws = (z :: back).take (encode after).length := by
  obtain ⟨empty, -⟩ | ⟨size, slack', src⟩ := encodes.bytes
  · change (encode before).length + 1 + 3 + (encode after).length = 0 at empty
    omega
  change (encode before).length + 1 + 3 + (encode after).length = 1 + (encode us).length at size
  have bytes : encode before ++ 0xff :: BitVec.ofNat 8 k :: y :: z :: back =
      encode us ++ List.replicate slack' 0 := (List.cons.inj src).2
  have front : encode us = encode before ++
      0xff :: BitVec.ofNat 8 k :: y :: (z :: back).take (encode after).length := by
    have cut := congrArg (List.take (encode us).length) bytes
    have total : (encode us).length = (encode before).length + ((encode after).length + 3) := by omega
    rw [List.take_left, total, List.take_length_add_append] at cut
    exact cut.symm
  obtain ⟨vs, rfl, same⟩ := encode_append_cancel encodes.valid validB front
  obtain ⟨lo, hi, ws, rfl, rest⟩ :=
    encode_eq_mark (valid_append.mp encodes.valid).2 (.inr rfl) same
  obtain ⟨low, rest⟩ := List.cons.inj rest
  obtain ⟨high, rest⟩ := List.cons.inj rest
  exact ⟨ws, by rw [low, high], rest.symm⟩

/-- A count that was made larger in the wrong place does not stand for the array. -/
theorem miscount_fails (valid : RunLength.Valid (before ++ .literal b :: .run 0xff k :: after))
    (more : k ≠ COMPRESS_COUNT)
    (tail : encode after ++ List.replicate (1 + slack) 0 = x :: back)
    (encodes : Packed.Encodes ⟨1 :: encode before ++ 0xff :: BitVec.ofNat 8 k ::
      BitVec.ofNat 8 (word (BitVec.ofNat 8 (k / 256)) x + 1) ::
        BitVec.ofNat 8 ((word (BitVec.ofNat 8 (k / 256)) x + 1) / 256) :: back,
      (1 :: encode before).length + 3 + (encode after).length⟩ us) :
    expand us ≠ expand before ++ 0xff :: (List.replicate k 0xff ++ expand after) := by
  obtain ⟨validB, validA⟩ := valid_append.mp valid
  obtain ⟨⟨-, -, small⟩, validA⟩ := valid_cons.mp (valid_cons.mp validA).2
  obtain ⟨ws, rfl, rest⟩ := miscounted_tokens validB encodes
  have validW := (valid_cons.mp (valid_append.mp encodes.valid).2).2
  have low := x.isLt
  have high : (BitVec.ofNat 8 (k / 256)).toNat = k / 256 := by
    rw [BitVec.toNat_ofNat]
    omega
  have other : k ≠ 65535 := more
  rw [expand_append, expand_cons, Token.bytes, ← List.cons_append, ← List.replicate_succ]
  refine fun same => absurd (List.append_cancel_left same) ?_
  by_cases carry : k / 256 = 255
  · -- The carry goes into the next token, and the count loses its high byte.
    have sum : word (BitVec.ofNat 8 (k / 256)) x + 1 = 256 * (x.toNat + 1) := by
      rw [word, high, carry]
      omega
    have first : BitVec.ofNat 8 (word (BitVec.ofNat 8 (k / 256)) x + 1) = 0 := by
      refine BitVec.eq_of_toNat_eq ?_
      rw [sum, BitVec.toNat_ofNat]
      exact Nat.mul_mod_right 256 _
    have second : (word (BitVec.ofNat 8 (k / 256)) x + 1) / 256 = x.toNat + 1 := by omega
    have count : word (BitVec.ofNat 8 k) 0 = k % 256 := by
      rw [word, BitVec.toNat_ofNat]
      simp
    rw [first, count]
    rw [second] at rest
    intro same
    cases after with
    | nil =>
        obtain rfl := encode_inj valid_nil validW rest
        have lengths := congrArg List.length same
        simp only [List.length_append, List.length_replicate, expand_nil, List.length_nil] at lengths
        omega
    | cons t after =>
        obtain ⟨tail', whole⟩ : ∃ tail', encode (t :: after) = x :: tail' := by
          cases bytes : encode (t :: after) with
          | nil =>
              rw [encode_cons] at bytes
              exact absurd (List.append_eq_nil_iff.mp bytes).1 t.code_ne_nil
          | cons y tail' =>
              rw [bytes] at tail
              obtain ⟨rfl, -⟩ := List.cons.inj tail
              exact ⟨tail', rfl⟩
        rw [whole] at tail rest
        have moved : tail' ++ List.replicate (1 + slack) 0 = back := (List.cons.inj tail).2
        rw [← moved, List.length_cons, List.take_succ_cons, List.take_left] at rest
        -- The array goes on with 0xff here.
        have next : (expand ws).head? = some 0xff := by
          have rest : k + 1 = k % 256 + (k - k % 256 + 1) := by omega
          rw [rest, List.replicate_add, List.append_assoc] at same
          rw [List.append_cancel_left same]
          rfl
        by_cases marks : Marks (BitVec.ofNat 8 (x.toNat + 1))
        · obtain ⟨lo, hi, us', rfl, drop⟩ := encode_eq_mark validW marks rest
          obtain ⟨validT, validU⟩ := valid_cons.mp validW
          have full : BitVec.ofNat 8 (x.toNat + 1) = 0xff := by
            obtain ⟨w, is⟩ := Nat.exists_eq_succ_of_ne_zero (Nat.ne_of_gt validT.2.1)
            rw [expand_cons, Token.bytes, is] at next
            exact Option.some.inj next
          have last : x.toNat = 254 := by
            have value := congrArg BitVec.toNat full
            rw [BitVec.toNat_ofNat] at value
            change _ = 255 at value
            omega
          have plain : ¬Marks x := by
            rintro (rfl | rfl)
            · cases last
            · cases last
          obtain ⟨S, literal, encoded⟩ := encode_eq_literal validA plain whole
          obtain ⟨-, validS⟩ := valid_cons.mp (literal ▸ validA)
          rw [literal, full] at same
          refine expand_ne_of_out_of_step validS validU plain (.inr rfl) ?_ same
          rw [encoded, drop]
          rfl
        · obtain ⟨ws', rfl, -⟩ := encode_eq_literal validW marks rest
          exact marks (.inr (Option.some.inj next))
  · -- The count has 256 more bytes.
    have sum : word (BitVec.ofNat 8 (k / 256)) x + 1 = k / 256 + 1 + 256 * x.toNat := by
      rw [word, high]
      omega
    have second : BitVec.ofNat 8 ((word (BitVec.ofNat 8 (k / 256)) x + 1) / 256) = x := by
      refine BitVec.eq_of_toNat_eq ?_
      rw [sum, BitVec.toNat_ofNat]
      omega
    have count : word (BitVec.ofNat 8 k) (BitVec.ofNat 8 (word (BitVec.ofNat 8 (k / 256)) x + 1)) =
        k + 256 := by
      rw [sum, word, BitVec.toNat_ofNat, BitVec.toNat_ofNat]
      omega
    rw [second, ← tail, List.take_left] at rest
    rw [count, encode_inj validA validW rest]
    intro same
    have lengths := congrArg List.length same
    simp only [List.length_append, List.length_replicate] at lengths
    omega

/-- `SetAt` does what it should on every compressed array and every bit, unless the byte of the bit
goes into the run behind it. -/
theorem setsBit_iff (valid : c.Valid) (int : n < 2 ^ 31) : c.SetsBit n ↔ ¬c.BeforeRun n := by
  obtain ⟨ts, encodes, addressable⟩ := valid
  rw [beforeRun_iff encodes]
  have spec := setAt_spec encodes n
  have read := getAt_eq_bitAt encodes n
  have old := decompress_eq encodes addressable
  cases result : c.setAt n with
  | none =>
      rw [result] at spec
      cases spec
  | some pair =>
      rw [result] at spec
      cases spec with
      | kept counts bit =>
          refine iff_of_true ⟨false, c, expand ts, result, ⟨ts, encodes, addressable⟩, ?_, old, ?_, ?_⟩
            counts
          · intro m _
            refine ⟨_, getAt_eq_bitAt encodes m, (getAt_eq_bitAt encodes m).trans ?_⟩
            rw [← bitAt_withBit, withBit_of_set bit]
          · rw [withBit_of_set bit, old]
          · rw [read, bit]
            exact iff_of_true rfl rfl
      | set counts bit encodes' is =>
          rename_i c' us
          have short : (expand us).length ≤ 2 ^ 28 := by
            rw [is]
            exact length_withBit_le addressable int
          refine iff_of_true ⟨true, c', expand ts, result, ⟨us, encodes', short⟩, ?_, old, ?_, ?_⟩ counts
          · intro m _
            refine ⟨_, getAt_eq_bitAt encodes m, (getAt_eq_bitAt encodes' m).trans ?_⟩
            rw [is, bitAt_withBit]
          · rw [decompress_eq encodes' short, is]
          · simp [read, bit]
      | miscounted whole place full more behind tail =>
          rename_i before after b x k slack back
          refine iff_of_false ?_ (not_not.mpr ⟨before, b, k, after, whole, place, full, more, behind⟩)
          rintro ⟨bSet, c', xs, is, ⟨us, encodes', short⟩, -, same, new, -⟩
          obtain ⟨-, rfl⟩ := Prod.mk.inj (Option.some.inj (result.symm.trans is))
          subst whole
          refine miscount_fails encodes.valid more tail encodes' ?_
          obtain rfl := Option.some.inj (same.symm.trans old)
          rw [decompress_eq encodes' short] at new
          refine (Option.some.inj new).trans ?_
          rw [expand_append, expand_cons, expand_cons]
          exact (withBit_at _ _ _ place).trans (by rw [full]; rfl)

/-- Bit 18 is in the third of five zero bytes. -/
theorem thirdZero_setsBit : Packed.setAt ⟨[1, 0, 5, 0, 7], 5⟩ 18 =
      some (true, ⟨[1, 0, 2, 0, 4, 0, 2, 0, 7], 9⟩) ∧
    (Packed.SetsBit ⟨[1, 0, 5, 0, 7], 5⟩ 18 ↔ ¬Packed.BeforeRun ⟨[1, 0, 5, 0, 7], 5⟩ 18) := by
  refine ⟨by decide, setsBit_iff ⟨[.run 0 5, .literal 7], ⟨by decide, .inr ⟨rfl, 0, rfl⟩⟩, ?_⟩
    (by decide)⟩
  decide

/-- The run of one 0xff is given 256 more bytes. -/
theorem beforeRun_grows : Packed.Valid ⟨[1, 0xfe, 0xff, 1, 0], 5⟩ ∧
    Packed.setAt ⟨[1, 0xfe, 0xff, 1, 0], 5⟩ 0 = some (true, ⟨[1, 0xff, 1, 1, 0], 4⟩) ∧
      Packed.decompress ⟨[1, 0xff, 1, 1, 0], 4⟩ = some (List.replicate 257 0xff) ∧
        ¬Packed.SetsBit ⟨[1, 0xfe, 0xff, 1, 0], 5⟩ 0 := by
  have encodes : Packed.Encodes ⟨[1, 0xfe, 0xff, 1, 0], 5⟩ [.literal 0xfe, .run 0xff 1] :=
    ⟨by decide, .inr ⟨rfl, 0, rfl⟩⟩
  have grown : Packed.Encodes ⟨[1, 0xff, 1, 1, 0], 4⟩ [.run 0xff 257] :=
    ⟨by decide, .inr ⟨rfl, 1, rfl⟩⟩
  have result : Packed.setAt ⟨[1, 0xfe, 0xff, 1, 0], 5⟩ 0 =
      some (true, ⟨[1, 0xff, 1, 1, 0], 4⟩) := by decide
  have many : expand [.run 0xff 257] = List.replicate 257 0xff := List.append_nil _
  have short : (List.replicate 257 (0xff : BYTE)).length ≤ 2 ^ 28 := by
    rw [List.length_replicate]
    decide
  have now := decompress_eq grown (by rwa [many])
  rw [many] at now
  refine ⟨⟨_, encodes, by decide⟩, result, now, ?_⟩
  rintro ⟨bSet, c', xs, is, -, -, old, new, -⟩
  obtain ⟨-, rfl⟩ := Prod.mk.inj (Option.some.inj (result.symm.trans is))
  obtain rfl := Option.some.inj ((decompress_eq encodes (by decide)).symm.trans old)
  have length := congrArg List.length (Option.some.inj (now.symm.trans new))
  rw [List.length_replicate] at length
  revert length
  decide

end Cgsf.Proof.BaseLayer
