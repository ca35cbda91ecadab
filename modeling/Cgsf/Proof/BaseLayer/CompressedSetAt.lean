import Cgsf.Proof.BaseLayer.CompressedBits

/-!
# A bit of the compressed array is set
-/

namespace Cgsf.Proof.BaseLayer
open Cgsf.BaseLayer Library RunLength

variable {c c' : Packed} {ts us new : List Token} {front rest src : List BYTE} {b lo hi : BYTE}
  {n k j slack nDesLen nSrcLen : Nat} {result : Option (Bool × Packed)}

/-- New tokens stand between `front` and `rest`, and zeros behind them. -/
def Replaces (result : Option (Bool × Packed)) (front : List BYTE) (new : List Token)
    (rest : List BYTE) : Prop :=
  ∃ slack, result = some (true, ⟨front ++ encode new ++ rest ++ List.replicate slack 0,
    (front ++ encode new ++ rest).length⟩)

/-! ## In a run of zeros -/

/-- The byte with the bit. -/
abbrev filled (b : BYTE) (n : Nat) : BYTE := b ||| (1 : BYTE) <<< (n % 8)

theorem single_plain (n : Nat) : ¬Marks (filled 0 n) := by
  have all : ∀ i < 8, ¬Marks ((0 : BYTE) ||| (1 : BYTE) <<< i) := by decide
  exact all _ (Nat.mod_lt n (by decide))

theorem Replaces.of_eq (slack : Nat) (bytes : List BYTE) (size : Nat)
    (is : result = some (true, ⟨bytes, size⟩))
    (same : bytes = front ++ encode new ++ rest ++ List.replicate slack 0)
    (length : size = (front ++ encode new ++ rest).length) : Replaces result front new rest := by
  subst same length
  exact ⟨slack, is⟩

theorem insertByte_one (slack nRest : Nat) (is : src = front ++ rest ++ List.replicate slack 0)
    (size : nSrcLen = (front ++ rest).length) : Replaces
      (Packed.insertByte src nSrcLen n front.length 1 nRest) front [.literal (filled 0 n)] rest := by
  subst is size
  obtain ⟨gap, length, moved⟩ := memmove_back front rest slack 1
  have wiped := memset_at front gap rest 0
  have set := setBitAt_at front rest 0 n
  have bytes : ((front ++ rest).length : Int) - front.length = rest.length := by simp
  rw [length, List.replicate_one, List.append_assoc front [0], List.singleton_append] at wiped
  refine .of_eq 0 (front ++ filled 0 n :: rest) ((front ++ rest).length + 1) ?_
    (by simp [encode, Token.code]) (by simp [encode, Token.code]; omega)
  rw [Packed.insertByte, bytes, moved]
  simp only [Option.bind_eq_bind, Option.bind_some]
  rw [wiped, Option.bind_some, if_neg (Nat.lt_irrefl 1), set]
  rfl

theorem insertByte_four (slack : Nat) {nRest : Nat} (is : src = front ++ rest ++ List.replicate slack 0)
    (size : nSrcLen = (front ++ rest).length) :
    Replaces (Packed.insertByte src nSrcLen n front.length 4 nRest) front
      [.literal (filled 0 n), .run 0 nRest] rest := by
  subst is size
  obtain ⟨gap, length, moved⟩ := memmove_back front rest slack 4
  have wiped := memset_at front gap rest 0
  have word := writeWord_at (front ++ [0, 0]) rest 0 0 nRest
  have set := setBitAt_at front (0 :: BitVec.ofNat 8 nRest :: BitVec.ofNat 8 (nRest / 256) :: rest) 0 n
  have bytes : ((front ++ rest).length : Int) - front.length = rest.length := by simp
  rw [length, List.append_assoc front (List.replicate 4 0)] at wiped
  rw [List.append_assoc, List.length_append] at word
  refine .of_eq 0 (front ++ filled 0 n :: 0 :: BitVec.ofNat 8 nRest ::
      BitVec.ofNat 8 (nRest / 256) :: rest) ((front ++ rest).length + 4) ?_
    (by simp [encode, Token.code]) (by simp [encode, Token.code]; omega)
  rw [Packed.insertByte, bytes, moved]
  simp only [Option.bind_eq_bind, Option.bind_some]
  rw [wiped, Option.bind_some, if_pos (by decide)]
  refine (congrArg (Option.bind · _) word).trans ?_
  rw [Option.bind_some, List.append_assoc, List.cons_append, List.singleton_append, set]
  rfl

theorem Replaces.prepend (ts : List Token) (replaces : Replaces result (front ++ encode ts) new rest) :
    Replaces result front (ts ++ new) rest := by
  obtain ⟨slack, is⟩ := replaces
  exact .of_eq slack _ _ is (by simp) (by simp)

theorem Replaces.append (ts : List Token) (replaces : Replaces result front new (encode ts ++ rest)) :
    Replaces result front (new ++ ts) rest := by
  obtain ⟨slack, is⟩ := replaces
  exact .of_eq slack _ _ is (by simp) (by simp)

/-- A run of one zero becomes the byte. -/
theorem splitRun_only (src : c.src = front ++ (Token.run 0 1).code ++ rest ++ List.replicate slack 0)
    (size : c.nSrcLen = (front ++ (Token.run 0 1).code ++ rest).length) :
    Replaces (c.splitRun n (front.length + 1) nDesLen 1) front [.literal (filled 0 n)] rest := by
  obtain ⟨old, length, moved⟩ := memmove_front (front ++ [0]) [1, 0] rest (List.replicate slack 0)
  have wiped := memset_at (front ++ [0] ++ rest) old (List.replicate slack 0) 0
  have set := setBitAt_at front (rest ++ List.replicate 2 0 ++ List.replicate slack 0) 0 n
  have block : c.src = front ++ [0] ++ [1, 0] ++ rest ++ List.replicate slack 0 := by
    rw [src]
    simp [Token.code]
  have length' : (front ++ [0]).length = front.length + 1 := List.length_append
  have bytes : (c.nSrcLen : Int) - (front.length + 1 : Nat) - 2 = rest.length := by
    rw [size]
    simp [Token.code]
    omega
  have ends : c.nSrcLen - 2 = (front ++ [0] ++ rest).length := by
    rw [size]
    simp [Token.code]
    omega
  rw [length'] at moved
  rw [length] at wiped
  refine .of_eq (2 + slack) (front ++ filled 0 n ::
      (rest ++ List.replicate 2 0 ++ List.replicate slack 0)) (front ++ [0] ++ rest).length ?_ ?_
    (by simp [encode, Token.code])
  · rw [Packed.splitRun, if_neg (Nat.lt_irrefl 1), block, bytes]
    refine (congrArg (Option.bind · _) moved).trans ?_
    rw [Option.bind_some, ends]
    refine (congrArg (Option.bind · _) wiped).trans ?_
    rw [Option.bind_some, Nat.add_sub_cancel]
    refine (congrArg (Option.bind · _) ?_).trans (congrArg (Option.bind · _) set)
    simp
  · simp [encode, Token.code, List.replicate_add]

theorem writeWord_count (front rest : List BYTE) (b : BYTE) (k w : Nat) :
    writeWord (front ++ (Token.run b k).code ++ rest) (front.length + 1) w =
      some (front ++ (Token.run b w).code ++ rest) := by
  have word := writeWord_at (front ++ [b]) rest (BitVec.ofNat 8 k) (BitVec.ofNat 8 (k / 256)) w
  rw [List.length_append] at word
  simpa [Token.code] using word

/-- A bit in a run of zeros leaves the zeros before and behind its byte. -/
theorem splitRun_replaces (nDesLen : Nat)
    (src : c.src = front ++ (Token.run 0 k).code ++ rest ++ List.replicate slack 0)
    (size : c.nSrcLen = (front ++ (Token.run 0 k).code ++ rest).length) (small : k < 65536)
    (place : n / 8 = nDesLen + j) (inside : j < k) :
    ∃ new, RunLength.Valid new ∧
      expand new = List.replicate j 0 ++ filled 0 n :: List.replicate (k - 1 - j) 0 ∧
        Replaces (c.splitRun n (front.length + 1) nDesLen k) front new rest := by
  have plain : (Token.literal (filled 0 n)).Valid := single_plain n
  have run {i : Nat} (pos : 0 < i) (le : i < 65536) : (Token.run 0 i).Valid := ⟨.inl rfl, pos, le⟩
  have code (i : Nat) : encode [.run 0 i] = (Token.run 0 i).code := List.append_nil _
  have wrote (w : Nat) : writeWord c.src (front.length + 1) w =
      some (front ++ (Token.run 0 w).code ++ (rest ++ List.replicate slack 0)) := by
    rw [src, List.append_assoc]
    exact writeWord_count ..
  have length (w : Nat) : (front ++ (Token.run 0 w).code).length = front.length + 1 + 2 := by
    simp [Token.code]
  have offset : n / 8 - nDesLen = j := by omega
  by_cases only : k = 1
  · subst only
    obtain rfl : j = 0 := by omega
    exact ⟨_, valid_cons.mpr ⟨plain, valid_nil⟩, rfl, splitRun_only src size⟩
  rw [Packed.splitRun, if_pos (by omega), offset]
  by_cases last : n / 8 = nDesLen + k - 1
  · obtain rfl : j = k - 1 := by omega
    refine ⟨[.run 0 (k - 1), .literal (filled 0 n)], ?_, ?_, ?_⟩
    · exact valid_cons.mpr ⟨run (by omega) (by omega), valid_cons.mpr ⟨plain, valid_nil⟩⟩
    · simp [Token.bytes]
    · rw [if_pos last]
      refine Replaces.prepend [.run 0 (k - 1)] ?_
      rw [wrote, Option.bind_eq_bind, Option.bind_some, ← length (k - 1), code]
      refine insertByte_one slack _ (List.append_assoc ..).symm ?_
      simp [size, Token.code]
  rw [if_neg last]
  by_cases middle : 0 < j
  · refine ⟨[.run 0 j, .literal (filled 0 n), .run 0 (k - 1 - j)], ?_, ?_, ?_⟩
    · exact valid_cons.mpr ⟨run middle (by omega), valid_cons.mpr ⟨plain,
        valid_cons.mpr ⟨run (by omega) (by omega), valid_nil⟩⟩⟩
    · simp [Token.bytes]
    · rw [if_pos (by omega)]
      refine Replaces.prepend [.run 0 j] ?_
      rw [wrote, Option.bind_eq_bind, Option.bind_some, ← length j, code]
      refine insertByte_four slack (List.append_assoc ..).symm ?_
      simp [size, Token.code]
  · obtain rfl : j = 0 := by omega
    refine ⟨[.literal (filled 0 n), .run 0 (k - 1)], ?_, ?_, ?_⟩
    · exact valid_cons.mpr ⟨plain, valid_cons.mpr ⟨run (by omega) (by omega), valid_nil⟩⟩
    · simp [Token.bytes]
    · rw [if_neg (by omega)]
      refine @Replaces.append [.literal (filled 0 n)] _ _ _ [.run 0 (k - 1)] ?_
      rw [wrote, Option.bind_eq_bind, Option.bind_some, Nat.add_sub_cancel, code]
      refine insertByte_one slack _ ?_ ?_
      · simp
      · rw [size]
        simp [Token.code]

/-! ## In a byte that stands for itself -/

theorem filled_ne_zero (b : BYTE) (n : Nat) : filled b n ≠ 0 := by
  intro zero
  have low : n % 8 < 8 := Nat.mod_lt n (by decide)
  have bit := setBit_edits n b (n % 8) low
  rw [if_pos rfl] at bit
  have none : (0 : BYTE).getLsbD (n % 8) = true := zero ▸ bit
  simp at none

theorem setLiteral_set {nRunLength : Nat} {byType : BYTE} (byte : c.src[front.length]? = some b)
    (bit : b.getLsbD (n % 8) = true) :
    c.setLiteral n front.length nRunLength byType = some (false, c) := by
  simp only [Packed.setLiteral, byte, Option.bind_eq_bind, Option.bind_some, getBit_byte]
  rw [if_pos bit]
  rfl

theorem setLiteral_unset {nRunLength : Nat} {byType : BYTE} (src : c.src = front ++ b :: rest)
    (bit : b.getLsbD (n % 8) = false) : c.setLiteral n front.length nRunLength byType =
      if filled b n = 0xff then
        Packed.fillByte (front ++ 0xff :: rest) c.nSrcLen front.length nRunLength byType
      else some (true, ⟨front ++ filled b n :: rest, c.nSrcLen⟩) := by
  have byte := getElem?_front front (b :: rest) 0
  have byte' := getElem?_front front (filled b n :: rest) 0
  rw [Nat.add_zero] at byte byte'
  simp only [Packed.setLiteral, src, byte, List.getElem?_cons_zero, setBitAt_at, Option.bind_eq_bind,
    Option.bind_some, getBit_byte, bit, Bool.false_eq_true, if_false, byte']
  split
  · rename_i full
    rw [show b ||| (1 : BYTE) <<< (n % 8) = 0xff from full]
  · rfl

variable {nRunLength : Nat} {byType : BYTE}

/-- One byte goes, and a zero is left behind the others. -/
theorem close_gap (slack : Nat) (size : nSrcLen = (front ++ b :: rest).length) : ∃ moved,
    memmove (front ++ b :: (rest ++ List.replicate slack 0)) front.length (front.length + 1)
      ((nSrcLen : Int) - front.length - 1) = some moved ∧
    writeByte moved (nSrcLen - 1) 0 = some (front ++ (rest ++ List.replicate (1 + slack) 0)) := by
  obtain ⟨old, length, moved⟩ := memmove_front front [b] rest (List.replicate slack 0)
  obtain ⟨x, rfl⟩ := List.length_eq_one_iff.mp length
  have wrote := writeByte_at (front ++ rest) (List.replicate slack 0) x 0
  have bytes : (nSrcLen : Int) - front.length - 1 = rest.length := by
    rw [size]
    simp
  have last : nSrcLen - 1 = (front ++ rest).length := by
    rw [size]
    simp
  rw [bytes, last]
  refine ⟨front ++ (rest ++ x :: List.replicate slack 0), ?_, ?_⟩
  · simpa using moved
  · simpa [List.replicate_add] using wrote

theorem growPrevious_replaces (front rest : List BYTE) (slack : Nat) (size : nSrcLen =
      (front ++ (Token.run 0xff k).code ++ 0xff :: rest).length) :
    Replaces (Packed.growPrevious (front ++ (Token.run 0xff k).code ++
        0xff :: (rest ++ List.replicate slack 0)) nSrcLen (front ++ (Token.run 0xff k).code).length k)
      front [.run 0xff (k + 1)] rest := by
  obtain ⟨moved, move, wrote⟩ := close_gap slack size
  have count := writeWord_count front (rest ++ List.replicate (1 + slack) 0) 0xff k (k + 1)
  have place : (front ++ (Token.run 0xff k).code).length - 2 = front.length + 1 := by
    simp [Token.code]
  refine .of_eq (1 + slack) (front ++ (Token.run 0xff (k + 1)).code ++
    (rest ++ List.replicate (1 + slack) 0)) (nSrcLen - 1) ?_ (by simp [encode])
    (by simp [size, encode, Token.code])
  rw [Packed.growPrevious, move, Option.bind_eq_bind, Option.bind_some, wrote, Option.bind_some,
    place, count]
  rfl

/-- The count that is made larger is not the one of the run. -/
theorem growNext_eq (rest : List BYTE) (slack : Nat)
    (size : nSrcLen = (front ++ b :: 0xff :: lo :: hi :: rest).length) :
    ∃ x back, rest ++ List.replicate (1 + slack) 0 = x :: back ∧
      Packed.growNext (front ++ b :: 0xff :: lo :: hi :: (rest ++ List.replicate slack 0)) nSrcLen
        front.length = some (true, ⟨front ++ 0xff :: lo :: BitVec.ofNat 8 (word hi x + 1) ::
          BitVec.ofNat 8 ((word hi x + 1) / 256) :: back, (front ++ 0xff :: lo :: hi :: rest).length⟩) := by
  obtain ⟨moved, move, wrote⟩ := close_gap slack size
  cases tail : rest ++ List.replicate (1 + slack) 0 with
  | nil => simp at tail
  | cons x back =>
      rw [List.cons_append, List.cons_append, List.cons_append, tail] at wrote
      have read := readWord_at (front ++ [0xff, lo]) back hi x
      have count := writeWord_at (front ++ [0xff, lo]) back hi x (word hi x + 1)
      refine ⟨x, back, rfl, ?_⟩
      rw [List.length_append, List.append_assoc] at read count
      rw [Packed.growNext, ← List.cons_append, ← List.cons_append, ← List.cons_append, move,
        Option.bind_eq_bind, Option.bind_some, wrote, Option.bind_some]
      refine (congrArg (Option.bind · _) read).trans ?_
      rw [Option.bind_some]
      refine (congrArg (Option.bind · _) count).trans ?_
      rw [Option.bind_some, List.append_assoc, size]
      simp

theorem startRun_replaces (size : nSrcLen = (front ++ b :: rest).length) : Replaces
    (Packed.startRun (front ++ b :: (rest ++ List.replicate slack 0)) nSrcLen front.length) front
      [.run b 1] rest := by
  obtain ⟨gap, length, moved⟩ := memmove_back (front ++ [b]) rest slack 2
  obtain ⟨x, y, rfl⟩ := List.length_eq_two.mp length
  have count := writeWord_at (front ++ [b]) rest x y 1
  have bytes : (nSrcLen : Int) - front.length - 1 = rest.length := by
    rw [size]
    simp
  have whole : front ++ b :: (rest ++ List.replicate slack 0) =
      front ++ [b] ++ rest ++ List.replicate slack 0 := by simp
  have room : nSrcLen + 2 = (front ++ [b] ++ rest).length + 2 := by
    rw [size]
    simp
  have place : (front ++ [b]).length = front.length + 1 := List.length_append
  rw [place] at moved count
  rw [List.append_assoc _ [x, y]] at moved
  refine .of_eq 0 (front ++ [b] ++ BitVec.ofNat 8 1 :: BitVec.ofNat 8 (1 / 256) :: rest)
    (nSrcLen + 2) ?_ (by simp [encode, Token.code]) (by simp [size, encode, Token.code]; omega)
  rw [Packed.startRun, whole, bytes, room, Option.bind_eq_bind]
  refine (congrArg (Option.bind · _) moved).trans ?_
  rw [Option.bind_some]
  exact congrArg (Option.bind · _) count

/-- The tokens begin with a run of 0xff that can be made longer. -/
def GrowsNext : List Token → Prop
  | .run b k :: _ => b = 0xff ∧ k ≠ COMPRESS_COUNT
  | _ => False

instance : (ts : List Token) → Decidable (GrowsNext ts)
  | .run _ _ :: _ => inferInstanceAs (Decidable (_ ∧ _))
  | [] | .literal _ :: _ => instDecidableFalse

theorem nextGrows_eq (valid : RunLength.Valid ts) {back : List BYTE}
    (size : nSrcLen = (front ++ b :: encode ts).length) :
    Packed.nextGrows (front ++ b :: (encode ts ++ back)) nSrcLen front.length =
      some (decide (GrowsNext ts)) := by
  have byte := getElem?_front front (b :: (encode ts ++ back)) 1
  rw [Packed.nextGrows]
  cases ts with
  | nil => rw [if_neg (by simp [size])]; rfl
  | cons t ts =>
      cases t with
      | literal y =>
          have plain : ¬y = 0xff := fun is => (valid_cons.mp valid).1 (.inr is)
          have head : (b :: (encode (.literal y :: ts) ++ back))[1]? = some y := rfl
          split
          · rw [byte, head, Option.bind_eq_bind, Option.bind_some, if_neg plain]
            rfl
          · rfl
      | run y k =>
          have small := (valid_cons.mp valid).1.2.2
          have count := word_code (front ++ [b, y]) (encode ts ++ back) small
          rw [List.length_append, List.append_assoc] at count
          have head : (b :: (encode (.run y k :: ts) ++ back))[1]? = some y := rfl
          have read : readWord (front ++ b :: (encode (.run y k :: ts) ++ back)) (front.length + 2) =
              some k := count
          rw [if_pos (by simp [size, Token.code]), byte, head, Option.bind_eq_bind, Option.bind_some,
            read]
          by_cases is : y = 0xff
          · rw [if_pos is]
            simp [GrowsNext, is]
          · rw [if_neg is]
            refine congrArg some (decide_eq_false ?_).symm
            exact fun both : y = 0xff ∧ k ≠ COMPRESS_COUNT => is both.1

/-! ## Behind the last byte -/

def zeroRuns : Nat → Nat → List Token
  | 0, _ => []
  | nRun + 1, nLength =>
      .run 0 (if nLength ≥ COMPRESS_COUNT then COMPRESS_COUNT else nLength) ::
        zeroRuns nRun (nLength - COMPRESS_COUNT)

theorem length_zeroRuns (nRun nLength : Nat) : (encode (zeroRuns nRun nLength)).length = nRun * 3 := by
  induction nRun generalizing nLength with
  | zero => rfl
  | succ nRun ih =>
      rw [zeroRuns, encode_cons, List.length_append, ih]
      simp only [Token.code, List.length_cons, List.length_nil]
      omega

/-- As many runs as are needed. -/
theorem zeroRuns_spec {nRun nLength : Nat} (enough : nLength ≤ nRun * COMPRESS_COUNT)
    (needed : nRun * COMPRESS_COUNT < nLength + COMPRESS_COUNT) :
    RunLength.Valid (zeroRuns nRun nLength) ∧
      expand (zeroRuns nRun nLength) = List.replicate nLength 0 := by
  induction nRun generalizing nLength with
  | zero =>
      obtain rfl : nLength = 0 := by omega
      exact ⟨valid_nil, rfl⟩
  | succ nRun ih =>
      have positive : 0 < nLength := by
        rw [Nat.succ_mul] at needed
        omega
      have count : COMPRESS_COUNT = 65535 := rfl
      rw [zeroRuns]
      generalize COMPRESS_COUNT = m at *
      rw [Nat.succ_mul] at enough needed
      have more : nRun = 0 ∨ m ≤ nRun * m := by
        rcases Nat.eq_zero_or_pos nRun with none | some
        · exact .inl none
        · exact .inr (Nat.le_mul_of_pos_left m some)
      have last : nRun = 0 → nRun * m = 0 := by
        rintro rfl
        exact Nat.zero_mul m
      obtain ⟨valid, bytes⟩ := @ih (nLength - m) (by omega) (by omega)
      refine ⟨valid_cons.mpr ⟨⟨.inl rfl, ?_, ?_⟩, valid⟩, ?_⟩
      · split <;> omega
      · split <;> omega
      · rw [expand_cons, Token.bytes, bytes, List.replicate_append_replicate]
        congr 1
        split <;> omega

theorem writeRuns_eq (front : List BYTE) (nRun nLength : Nat)
    (size : nSrcLen = front.length + nRun * 3 + 1) :
    Packed.writeRuns nSrcLen nRun nLength (front ++ List.replicate (nRun * 3) 0 ++ [0]) =
      some (front ++ encode (zeroRuns nRun nLength) ++ [0]) := by
  induction nRun generalizing front nLength with
  | zero => rfl
  | succ nRun ih =>
      rw [Packed.writeRuns, zeroRuns]
      generalize (if nLength ≥ COMPRESS_COUNT then COMPRESS_COUNT else nLength) = w
      have count := writeWord_count front (List.replicate (nRun * 3) 0 ++ [0]) 0 0 w
      have zeros : front ++ List.replicate ((nRun + 1) * 3) 0 ++ [0] =
          front ++ (Token.run 0 0).code ++ (List.replicate (nRun * 3) 0 ++ [0]) := by
        rw [Nat.succ_mul, Nat.add_comm, List.replicate_add]
        simp [Token.code]
      have place : nSrcLen - (nRun + 1) * 3 = front.length + 1 := by omega
      have next := ih (front ++ (Token.run 0 w).code) (nLength - COMPRESS_COUNT)
        (by simp [size, Token.code]; omega)
      rw [zeros, place, count, Option.bind_some, ← List.append_assoc, next, encode_cons,
        List.append_assoc front]

/-- The block with room for the runs and the byte. -/
theorem appendAt_block (encodes : c.Encodes ts) (k : Nat) :
    (if c.nSrcLen = 0 then ((allocPtr (c.nSrcLen + k + 1 + 1)).set 0 1, c.nSrcLen + k + 1 + 1)
      else (reAllocPtr c.src (c.nSrcLen + k + 1), c.nSrcLen + k + 1)) =
        (1 :: encode ts ++ List.replicate k 0 ++ [0], (1 :: encode ts).length + k + 1) := by
  obtain ⟨empty, rfl⟩ | ⟨size, slack, src⟩ := encodes.bytes
  · rw [if_pos empty, empty, allocPtr, List.replicate_succ', Nat.zero_add]
    refine congrArg₂ Prod.mk ?_ (Nat.add_comm _ _)
    rw [List.replicate_succ]
    simp
  · have total : c.nSrcLen + k + 1 = (1 :: encode ts).length + (k + 1) := by
      rw [size, List.length_cons]
      omega
    rw [if_neg (by omega), total, src, reAllocPtr_zeros, List.replicate_succ', List.append_assoc]
    rfl

theorem appendAt_replaces (encodes : c.Encodes ts) (nDesLen : Nat) :
    ∃ new, RunLength.Valid new ∧
      expand new = List.replicate (n / 8 - nDesLen) 0 ++ [filled 0 n] ∧
        Replaces (c.appendAt n nDesLen) (1 :: encode ts) new [] := by
  generalize runs : (n / 8 - nDesLen) / COMPRESS_COUNT +
    (if (n / 8 - nDesLen) % COMPRESS_COUNT ≠ 0 then 1 else 0) = nRun
  have bounds : n / 8 - nDesLen ≤ nRun * COMPRESS_COUNT ∧
      nRun * COMPRESS_COUNT < n / 8 - nDesLen + COMPRESS_COUNT := by
    rw [← runs, show COMPRESS_COUNT = 65535 from rfl]
    constructor
    · split <;> omega
    · split <;> omega
  obtain ⟨valid, bytes⟩ := zeroRuns_spec bounds.1 bounds.2
  refine ⟨zeroRuns nRun (n / 8 - nDesLen) ++ [.literal (filled 0 n)], ?_, ?_, ?_⟩
  · exact valid_append.mpr ⟨valid, valid_cons.mpr ⟨single_plain n, valid_nil⟩⟩
  · rw [expand_append, bytes]
    rfl
  · have total : (if nRun > 0 then c.nSrcLen + (nRun * 3 + 1) else c.nSrcLen + 1) =
        c.nSrcLen + nRun * 3 + 1 := by
      split <;> omega
    have wrote := writeRuns_eq (1 :: encode ts) nRun (n / 8 - nDesLen) rfl
    have set := setBitAt_at (1 :: encode ts ++ encode (zeroRuns nRun (n / 8 - nDesLen))) [] 0 n
    have length : (1 :: encode ts).length + nRun * 3 =
        (1 :: encode ts ++ encode (zeroRuns nRun (n / 8 - nDesLen))).length := by
      rw [List.length_append, length_zeroRuns]
    rw [length] at wrote
    refine .of_eq 0 (1 :: encode ts ++ encode (zeroRuns nRun (n / 8 - nDesLen)) ++ [filled 0 n])
      ((1 :: encode ts).length + nRun * 3 + 1) ?_ (by simp [Token.code])
      (by simp [length_zeroRuns, Token.code]; omega)
    rw [Packed.appendAt]
    simp only [runs, total, appendAt_block encodes, wrote, Option.bind_eq_bind, Option.bind_some,
      Nat.add_sub_cancel, length, set]
    rfl

/-! ## The search -/

variable {xs ys : List BYTE} {before after : List Token}

theorem withBit_at (xs ys : List BYTE) (b : BYTE) (place : xs.length = n / 8) :
    Packed.withBit (xs ++ b :: ys) n = xs ++ filled b n :: ys := by
  have long : n / 8 + 1 - (xs ++ b :: ys).length = 0 := by
    rw [List.length_append, List.length_cons]
    omega
  rw [Packed.withBit, long, List.replicate_zero, List.append_nil, setBit_eq,
    List.modify_eq_take_drop, ← place, List.take_left, List.drop_left]
  rfl

theorem withBit_beyond (beyond : xs.length ≤ n / 8) :
    Packed.withBit xs n = xs ++ (List.replicate (n / 8 - xs.length) 0 ++ [filled 0 n]) := by
  have padded : n / 8 + 1 - xs.length = n / 8 - xs.length + 1 := by omega
  have at' := @withBit_at n (xs ++ List.replicate (n / 8 - xs.length) 0) [] 0
    (by rw [List.length_append, List.length_replicate]; omega)
  rw [← List.append_assoc, ← at', Packed.withBit, Packed.withBit, padded, List.replicate_succ',
    List.append_assoc]
  congr 1
  simp
  omega

theorem bitAt_at (place : xs.length = n / 8) : bitAt (xs ++ b :: ys) n = b.getLsbD (n % 8) := by
  have low : n - 8 * xs.length = n % 8 := by omega
  rw [bitAt_append_of_le place.le, low, bitAt_cons_low (Nat.mod_lt n (by decide))]

/-- The byte of the bit goes into the run behind it. -/
def Miscounts (ts : List Token) (n : Nat) : Prop :=
  ∃ before b k after, ts = before ++ .literal b :: .run 0xff k :: after ∧
    (expand before).length = n / 8 ∧ filled b n = 0xff ∧ k ≠ COMPRESS_COUNT ∧
      ∀ j, before.getLast? = some (.run 0xff j) → j = COMPRESS_COUNT

/-- What `SetAt` makes of tokens. -/
inductive SetSpec (c : Packed) (ts : List Token) (n : Nat) : Option (Bool × Packed) → Prop where
  | kept (counts : ¬Miscounts ts n) (bit : bitAt (expand ts) n = true) :
      SetSpec c ts n (some (false, c))
  | set {c' : Packed} {us : List Token} (counts : ¬Miscounts ts n)
      (bit : bitAt (expand ts) n = false) (encodes : c'.Encodes us)
      (is : expand us = Packed.withBit (expand ts) n) : SetSpec c ts n (some (true, c'))
  | miscounted {before after : List Token} {b x : BYTE} {k slack : Nat} {back : List BYTE}
      (whole : ts = before ++ .literal b :: .run 0xff k :: after)
      (place : (expand before).length = n / 8) (full : filled b n = 0xff) (more : k ≠ COMPRESS_COUNT)
      (behind : ∀ j, before.getLast? = some (.run 0xff j) → j = COMPRESS_COUNT)
      (tail : encode after ++ List.replicate (1 + slack) 0 = x :: back) :
      SetSpec c ts n (some (true, ⟨1 :: encode before ++ 0xff :: BitVec.ofNat 8 k ::
          BitVec.ofNat 8 (word (BitVec.ofNat 8 (k / 256)) x + 1) ::
            BitVec.ofNat 8 ((word (BitVec.ofNat 8 (k / 256)) x + 1) / 256) :: back,
        (1 :: encode before).length + 3 + (encode after).length⟩))

/-- The only byte that can go wrong is one that stands for itself. -/
theorem not_miscounts {t : Token} (low : (expand before).length ≤ n / 8)
    (high : n / 8 < (expand before).length + t.bytes.length)
    (counts : ∀ b k rest, t = .literal b → after = .run 0xff k :: rest → filled b n = 0xff →
      k ≠ COMPRESS_COUNT → ∃ j, before.getLast? = some (.run 0xff j) ∧ j ≠ COMPRESS_COUNT) :
    ¬Miscounts (before ++ t :: after) n := by
  rintro ⟨before', b, k, rest, same, place, full, more, behind⟩
  have one : (Token.literal b).bytes.length = 1 := rfl
  obtain ⟨rfl, rfl, rfl⟩ := place_unique same low high place.le (by omega)
  obtain ⟨j, last, other⟩ := counts b k rest rfl rfl full more
  exact other (behind j last)

theorem SetSpec.of_replaces (before new after : List Token) (counts : ¬Miscounts ts n)
    (bit : bitAt (expand ts) n = false)
    (valid : RunLength.Valid (before ++ new ++ after))
    (replaces : Replaces result (1 :: encode before) new (encode after))
    (is : expand (before ++ new ++ after) = Packed.withBit (expand ts) n) : SetSpec c ts n result := by
  obtain ⟨slack, rfl⟩ := replaces
  refine .set counts bit ⟨valid, .inr ⟨?_, slack, ?_⟩⟩ is
  · simp
    omega
  · simp

/-- The tokens before the place, and those that `SetAt` still has to look at. -/
structure Reached (c : Packed) (before after : List Token) (nRunLength : Nat) (byType : BYTE) :
    Prop where
  valid : RunLength.Valid (before ++ after)
  src : ∃ slack, c.src = 1 :: encode before ++ encode after ++ List.replicate slack 0
  nSrcLen : c.nSrcLen = (1 :: encode before ++ encode after).length
  isRun : byType = 0xff → ∃ front, before = front ++ [.run 0xff nRunLength]
  ofRun : ∀ j, before.getLast? = some (.run 0xff j) → byType = 0xff

variable {nRunLength : Nat} {byType : BYTE}

theorem Reached.reads (reached : Reached c before after nRunLength byType) :
    Reads c (1 :: encode before) after := by
  obtain ⟨slack, src⟩ := reached.src
  exact ⟨(valid_append.mp reached.valid).2, ⟨_, src.trans (List.append_assoc ..)⟩,
    reached.nSrcLen.trans List.length_append⟩

theorem Reached.literal (reached : Reached c before (.literal b :: after) nRunLength byType) :
    Reached c (before ++ [.literal b]) after nRunLength 0 := by
  obtain ⟨valid, ⟨slack, src⟩, size, -, -⟩ := reached
  refine ⟨?_, ⟨slack, ?_⟩, ?_, nofun, ?_⟩
  · rwa [List.append_assoc]
  · rw [src]
    simp
  · rw [size]
    simp
  · intro j last
    rw [List.getLast?_concat] at last
    cases last

theorem Reached.run (reached : Reached c before (.run b k :: after) nRunLength byType) :
    Reached c (before ++ [.run b k]) after k b := by
  obtain ⟨valid, ⟨slack, src⟩, size, -, -⟩ := reached
  refine ⟨?_, ⟨slack, ?_⟩, ?_, ?_, ?_⟩
  · rwa [List.append_assoc]
  · rw [src]
    simp
  · rw [size]
    simp
  · rintro rfl
    exact ⟨before, rfl⟩
  · intro j last
    rw [List.getLast?_concat] at last
    cases last
    rfl

/-- A byte that stands for itself has the bit, gets it, or becomes part of a run. -/
theorem setLiteral_spec (reached : Reached c before (.literal b :: after) nRunLength byType)
    (place : (expand before).length = n / 8) : SetSpec c (before ++ .literal b :: after) n
      (c.setLiteral n (1 :: encode before).length nRunLength byType) := by
  have whole : expand (before ++ .literal b :: after) = expand before ++ b :: expand after := by
    rw [expand_append]
    rfl
  have counts (safe : filled b n = 0xff → ∀ k rest, after = .run 0xff k :: rest →
      k ≠ COMPRESS_COUNT → ∃ j, before.getLast? = some (.run 0xff j) ∧ j ≠ COMPRESS_COUNT) :
      ¬Miscounts (before ++ .literal b :: after) n := by
    refine not_miscounts place.le (by rw [place]; exact Nat.lt_succ_self _) ?_
    rintro b' k rest same behind full more
    cases same
    exact safe full k rest behind more
  have bit : bitAt (expand (before ++ .literal b :: after)) n = b.getLsbD (n % 8) := by
    rw [whole, bitAt_at place]
  have now : Packed.withBit (expand (before ++ .literal b :: after)) n =
      expand before ++ filled b n :: expand after := by rw [whole, withBit_at _ _ _ place]
  obtain ⟨slack, src⟩ := reached.src
  obtain ⟨validB, validA⟩ := valid_append.mp reached.valid
  obtain ⟨plain, validA⟩ := valid_cons.mp validA
  have src : c.src = 1 :: encode before ++ b :: (encode after ++ List.replicate slack 0) := by
    rw [src]
    simp [Token.code]
  have size : c.nSrcLen = (1 :: encode before ++ b :: encode after).length := reached.nSrcLen
  cases clear : b.getLsbD (n % 8) with
  | true =>
      rw [setLiteral_set reached.reads.literal.2.1 clear]
      refine .kept (counts fun full => absurd ?_ plain) (bit.trans clear)
      have same : filled b n = b := by
        refine BitVec.eq_of_getLsbD_eq fun i low => ?_
        rw [setBit_edits n b i low]
        split
        · rename_i is
          rw [is, clear]
        · rfl
      exact .inr (same.symm.trans full)
  | false =>
      have clear' := bit.trans clear
      rw [setLiteral_unset src clear]
      by_cases full : filled b n = 0xff
      swap
      · rw [if_neg full]
        refine .of_replaces before [.literal (filled b n)] after
          (counts fun is => absurd is full) clear' ?_ (.of_eq slack _ _ rfl ?_ ?_) ?_
        · rw [List.append_assoc]
          refine valid_append.mpr ⟨validB, valid_cons.mpr ⟨?_, validA⟩⟩
          exact fun marks => marks.elim (filled_ne_zero b n) full
        · simp [encode, Token.code]
        · rw [size]
          simp [encode, Token.code]
        · rw [now]
          simp [Token.bytes]
      rw [if_pos full, Packed.fillByte]
      by_cases grows : nRunLength ≠ COMPRESS_COUNT ∧ byType = 0xff
      · obtain ⟨front, rfl⟩ := reached.isRun grows.2
        obtain ⟨validF, validR⟩ := valid_append.mp validB
        have small := (valid_cons.mp validR).1.2.2
        have replaces := @growPrevious_replaces nRunLength c.nSrcLen (1 :: encode front)
          (encode after) slack (by rw [size]; simp)
        rw [if_pos grows]
        have behind : (front ++ [Token.run 0xff nRunLength]).getLast? = some (.run 0xff nRunLength) :=
          List.getLast?_concat
        refine .of_replaces front [.run 0xff (nRunLength + 1)] after
          (counts fun _ _ _ _ _ => ⟨nRunLength, behind, grows.1⟩) clear' ?_ (by simpa using replaces) ?_
        · rw [List.append_assoc]
          refine valid_append.mpr ⟨validF, valid_cons.mpr ⟨⟨.inr rfl, Nat.succ_pos _, ?_⟩, validA⟩⟩
          have other : nRunLength ≠ 65535 := grows.1
          omega
        · rw [now, full]
          simp [Token.bytes, List.replicate_succ']
      · have behind (j : Nat) (last : before.getLast? = some (.run 0xff j)) : j = COMPRESS_COUNT := by
          have run := reached.ofRun j last
          obtain ⟨front, rfl⟩ := reached.isRun run
          rw [List.getLast?_concat] at last
          cases last
          exact not_not.mp fun other => grows ⟨other, run⟩
        have size : c.nSrcLen = (1 :: encode before ++ 0xff :: encode after).length := by
          rw [size]
          simp
        rw [if_neg grows, nextGrows_eq validA size, Option.bind_eq_bind, Option.bind_some]
        by_cases next : GrowsNext after
        · cases after with
          | nil => exact next.elim
          | cons t after =>
              cases t with
              | literal y => exact next.elim
              | run y k =>
                  obtain ⟨rfl, more⟩ := next
                  have grown := growNext_eq (encode after) slack size
                  obtain ⟨x, back, tail, is⟩ := grown
                  have length : (1 :: encode before ++ 0xff :: BitVec.ofNat 8 k ::
                      BitVec.ofNat 8 (k / 256) :: encode after).length =
                        (1 :: encode before).length + 3 + (encode after).length := by
                    simp
                    omega
                  rw [length] at is
                  rw [if_pos (by exact decide_eq_true ⟨rfl, more⟩)]
                  exact is ▸ SetSpec.miscounted rfl place full more behind tail
        · rw [if_neg (by simpa using next)]
          refine .of_replaces before [.run 0xff 1] after
            (counts fun _ k rest is more => (next ?_).elim) clear' ?_ (startRun_replaces size) ?_
          · rw [is]
            exact ⟨rfl, more⟩
          · rw [List.append_assoc]
            exact valid_append.mpr ⟨validB, valid_cons.mpr ⟨⟨.inr rfl, by decide, by decide⟩, validA⟩⟩
          · rw [now, full]
            simp [Token.bytes]

theorem appendAt_spec (encodes : c.Encodes ts) (beyond : (expand ts).length ≤ n / 8) :
    SetSpec c ts n (c.appendAt n (expand ts).length) := by
  obtain ⟨new, valid, bytes, replaces⟩ := appendAt_replaces (n := n) encodes (expand ts).length
  refine .of_replaces ts new [] ?_ ?_ ?_ replaces ?_
  · rintro ⟨before, b, k, after, rfl, place, -⟩
    rw [expand_append, expand_cons, List.length_append, List.length_append, place] at beyond
    have one : (Token.literal b).bytes.length = 1 := rfl
    omega
  · have nothing := @bitAt_append_of_le n _ [] beyond
    rwa [List.append_nil, bitAt_nil] at nothing
  · rw [List.append_nil]
    exact valid_append.mpr ⟨encodes.valid, valid⟩
  · rw [List.append_nil, expand_append, bytes, withBit_beyond beyond]

theorem setAtLoop_spec {fuel : Nat} (reached : Reached c before after nRunLength byType)
    (beyond : (expand before).length ≤ n / 8) (enough : (encode after).length < fuel) :
    SetSpec c (before ++ after) n (c.setAtLoop n fuel (1 :: encode before).length
      (expand before).length nRunLength byType) := by
  induction after generalizing before nRunLength byType fuel with
  | nil =>
      obtain ⟨fuel, rfl⟩ := Nat.exists_eq_succ_of_ne_zero (Nat.ne_of_gt (Nat.zero_lt_of_lt enough))
      rw [Packed.setAtLoop, if_neg reached.reads.done, List.append_nil]
      obtain ⟨valid, ⟨slack, src⟩, size, -, -⟩ := reached
      rw [List.append_nil] at valid
      refine appendAt_spec ⟨valid, .inr ⟨?_, slack, ?_⟩⟩ beyond
      · rw [size]
        simp [Nat.add_comm]
      · rw [src]
        simp
  | cons t after ih =>
      obtain ⟨fuel, rfl⟩ := Nat.exists_eq_succ_of_ne_zero (Nat.ne_of_gt (Nat.zero_lt_of_lt enough))
      rw [encode_cons, List.length_append] at enough
      cases t with
      | literal b =>
          obtain ⟨inside, byte, plain⟩ := reached.reads.literal
          rw [Packed.setAtLoop, if_pos inside, byte, Option.bind_eq_bind, Option.bind_some,
            if_neg plain]
          by_cases place : (expand before).length = n / 8
          · rw [if_pos place]
            exact setLiteral_spec reached place
          · rw [if_neg place]
            have loop := @ih _ _ _ fuel reached.literal (by simp [Token.bytes]; omega)
              (by simp [Token.code] at enough; omega)
            simpa [Token.code, Token.bytes] using loop
      | run b k =>
          obtain ⟨inside, byte, marks, count⟩ := reached.reads.run
          rw [Packed.setAtLoop, if_pos inside, byte]
          simp only [Option.bind_eq_bind, Option.bind_some, if_pos marks, count]
          by_cases place : (expand before).length + k > n / 8
          · rw [if_pos place]
            have length : (Token.run b k).bytes.length = k := List.length_replicate ..
            have counts : ¬Miscounts (before ++ .run b k :: after) n :=
              not_miscounts beyond (by rw [length]; exact place) fun _ _ _ is => Token.noConfusion is
            have bit : bitAt (expand (before ++ .run b k :: after)) n = b.getLsbD (n % 8) := by
              rw [expand_append, expand_cons, Token.bytes, bitAt_run beyond place]
            by_cases full : b = 0xff
            · rw [if_pos full]
              refine .kept counts (bit.trans ?_)
              rw [full, ones_getLsbD (Nat.mod_lt n (by decide))]
            · rw [if_neg full]
              obtain rfl := marks.resolve_right full
              obtain ⟨slack, src⟩ := reached.src
              obtain ⟨validB, validA⟩ := valid_append.mp reached.valid
              obtain ⟨⟨-, -, small⟩, validA⟩ := valid_cons.mp validA
              obtain ⟨new, valid, bytes, replaces⟩ := @splitRun_replaces c (1 :: encode before)
                (encode after) n k (n / 8 - (expand before).length) slack (expand before).length
                (by rw [src]; simp) (by rw [reached.nSrcLen]; simp) small (by omega) (by omega)
              refine .of_replaces before new after counts (bit.trans ?_) ?_ replaces ?_
              · simp
              · rw [List.append_assoc]
                exact valid_append.mpr ⟨validB, valid_append.mpr ⟨valid, validA⟩⟩
              · have split : List.replicate k (0 : BYTE) =
                    List.replicate (n / 8 - (expand before).length) 0 ++
                      0 :: List.replicate (k - 1 - (n / 8 - (expand before).length)) 0 := by
                  rw [← List.replicate_succ, List.replicate_append_replicate]
                  congr 1
                  omega
                have at' := @withBit_at n
                  (expand before ++ List.replicate (n / 8 - (expand before).length) 0)
                  (List.replicate (k - 1 - (n / 8 - (expand before).length)) 0 ++ expand after) 0
                  (by rw [List.length_append, List.length_replicate]; omega)
                have whole : expand (before ++ .run 0 k :: after) =
                    expand before ++ List.replicate (n / 8 - (expand before).length) 0 ++ 0 ::
                      (List.replicate (k - 1 - (n / 8 - (expand before).length)) 0 ++
                        expand after) := by
                  rw [expand_append, expand_cons, Token.bytes, split]
                  simp
                rw [whole, at', expand_append, expand_append, bytes]
                simp only [List.append_assoc, List.cons_append]
          · rw [if_neg place]
            have loop := @ih _ _ _ fuel reached.run (by simp [Token.bytes]; omega)
              (by simp [Token.code] at enough; omega)
            simpa [Token.code, Token.bytes] using loop

end Cgsf.Proof.BaseLayer
