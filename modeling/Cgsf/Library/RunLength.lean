import Mathlib.Data.List.Basic
import Mathlib.Data.List.TakeDrop

/-!
# Runs of two bytes

A byte 0 or 0xff is written once, with the number of times it comes in a word behind it; other bytes
stand for themselves.
-/

namespace Cgsf.Library.RunLength

abbrev Byte := BitVec 8

/-- The bytes that are written as runs. -/
def Marks (b : Byte) : Prop := b = 0 ∨ b = 0xff

instance (b : Byte) : Decidable (Marks b) := inferInstanceAs (Decidable (_ ∨ _))

inductive Token where
  | literal (b : Byte)
  | run (b : Byte) (count : Nat)
  deriving DecidableEq, Repr

namespace Token

def Valid : Token → Prop
  | literal b => ¬Marks b
  | run b count => Marks b ∧ 0 < count ∧ count < 65536

instance : (t : Token) → Decidable t.Valid
  | literal _ => inferInstanceAs (Decidable (¬_))
  | run _ _ => inferInstanceAs (Decidable (_ ∧ _))

/-- How a token is written; the low byte of a count comes first. -/
def code : Token → List Byte
  | literal b => [b]
  | run b count => [b, BitVec.ofNat 8 count, BitVec.ofNat 8 (count / 256)]

/-- The bytes that a token stands for. -/
def bytes : Token → List Byte
  | literal b => [b]
  | run b count => List.replicate count b

end Token

def encode (ts : List Token) : List Byte := ts.flatMap Token.code

def expand (ts : List Token) : List Byte := ts.flatMap Token.bytes

def Valid (ts : List Token) : Prop := ∀ t ∈ ts, t.Valid

instance (ts : List Token) : Decidable (Valid ts) := inferInstanceAs (Decidable (∀ t ∈ ts, t.Valid))

variable {t : Token} {ts us : List Token} {b : Byte} {k : Nat}

@[simp] theorem encode_nil : encode [] = [] := rfl

@[simp] theorem encode_cons : encode (t :: ts) = t.code ++ encode ts := List.flatMap_cons

@[simp] theorem encode_append : encode (ts ++ us) = encode ts ++ encode us := List.flatMap_append

@[simp] theorem expand_nil : expand [] = [] := rfl

@[simp] theorem expand_cons : expand (t :: ts) = t.bytes ++ expand ts := List.flatMap_cons

@[simp] theorem expand_append : expand (ts ++ us) = expand ts ++ expand us := List.flatMap_append

theorem valid_nil : Valid [] := List.forall_mem_nil _

theorem valid_cons : Valid (t :: ts) ↔ t.Valid ∧ Valid ts := List.forall_mem_cons

theorem valid_append : Valid (ts ++ us) ↔ Valid ts ∧ Valid us := List.forall_mem_append

/-- The number in two bytes, the low one first. -/
def word (lo hi : Byte) : Nat := lo.toNat + 256 * hi.toNat

theorem word_ofNat (small : k < 65536) : word (BitVec.ofNat 8 k) (BitVec.ofNat 8 (k / 256)) = k := by
  rw [word, BitVec.toNat_ofNat, BitVec.toNat_ofNat]
  omega

theorem word_lt (lo hi : Byte) : word lo hi < 65536 := by
  have low := lo.isLt
  have high := hi.isLt
  rw [word]
  omega

theorem ofNat_word (lo hi : Byte) : BitVec.ofNat 8 (word lo hi) = lo ∧
    BitVec.ofNat 8 (word lo hi / 256) = hi := by
  have low := lo.isLt
  have high := hi.isLt
  constructor
  · refine BitVec.eq_of_toNat_eq ?_
    rw [word, BitVec.toNat_ofNat]
    omega
  · refine BitVec.eq_of_toNat_eq ?_
    rw [word, BitVec.toNat_ofNat]
    omega

theorem Token.code_ne_nil (t : Token) : t.code ≠ [] := by
  cases t <;> exact List.cons_ne_nil _ _

theorem Token.length_code_le (valid : t.Valid) : t.code.length ≤ 3 * t.bytes.length := by
  cases t with
  | literal b => exact Nat.le_add_left 1 2
  | run b count =>
      have positive := valid.2.1
      rw [code, bytes, List.length_replicate]
      simp only [List.length_cons, List.length_nil]
      omega

theorem length_encode_le (valid : Valid ts) : (encode ts).length ≤ 3 * (expand ts).length := by
  induction ts with
  | nil => decide
  | cons t ts ih =>
      obtain ⟨first, rest⟩ := valid_cons.mp valid
      have one := Token.length_code_le first
      have more := ih rest
      rw [encode_cons, expand_cons, List.length_append, List.length_append]
      omega

/-! ## Reading -/

/-- A literal is read as one byte. -/
theorem encode_eq_literal (valid : Valid ts) {rest : List Byte} (plain : ¬Marks b)
    (same : encode ts = b :: rest) : ∃ us, ts = .literal b :: us ∧ encode us = rest := by
  cases ts with
  | nil => cases same
  | cons t us =>
      cases t with
      | literal c =>
          obtain ⟨rfl, tail⟩ := List.cons.inj same
          exact ⟨us, rfl, tail⟩
      | run c count =>
          obtain ⟨rfl, -⟩ := List.cons.inj same
          exact absurd (valid_cons.mp valid).1.1 plain

/-- A mark is read with the two bytes behind it. -/
theorem encode_eq_mark (valid : Valid ts) {rest : List Byte} (marks : Marks b)
    (same : encode ts = b :: rest) :
    ∃ lo hi us, ts = .run b (word lo hi) :: us ∧ rest = lo :: hi :: encode us := by
  cases ts with
  | nil => cases same
  | cons t us =>
      cases t with
      | literal c =>
          obtain ⟨rfl, -⟩ := List.cons.inj same
          exact absurd marks (valid_cons.mp valid).1
      | run c count =>
          obtain ⟨rfl, rfl⟩ := List.cons.inj same
          refine ⟨_, _, us, ?_, rfl⟩
          rw [word_ofNat (valid_cons.mp valid).1.2.2]

/-- What is written can be read in one way only. -/
theorem encode_append_cancel {rest : List Byte} (valid : Valid us) (validT : Valid ts)
    (same : encode us = encode ts ++ rest) : ∃ vs, us = ts ++ vs ∧ encode vs = rest := by
  induction ts generalizing us with
  | nil => exact ⟨us, rfl, same⟩
  | cons t ts ih =>
      obtain ⟨first, others⟩ := valid_cons.mp validT
      cases t with
      | literal b =>
          obtain ⟨us', rfl, tail⟩ := encode_eq_literal valid first same
          obtain ⟨vs, rfl, is⟩ := ih (valid_cons.mp valid).2 others tail
          exact ⟨vs, rfl, is⟩
      | run b count =>
          obtain ⟨lo, hi, us', rfl, tail⟩ := encode_eq_mark valid first.1 same
          obtain ⟨low, tail⟩ := List.cons.inj tail
          obtain ⟨high, tail⟩ := List.cons.inj tail
          obtain ⟨vs, rfl, is⟩ := ih (valid_cons.mp valid).2 others tail.symm
          refine ⟨vs, ?_, is⟩
          rw [← low, ← high, word_ofNat first.2.2]
          rfl

/-! ## Writing -/

/-- How many bytes at the front are `b`, at most `left`. -/
def leading (b : Byte) : Nat → List Byte → Nat
  | 0, _ => 0
  | _ + 1, [] => 0
  | left + 1, c :: rest => if c = b then leading b left rest + 1 else 0

theorem leading_le (b : Byte) (left : Nat) (bytes : List Byte) : leading b left bytes ≤ left := by
  induction left generalizing bytes with
  | zero => exact Nat.le_refl 0
  | succ left ih =>
      cases bytes with
      | nil => exact Nat.zero_le _
      | cons c rest =>
          rw [leading]
          split
          · exact Nat.succ_le_succ (ih rest)
          · exact Nat.zero_le _

theorem leading_append_drop (b : Byte) (left : Nat) (bytes : List Byte) :
    List.replicate (leading b left bytes) b ++ bytes.drop (leading b left bytes) = bytes := by
  induction left generalizing bytes with
  | zero => rfl
  | succ left ih =>
      cases bytes with
      | nil => rfl
      | cons c rest =>
          rw [leading]
          split
          · rename_i same
            rw [List.replicate_succ, List.drop_succ_cons, List.cons_append, ih, same]
          · rfl

/-- The bytes as tokens, each run as long as a word can tell. -/
def tokens : List Byte → List Token
  | [] => []
  | b :: rest =>
      if Marks b then .run b (leading b 65534 rest + 1) :: tokens (rest.drop (leading b 65534 rest))
      else .literal b :: tokens rest
termination_by bytes => bytes.length
decreasing_by
  · rw [List.length_drop, List.length_cons]
    omega
  · exact Nat.lt_succ_self _

theorem tokens_spec (bytes : List Byte) : Valid (tokens bytes) ∧ expand (tokens bytes) = bytes := by
  induction bytes using tokens.induct with
  | case1 =>
      rw [tokens]
      exact ⟨valid_nil, rfl⟩
  | case2 b rest marks ih =>
      have le := leading_le b 65534 rest
      rw [tokens, if_pos marks]
      refine ⟨valid_cons.mpr ⟨⟨marks, Nat.succ_pos _, by omega⟩, ih.1⟩, ?_⟩
      rw [expand_cons, ih.2, Token.bytes, List.replicate_succ, List.cons_append,
        leading_append_drop]
  | case3 b rest plain ih =>
      rw [tokens, if_neg plain]
      refine ⟨valid_cons.mpr ⟨plain, ih.1⟩, ?_⟩
      rw [expand_cons, ih.2]
      rfl

/-! ## Reading out of step

The bytes of one list of tokens may also be those of another that begins in the middle of a run.
Both stand for the same literals up to one.
-/

def literals (bytes : List Byte) : Nat := bytes.countP fun b => ¬Marks b

theorem literals_replicate (marks : Marks b) : literals (List.replicate k b) = 0 := by
  rw [literals, List.countP_replicate, if_neg]
  simpa using marks

/-- Both end in the same bytes, with a literal before them in the first and a mark in the second. -/
def Parts (es ds : List Byte) : Prop :=
  ∃ p q w y b, es = p ++ y :: w ∧ ds = q ++ b :: w ∧ ¬Marks y ∧ Marks b

theorem Parts.prepend {es ds : List Byte} (parts : Parts es ds) (xs ys : List Byte) :
    Parts (xs ++ es) (ys ++ ds) := by
  obtain ⟨p, q, w, y, b, rfl, rfl, plain, marks⟩ := parts
  exact ⟨xs ++ p, ys ++ q, w, y, b, (List.append_assoc ..).symm, (List.append_assoc ..).symm, plain,
    marks⟩

theorem not_parts_self (es : List Byte) : ¬Parts es es := by
  rintro ⟨p, q, w, y, b, left, right, plain, marks⟩
  rw [left, List.append_cons p, List.append_cons q] at right
  obtain rfl : y = b := by
    have last := List.append_cancel_right right
    exact (List.append_inj' last rfl).2 |> List.head_eq_of_cons_eq
  exact plain marks

/-- A run stands for at least one byte. -/
theorem parts_of_run {es : List Byte} {y : Byte} (plain : ¬Marks y) (valid : (Token.run b k).Valid) :
    Parts (y :: es) (List.replicate k b ++ es) := by
  obtain ⟨k, rfl⟩ := Nat.exists_eq_succ_of_ne_zero (Nat.ne_of_gt valid.2.1)
  refine ⟨[], List.replicate k b, es, y, b, rfl, ?_, plain, valid.1⟩
  rw [List.replicate_succ', List.append_assoc]
  rfl

theorem literals_append (xs ys : List Byte) : literals (xs ++ ys) = literals xs + literals ys :=
  List.countP_append

theorem encode_inj (validT : Valid ts) (validU : Valid us) (same : encode us = encode ts) :
    us = ts := by
  obtain ⟨vs, rfl, nothing⟩ := @encode_append_cancel ts us [] validU validT (by simpa using same)
  cases vs with
  | nil => rw [List.append_nil]
  | cons t vs =>
      rw [encode_cons] at nothing
      exact absurd (List.append_eq_nil_iff.mp nothing).1 t.code_ne_nil

theorem literals_run (marks : Marks b) (ts : List Token) :
    literals (expand (.run b k :: ts)) = literals (expand ts) := by
  rw [expand_cons, literals_append, Token.bytes, literals_replicate marks, Nat.zero_add]

theorem literals_literal (plain : ¬Marks b) (ts : List Token) :
    literals (expand (.literal b :: ts)) = 1 + literals (expand ts) := by
  rw [expand_cons, literals_append, Token.bytes, literals, literals, List.countP_singleton,
    if_pos (decide_eq_true plain)]

/-- The second list begins two bytes further on, or one. -/
theorem out_of_step (validT : Valid ts) (validU : Valid us) :
    ((encode ts).drop 2 = encode us →
      literals (expand us) ≤ literals (expand ts) ∨ Parts (expand us) (expand ts)) ∧
    ((encode ts).drop 1 = encode us →
      literals (expand us) ≤ literals (expand ts) + 1 ∨ Parts (expand us) (expand ts)) := by
  induction ts generalizing us with
  | nil =>
      have nothing (same : [] = encode us) : us = [] := encode_inj valid_nil validU same.symm
      constructor
      · intro same
        rw [nothing same]
        exact .inl (Nat.le_refl _)
      · intro same
        rw [nothing same]
        exact .inl (Nat.le_add_right _ 1)
  | cons t ts ih =>
      obtain ⟨first, others⟩ := valid_cons.mp validT
      cases t with
      | literal b =>
          rw [literals_literal first]
          constructor
          · intro same
            rcases (ih others validU).2 same with fewer | parts
            · exact .inl (by omega)
            · exact .inr (parts.prepend [] [b])
          · intro same
            rw [encode_inj others validU same.symm]
            exact .inl (by omega)
      | run b k =>
          -- What begins at the high byte of the count.
          have high {vs : List Token} (valid : Valid vs)
              (same : BitVec.ofNat 8 (k / 256) :: encode ts = encode vs) :
              literals (expand vs) ≤ literals (expand ts) ∨
                Parts (expand vs) (expand (.run b k :: ts)) := by
            by_cases marks : Marks (BitVec.ofNat 8 (k / 256))
            · obtain ⟨lo, hi, vs', rfl, rest⟩ := encode_eq_mark valid marks same.symm
              rw [literals_run marks]
              have next : (encode ts).drop 2 = encode vs' := by rw [rest]; rfl
              rcases (ih others (valid_cons.mp valid).2).1 next with fewer | parts
              · exact .inl fewer
              · exact .inr (parts.prepend _ _)
            · obtain ⟨vs', rfl, rest⟩ := encode_eq_literal valid marks same.symm
              rw [encode_inj others (valid_cons.mp valid).2 rest]
              exact .inr (parts_of_run marks first)
          rw [literals_run first.1]
          refine ⟨fun same => high validU same, fun same => ?_⟩
          by_cases marks : Marks (BitVec.ofNat 8 k)
          · obtain ⟨lo, hi, us', rfl, rest⟩ := encode_eq_mark validU marks same.symm
            rw [literals_run marks]
            obtain ⟨-, rest⟩ := List.cons.inj rest
            have next : (encode ts).drop 1 = encode us' := by
              rw [show encode ts = hi :: encode us' from rest]
              rfl
            rcases (ih others (valid_cons.mp validU).2).2 next with fewer | parts
            · exact .inl fewer
            · exact .inr (parts.prepend _ _)
          · obtain ⟨us', rfl, rest⟩ := encode_eq_literal validU marks same.symm
            rw [literals_literal marks]
            rcases high (valid_cons.mp validU).2 rest.symm with fewer | parts
            · exact .inl (by omega)
            · exact .inr (parts.prepend [_] [])

/-- Two literals before the same bytes, one of them written as the mark of a run. -/
theorem expand_ne_of_out_of_step {j k w : Nat} {y m : Byte} (validT : Valid ts) (validU : Valid us)
    (plain : ¬Marks y) (marks : Marks m) (drop : (encode ts).drop 2 = encode us) :
    List.replicate j m ++ (List.replicate w m ++ expand us) ≠
      List.replicate k m ++ y :: expand ts := by
  intro same
  have count := congrArg literals same
  have one : literals (y :: expand ts) = 1 + literals (expand ts) := literals_literal plain ts
  rw [literals_append, literals_append, literals_append, literals_replicate marks,
    literals_replicate marks, literals_replicate marks, one] at count
  rcases (out_of_step validT validU).1 drop with fewer | parts
  · omega
  · have whole := (parts.prepend (List.replicate w m) [y]).prepend (List.replicate j m)
      (List.replicate k m)
    rw [same] at whole
    exact not_parts_self _ whole

/-- A place is in one token only. -/
theorem place_unique {before before' after after' : List Token} {t t' : Token} {n : Nat}
    (same : before ++ t :: after = before' ++ t' :: after')
    (low : (expand before).length ≤ n) (high : n < (expand before).length + t.bytes.length)
    (low' : (expand before').length ≤ n) (high' : n < (expand before').length + t'.bytes.length) :
    before = before' ∧ t = t' ∧ after = after' := by
  have apart {xs ys zs : List Token} {u : Token} (split : xs = ys ++ u :: zs)
      (inside : n < (expand ys).length + u.bytes.length) (beyond : (expand xs).length ≤ n) :
      False := by
    rw [split, expand_append, expand_cons, List.length_append, List.length_append] at beyond
    omega
  rcases List.append_eq_append_iff.mp same with ⟨more, is, tail⟩ | ⟨more, is, tail⟩
  · cases more with
    | nil =>
        obtain ⟨first, rest⟩ := List.cons.inj tail
        exact ⟨(is.trans (List.append_nil _)).symm, first, rest⟩
    | cons u more =>
        obtain ⟨rfl, -⟩ := List.cons.inj tail
        exact (apart is high low').elim
  · cases more with
    | nil =>
        obtain ⟨first, rest⟩ := List.cons.inj tail
        exact ⟨is.trans (List.append_nil _), first.symm, rest.symm⟩
    | cons u more =>
        obtain ⟨rfl, -⟩ := List.cons.inj tail
        exact (apart is high' low).elim

end Cgsf.Library.RunLength
