import Mathlib.Algebra.Ring.Nat
import Mathlib.Data.Finset.Card
import Mathlib.Data.List.GetD

/-!
# Bits of a list of bytes

Eight bits a byte, the lowest first. An edit of one bit, of every bit of a range or of every byte
is known by the bits it leaves.
-/

namespace Cgsf.Library

variable {bytes : List (BitVec 8)} {m n : Nat}

def bitAt (bytes : List (BitVec 8)) (n : Nat) : Bool := (bytes.getD (n / 8) 0).getLsbD (n % 8)

theorem bitAt_append_zeros (k : Nat) : bitAt (bytes ++ List.replicate k 0) n = bitAt bytes n := by
  rw [bitAt, bitAt]
  by_cases inside : n / 8 < bytes.length
  · rw [List.getD_append _ _ _ _ inside]
  · rw [List.getD_append_right _ _ _ _ (by omega), List.getD_eq_default bytes _ (by omega)]
    rw [List.getD_eq_getElem?_getD, List.getElem?_getD_replicate_default_eq]

theorem getD_modify {f : BitVec 8 → BitVec 8} (inside : n < bytes.length) :
    (bytes.modify n f).getD m 0 = if m = n then f (bytes.getD m 0) else bytes.getD m 0 := by
  simp only [List.getD_eq_getElem?_getD, List.getElem?_modify]
  by_cases same : m = n
  · subst same
    simp [inside]
  · simp [same, Ne.symm same]

/-- The byte that holds a bit is changed in that bit only. -/
theorem bitAt_modify {f : BitVec 8 → BitVec 8} {g : Bool → Bool}
    (edits : ∀ byte i, i < 8 →
      (f byte).getLsbD i = if i = n % 8 then g (byte.getLsbD i) else byte.getLsbD i)
    (inside : n < 8 * bytes.length) :
    bitAt (bytes.modify (n / 8) f) m = if m = n then g (bitAt bytes m) else bitAt bytes m := by
  rw [bitAt, getD_modify (by omega)]
  by_cases byte : m / 8 = n / 8
  · rw [if_pos byte, edits _ _ (Nat.mod_lt m (by decide))]
    have same : m % 8 = n % 8 ↔ m = n := by omega
    simp only [same, bitAt]
  · rw [if_neg byte, if_neg fun same => byte (by rw [same])]
    rfl

/-- One bit after another is changed. -/
theorem bitAt_foldl_modify {f : Nat → BitVec 8 → BitVec 8} {g : Bool → Bool}
    (edits : ∀ n byte i, i < 8 →
      (f n byte).getLsbD i = if i = n % 8 then g (byte.getLsbD i) else byte.getLsbD i)
    {ns : List Nat} (nodup : ns.Nodup) (inside : ∀ n ∈ ns, n < 8 * bytes.length) :
    bitAt (ns.foldl (fun bytes n => bytes.modify (n / 8) (f n)) bytes) m =
      if m ∈ ns then g (bitAt bytes m) else bitAt bytes m := by
  induction ns generalizing bytes with
  | nil => rfl
  | cons n ns ih =>
      obtain ⟨fresh, nodup⟩ := List.nodup_cons.mp nodup
      have here := inside n List.mem_cons_self
      rw [List.foldl_cons, ih nodup, bitAt_modify (edits n) here]
      · by_cases same : m = n
        · subst same
          simp [fresh]
        · simp [same]
      · intro k member
        rw [List.length_modify]
        exact inside k (List.mem_cons_of_mem n member)

theorem length_foldl_modify {β : Type*} {at_ : β → Nat} {f : β → BitVec 8 → BitVec 8}
    {ns : List β} :
    (ns.foldl (fun bytes n => bytes.modify (at_ n) (f n)) bytes).length = bytes.length := by
  induction ns generalizing bytes with
  | nil => rfl
  | cons n ns ih => rw [List.foldl_cons, ih, List.length_modify]

/-- The first bytes are changed, one after another. -/
theorem getD_foldl_modify {f : Nat → BitVec 8 → BitVec 8} (inside : n ≤ bytes.length) :
    ((List.range n).foldl (fun bytes n => bytes.modify n (f n)) bytes).getD m 0 =
      if m < n then f m (bytes.getD m 0) else bytes.getD m 0 := by
  induction n with
  | zero => simp
  | succ n ih =>
      rw [List.range_succ, List.foldl_append, List.foldl_cons, List.foldl_nil, getD_modify,
        ih (by omega)]
      · by_cases same : m = n
        · subst same
          simp
        · have less : m < n ↔ m < n + 1 := by omega
          simp [same, less]
      · rw [length_foldl_modify]
        omega

/-- Two lists of bytes are combined. -/
theorem bitAt_foldl_zip {op : BitVec 8 → BitVec 8 → BitVec 8} {g : Bool → Bool → Bool}
    (acts : ∀ x y i, i < 8 → (op x y).getLsbD i = g (x.getLsbD i) (y.getLsbD i))
    {other : List (BitVec 8)} (inside : n ≤ bytes.length) :
    bitAt ((List.range n).foldl (fun bytes n => bytes.modify n (op · (other.getD n 0))) bytes) m =
      if m < 8 * n then g (bitAt bytes m) (bitAt other m) else bitAt bytes m := by
  rw [bitAt, getD_foldl_modify (f := fun n byte => op byte (other.getD n 0)) inside]
  have byte : m / 8 < n ↔ m < 8 * n := by omega
  by_cases less : m < 8 * n
  · rw [if_pos (byte.mpr less), if_pos less, acts _ _ _ (Nat.mod_lt m (by decide))]
    rfl
  · rw [if_neg fun is => less (byte.mp is), if_neg less]
    rfl

/-! ## How many are set -/

def popCount (byte : BitVec 8) : Nat := (List.range 8).countP byte.getLsbD

theorem bitAt_cons_low {byte : BitVec 8} (low : n < 8) : bitAt (byte :: bytes) n = byte.getLsbD n := by
  rw [bitAt, Nat.div_eq_of_lt low, Nat.mod_eq_of_lt low]
  rfl

theorem bitAt_cons_high {byte : BitVec 8} : bitAt (byte :: bytes) (8 + n) = bitAt bytes n := by
  rw [bitAt, Nat.add_div_left n (by decide), Nat.add_mod_left]
  rfl

theorem sum_popCount (bytes : List (BitVec 8)) :
    (bytes.map popCount).sum = (List.range (8 * bytes.length)).countP (bitAt bytes) := by
  induction bytes with
  | nil => rfl
  | cons byte bytes ih =>
      have size : 8 * (byte :: bytes).length = 8 + 8 * bytes.length := by
        rw [List.length_cons]
        omega
      have low : (List.range 8).countP (bitAt (byte :: bytes)) = popCount byte :=
        List.countP_congr fun i member => by rw [bitAt_cons_low (List.mem_range.mp member)]
      rw [List.map_cons, List.sum_cons, ih, size, List.range_add, List.countP_append,
        List.countP_map, low]
      congr 1
      exact List.countP_congr fun i _ => by rw [Function.comp_apply, bitAt_cons_high]

theorem card_bits (p : Nat → Bool) (k : Nat) :
    ((Finset.range k).filter (p ·)).card = (List.range k).countP p := by
  rw [List.countP_eq_length_filter, Finset.card, Finset.filter_val, Finset.range_val,
    ← Multiset.coe_range, Multiset.filter_coe, Multiset.coe_card]
  simp only [Bool.decide_eq_true]

end Cgsf.Library
