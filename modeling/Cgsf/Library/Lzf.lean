import Mathlib.Data.List.Basic

/-!
# The LZF format

A stream is a sequence of runs of literal bytes and of references back into what was unpacked so
far. `extents` lists how far each instruction of a stream unpacks, up to the first that is cut off
or refers to bytes before the start.
-/

namespace Cgsf.Library.Lzf

inductive Instruction where
  | literal (run : List UInt8)
  | back (distance len : Nat)
  deriving DecidableEq, Repr

namespace Instruction

def size : Instruction → Nat
  | literal run => run.length
  | back _ len => len

/-- A reference reaches what was unpacked before it. -/
def Reaches (position : Nat) : Instruction → Prop
  | literal _ => True
  | back distance _ => distance ≤ position

instance (position : Nat) : (i : Instruction) → Decidable (i.Reaches position)
  | literal _ => inferInstanceAs (Decidable True)
  | back distance _ => inferInstanceAs (Decidable (distance ≤ position))

end Instruction

/-- The length of a reference and the low byte of its distance; the length 7 has a byte of its
own. -/
def parseLength (len : Nat) : List UInt8 → Option (Nat × UInt8 × List UInt8)
  | [] => none
  | low :: rest =>
      if len = 7 then
        match rest with
        | [] => none
        | low' :: rest => some (len + low.toNat, low', rest)
      else some (len, low, rest)

def parse : List UInt8 → Option (Instruction × List UInt8)
  | [] => none
  | ctrl :: rest =>
      if ctrl.toNat < 32 then
        if rest.length < ctrl.toNat + 1 then none
        else some (.literal (rest.take (ctrl.toNat + 1)), rest.drop (ctrl.toNat + 1))
      else
        (parseLength (ctrl.toNat / 32) rest).map fun (len, low, rest) =>
          (.back (256 * (ctrl.toNat % 32) + 1 + low.toNat) (len + 2), rest)

def extents : Nat → Nat → List UInt8 → List Nat
  | 0, _, _ => []
  | fuel + 1, position, src =>
      match parse src with
      | none => []
      | some (i, rest) =>
          if i.Reaches position then
            (position + i.size) :: extents fuel (position + i.size) rest
          else []

theorem extents_ge (fuel position : Nat) (src : List UInt8) :
    ∀ s ∈ extents fuel position src, position ≤ s := by
  induction fuel generalizing position src with
  | zero => simp [extents]
  | succ fuel ih =>
      intro s member
      rw [extents] at member
      split at member
      · simp at member
      · split at member
        · rcases List.mem_cons.mp member with rfl | later
          · exact Nat.le_add_right _ _
          · exact Nat.le_trans (Nat.le_add_right _ _) (ih _ _ s later)
        · simp at member

theorem extents_nil (fuel position : Nat) : extents fuel position [] = [] := by
  cases fuel with
  | zero => rfl
  | succ fuel => rfl

end Cgsf.Library.Lzf
