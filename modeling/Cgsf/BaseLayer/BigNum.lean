import Mathlib.Data.UInt

/-!
# Numbers of 32 digits
-/

namespace Cgsf.BaseLayer

/-- `no[0]` to `no[3]`, the highest first. -/
@[ext]
structure BigNum where
  a : UInt64 := 0
  b : UInt64 := 0
  c : UInt64 := 0
  d : UInt64 := 0
  deriving DecidableEq, Repr

namespace BigNum

def base : UInt64 := 100000000

/-- One turn of the loop of `Normalize`: what a limb has too much goes to the next higher one. -/
def carry (high low : UInt64) : UInt64 × UInt64 :=
  if low > base then (high + low / base, low % base) else (high, low)

def normalize (n : BigNum) : BigNum :=
  let (c, d) := carry n.c n.d
  let (b, c) := carry n.b c
  let (a, b) := carry n.a b
  { a := a % base, b, c, d }

/-- What the second loop of `operator +` does to a limb of the sum. -/
def corrected (sum right : UInt64) : UInt64 := if sum < right then sum + 1 else sum

/-- `operator +` -/
def add (b1 b2 : BigNum) : BigNum :=
  let b1 := b1.normalize
  let b2 := b2.normalize
  normalize {
    a := corrected (b1.a + b2.a) b2.a
    b := corrected (b1.b + b2.b) b2.b
    c := corrected (b1.c + b2.c) b2.c
    d := b1.d + b2.d }

/-- What the second loop of `operator -` does to a limb of the difference. -/
def borrowed (difference right : UInt64) : UInt64 :=
  if difference < right then difference - 1 else difference

/-- `operator -` -/
def sub (b1 b2 : BigNum) : BigNum :=
  let b1 := b1.normalize
  let b2 := b2.normalize
  normalize {
    a := borrowed (b1.a - b2.a) b2.a
    b := borrowed (b1.b - b2.b) b2.b
    c := borrowed (b1.c - b2.c) b2.c
    d := b1.d - b2.d }

/-- `operator *` -/
def mul (b1 b2 : BigNum) : BigNum :=
  let b1 := b1.normalize
  let b2 := b2.normalize
  normalize {
    d := b2.d * b1.d
    c := b2.c * b1.d + b2.d * b1.c
    b := b2.b * b1.d + b2.c * b1.c + b2.b * b1.d
    a := b2.a * b1.d + b2.b * b1.c + b2.c * b1.b + b2.d * b1.a }

def Normalised (n : BigNum) : Prop := n.a < base ∧ n.b < base ∧ n.c < base ∧ n.d < base

instance (n : BigNum) : Decidable n.Normalised := inferInstanceAs (Decidable (_ ∧ _))

def value (n : BigNum) : Nat :=
  ((n.a.toNat * 10 ^ 8 + n.b.toNat) * 10 ^ 8 + n.c.toNat) * 10 ^ 8 + n.d.toNat

/-- What is left of a limb in `operator -`: one less if the difference is below what was taken. -/
def left (x y : Nat) : Int := (x : Int) - y - if y ≤ x ∧ x < 2 * y then 1 else 0

/-- In one of the sums of the limbs, carried up, a limb comes to exactly the base. -/
def AddLands (m n : BigNum) : Prop :=
  ∃ low ∈ [1, 10 ^ 8, 10 ^ 16],
    (m.value % (low * 10 ^ 8) + n.value % (low * 10 ^ 8)) / low = 10 ^ 8

def MulLands (m n : BigNum) : Prop :=
  let low := m.d.toNat * n.d.toNat
  let middle := m.d.toNat * n.c.toNat + m.c.toNat * n.d.toNat + low / 10 ^ 8
  let high := 2 * (m.d.toNat * n.b.toNat) + m.c.toNat * n.c.toNat + middle / 10 ^ 8
  low = 10 ^ 8 ∨ middle = 10 ^ 8 ∨ high = 10 ^ 8

def SubLands (m n : BigNum) : Prop :=
  m.d < n.d ∧ left m.b.toNat n.b.toNat +
    (left m.c.toNat n.c.toNat + (2 ^ 64 + m.d.toNat - n.d.toNat) / 10 ^ 8) / 10 ^ 8 = 10 ^ 8

def Adds (m n : BigNum) : Prop :=
  (m.add n).value = (m.value + n.value) % 10 ^ 32 ∧ (m.add n).Normalised

def Multiplies (m n : BigNum) : Prop :=
  (m.mul n).value = m.value * n.value % 10 ^ 32 ∧ (m.mul n).Normalised

def Subtracts (m n : BigNum) : Prop :=
  (n.value ≤ m.value → (m.sub n).value = m.value - n.value) ∧ (m.sub n).Normalised

/-- No limb has to borrow, and the three high ones are at least twice what is taken from them. -/
def Ample (m n : BigNum) : Prop :=
  2 * n.a.toNat ≤ m.a.toNat ∧ 2 * n.b.toNat ≤ m.b.toNat ∧ 2 * n.c.toNat ≤ m.c.toNat ∧
    n.d.toNat ≤ m.d.toNat

end BigNum

end Cgsf.BaseLayer
