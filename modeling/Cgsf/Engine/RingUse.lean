import Cgsf.Engine.IOBuffer
import Cgsf.Library.Transition
import Mathlib.Algebra.Ring.Nat

namespace Cgsf.Engine
open Library

/-- A ring and what its callers did with it: the bytes it accepted, how many of them were taken and
not put back, and the head and that number as a caller remembered them. -/
structure RingUse where
  ring : SFIOBuffer
  put : List UInt8 := []
  taken : Nat := 0
  mark : Option (Nat × Nat) := none
  deriving DecidableEq, Repr

namespace RingUse

inductive Call where
  | appendData (data : List UInt8)
  | getHead
  | getData (iSize : Int)
  | removeData (iSize : Int)
  | setHead
  deriving DecidableEq, Repr

/-- The sum that `AppendData` tests is an `int`. -/
def Adds (ring : SFIOBuffer) (data : List UInt8) : Prop :=
  ring.iUsedBufferSize + data.length < 2 ^ 31

instance (ring : SFIOBuffer) (data : List UInt8) : Decidable (Adds ring data) :=
  inferInstanceAs (Decidable (_ < _))

/-- `none` where the ring leaves its memory or never returns, and for what no caller does: no head
is put back that was not read before, or that was read before the last `AppendData`. -/
def call (use : RingUse) : Call → Option RingUse
  | .appendData data => do
      guard (Adds use.ring data)
      let (ring, iAdded) ← use.ring.appendData data
      return { use with
        ring, put := if iAdded = -1 then use.put else use.put ++ data, mark := none }
  | .getHead => some { use with mark := some (use.ring.iHead, use.taken) }
  | .getData iSize => do
      let (ring, data) ← use.ring.getData iSize.toNat
      return { use with ring, taken := use.taken + data.length }
  | .removeData iSize =>
      let (ring, iSize) := use.ring.removeData iSize.toNat
      some { use with ring, taken := use.taken + iSize }
  | .setHead => use.mark.map fun (head, taken) => { use with ring := use.ring.setHead head, taken }

abbrev Proceeds (use : RingUse) (c : Call) (after : RingUse) : Prop := use.call c = some after

/-- A ring of the size asked for, when `AllocIOBuf` grants it. -/
def start (iBufSize : Int) : RingUse := { ring := (SFIOBuffer.empty.allocIOBuf iBufSize).1 }

end RingUse

end Cgsf.Engine
