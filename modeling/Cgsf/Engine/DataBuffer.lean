import Cgsf.Library.Cyclic

namespace Cgsf.Engine
open Library

/-- A linear buffer: `data` are the `uSize` bytes in use of the `uMaxSize` allocated ones. -/
structure DataBuffer where
  uMaxSize : Nat
  data : List UInt8 := []
  deriving DecidableEq, Repr

namespace DataBuffer

def getDataSize (b : DataBuffer) : Nat := b.data.length

def getRemainingSize (b : DataBuffer) : Nat := b.uMaxSize - b.data.length

def append (b : DataBuffer) (bs : List UInt8) : DataBuffer × Bool :=
  if b.getRemainingSize < bs.length then (b, false) else ({ b with data := b.data ++ bs }, true)

def pop (b : DataBuffer) (uSize : Nat) : DataBuffer := { b with data := b.data.drop uSize }

end DataBuffer

end Cgsf.Engine
