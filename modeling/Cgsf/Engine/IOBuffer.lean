import Cgsf.Library.Cyclic

namespace Cgsf.Engine
open Library

def maxIOSize : Nat := 16384
def maxPacketSize : Nat := 8192

/-- The receive ring. Every member function answers `none` where the C++ code would copy outside
`pBuffer` or never leave its loop. -/
structure SFIOBuffer where
  iHead : Nat
  iTail : Nat
  iBufSize : Nat
  pBuffer : List UInt8
  iUsedBufferSize : Nat
  deriving DecidableEq, Repr

namespace SFIOBuffer

def empty : SFIOBuffer := ⟨0, 0, 0, [], 0⟩

def getEmptyBufferSize (b : SFIOBuffer) : Nat := b.iBufSize - b.iUsedBufferSize

def initIOBuf (b : SFIOBuffer) : SFIOBuffer :=
  { b with iTail := 0, iHead := 0, iUsedBufferSize := 0, pBuffer := List.replicate b.iBufSize 0 }

def allocIOBuf (b : SFIOBuffer) (iBufSize : Int) : SFIOBuffer × Bool :=
  let iBufSize := if iBufSize ≤ 0 then (maxIOSize : Int) else iBufSize
  if iBufSize > maxIOSize then (b, false)
  else (initIOBuf { b with iBufSize := iBufSize.toNat }, true)

def calcUsedBufferSize (b : SFIOBuffer) : SFIOBuffer :=
  { b with iUsedBufferSize :=
      if b.iHead > b.iTail then b.iBufSize - b.iHead + b.iTail else b.iTail - b.iHead }

def setHead (b : SFIOBuffer) (head : Nat) : SFIOBuffer :=
  calcUsedBufferSize { b with iHead := head }

/-- The `while (iSize > 0)` loop of `AppendData`. A turn that copies no byte changes nothing, so
fuel for one turn a byte tells whether the loop ends. -/
def appendLoop : Nat → SFIOBuffer → List UInt8 → Nat → Option (SFIOBuffer × Nat)
  | _, b, [], iAdded => some (b, iAdded)
  | 0, _, _ :: _, _ => none
  | fuel + 1, b, byte :: rest, iAdded =>
      let data := byte :: rest
      let iAddedData :=
        if data.length > b.iBufSize - b.iTail then b.iBufSize - b.iTail else data.length
      if iAddedData = 0 then appendLoop fuel b data iAdded
      else do
        let pBuffer ← write? b.pBuffer b.iTail (data.take iAddedData)
        let iTail := b.iTail + iAddedData
        let iTail := if iTail ≥ b.iBufSize then iTail - b.iBufSize else iTail
        appendLoop fuel { b with pBuffer, iTail } (data.drop iAddedData) (iAdded + iAddedData)

def appendData (b : SFIOBuffer) (data : List UInt8) : Option (SFIOBuffer × Int) :=
  if b.iUsedBufferSize + data.length ≥ b.iBufSize then some (b, -1)
  else do
    let (b, iAdded) ← appendLoop data.length b data 0
    return (b.calcUsedBufferSize, iAdded)

def advance (b : SFIOBuffer) (iSize : Nat) : SFIOBuffer :=
  let iHead := b.iHead + iSize
  calcUsedBufferSize { b with iHead := if iHead ≥ b.iBufSize then iHead - b.iBufSize else iHead }

def getData (b : SFIOBuffer) (iSize : Nat) : Option (SFIOBuffer × List UInt8) :=
  let iSize := if b.iUsedBufferSize < iSize then b.iUsedBufferSize else iSize
  if iSize = 0 then some (b, [])
  else if b.iHead + iSize > b.iBufSize then do
    let iDiff := b.iBufSize - b.iHead
    let front ← read? b.pBuffer b.iHead iDiff
    let back ← read? b.pBuffer 0 (iSize - iDiff)
    return (b.advance iSize, front ++ back)
  else do
    let data ← read? b.pBuffer b.iHead iSize
    return (b.advance iSize, data)

def removeData (b : SFIOBuffer) (iSize : Nat) : SFIOBuffer × Nat :=
  let iSize := if b.iUsedBufferSize < iSize then b.iUsedBufferSize else iSize
  if iSize = 0 then (b, 0) else (b.advance iSize, iSize)

end SFIOBuffer

end Cgsf.Engine
