import Cgsf.Library.Cyclic
import Cgsf.Library.Words
import Cgsf.PacketEnDeCodeGenerator.GenerateCppEnDecoder

/-!
# What the emitted code does

First the names: what a line visits when a C++ compiler accepts it. Then the runs of `Encode` and
`Decode`, with the functions of `CppEnDecoderTemplete.txt`.
-/

namespace Cgsf.PacketEnDeCodeGenerator
open Library

/-! ## Names -/

/-- The two functions of an `EnDecode` struct. -/
inductive Codec where
  | encode
  | decode
  deriving DecidableEq

namespace Codec

def useSize : Codec → String
  | encode => "UseSize"
  | decode => "ReadSize"

def cursor : Codec → String
  | encode => "WritePos"
  | decode => "ReadPos"

/-- Parameters and local variables that are integers. -/
def integers : Codec → List String
  | encode => ["UseSize", "WritePos", "RegionID", "PacketID", "OutPutBufferSize"]
  | decode => ["ReadSize", "ReadPos"]

/-- All the other names that hide a constant of the protocol file. -/
def others : Codec → List String
  | encode => ["PacketData", "pBuffer", "OutPutBuffer", "m_Buffer", "m_TempBuffer", "Encode_Init",
      "Encode", "Decode", "Encoder", "DeCoder"]
  | decode => ["PacketData", "pBuffer", "m_Buffer", "m_TempBuffer", "Encode_Init", "Encode",
      "Decode", "Encoder", "DeCoder"]

end Codec

/-- The integer that a name stands for. -/
inductive Ref where
  | define (d : ArrayDefine)
  | maxBufferSize
  | ofFunction (codec : Codec) (name : String)
  | index
  deriving DecidableEq

/-- Inner scopes first: the loop, the function, the struct, the protocol file. -/
def ProtocolFile.integer (file : ProtocolFile) (codec : Codec) (inLoop : Bool) (name : String) :
    Option Ref :=
  if inLoop ∧ name = "i" then some .index
  else if name ∈ codec.integers then some (.ofFunction codec name)
  else if name ∈ codec.others then none
  else if name = "MaxBufferSize" then some .maxBufferSize
  else (file.constants.lookup name).map fun _ => .define (.constant name)

def ProtocolFile.define (file : ProtocolFile) (codec : Codec) (inLoop : Bool) :
    Option ArrayDefine → Option Ref
  | none => none
  | some (.number n) => some (.define (.number n))
  | some (.constant name) => file.integer codec inLoop name

inductive CppType where
  | number (type : String)
  | wchar
  | struct (info : StructInfo)
  | array (element : CppType) (size : ArrayDefine)

def ProtocolFile.elementType (file : ProtocolFile) (type : String) : Option CppType :=
  if isCppNumberType type then some (.number type)
  else if isCppUnicodeCharacterType type then some .wchar
  else (file.find type).map .struct

def ProtocolFile.memberType (file : ProtocolFile) (m : MemberDataInfo) : Option CppType :=
  (file.elementType m.type).map fun element =>
    match m.arrayDefineName with
    | none => element
    | some size => .array element size

inductive Step (ι : Type) where
  | field (name : String)
  | element (index : ι)
  deriving DecidableEq

/-- Where a part of the packet lies; an index of a place is the loop's `i`, below the given size. -/
abbrev Place := List (Step ArrayDefine)

def ProtocolFile.resolve (file : ProtocolFile) (structInfo : StructInfo) :
    Expr → Option (Place × CppType)
  | .packetData => some ([], .struct structInfo)
  | .member base name =>
      match file.resolve structInfo base with
      | some (place, .struct info) =>
          (info.memberList.find? fun m => m.name = name).bind fun m =>
            (file.memberType m).map fun type => (place ++ [.field name], type)
      | _ => none
  | .element base =>
      match file.resolve structInfo base with
      | some (place, .array element size) => some (place ++ [.element size], element)
      | _ => none

/-! ## What a line visits -/

inductive Count where
  | ref (r : Ref)
  | member (place : Place) (type : String)
  deriving DecidableEq

inductive Visit where
  | number (place : Place) (type : String)
  | numbers (place : Place) (type : String) (copied counted : Count)
  | text (place : Place) (size : ArrayDefine)
  deriving DecidableEq

section Visits

variable (file : ProtocolFile) (structInfo : StructInfo) (codec : Codec) (inLoop : Bool)

def countOf : CountExpr → Option Count
  | .member e =>
      match file.resolve structInfo e with
      | some (place, .number type) => some (.member place type)
      | _ => none
  | .text define => (file.define codec inLoop define).map .ref

/-- The line names the function's own cursor and step. -/
def Own (useSize pos cursor : String) : Prop :=
  useSize = codec.useSize ∧ pos = codec.cursor ∧ cursor = codec.cursor

instance (useSize pos cursor : String) : Decidable (Own codec useSize pos cursor) :=
  inferInstanceAs (Decidable (_ ∧ _ ∧ _))

/-- What a line visits, if it compiles and moves the cursor of its function. A number is passed by
its value or by its address, a text as the address of its array. -/
def visit : Line → Option Visit
  | .writeNumber useSize type value pos cursor =>
      if Own codec useSize pos cursor then
        match file.resolve structInfo value with
        | some (place, .number _) => some (.number place type)
        | _ => none
      else none
  | .writeArray pos value type copied useSize counted cursor
  | .readArray value pos type copied useSize counted cursor =>
      if Own codec useSize pos cursor then
        match file.resolve structInfo value with
        | some (place, .array _ _) =>
            (countOf file structInfo codec inLoop copied).bind fun copied =>
            (countOf file structInfo codec inLoop counted).map fun counted =>
              .numbers place type copied counted
        | _ => none
      else none
  | .writeWChar useSize text pos bufferSize cursor =>
      if Own codec useSize pos cursor ∧ (file.integer codec inLoop bufferSize).isSome then
        match file.resolve structInfo text with
        | some (place, .array .wchar size) => some (.text place size)
        | _ => none
      else none
  | .readNumber useSize type value pos cursor =>
      if Own codec useSize pos cursor then
        match file.resolve structInfo value with
        | some (place, .array (.number element) _) =>
            if element = type then some (.number place type) else none
        | _ => none
      else none
  | .readWChar useSize text szSize pos temp cursor =>
      if Own codec useSize pos cursor ∧ temp = "m_TempBuffer" then
        match file.resolve structInfo text, file.define codec inLoop szSize with
        | some (place, .array .wchar _), some (.define size) => some (.text place size)
        | _, _ => none
      else none

/-- The members that a function visits; `none` if it does not compile. -/
def visits (code : Code) : Option (Block Visit Ref) :=
  code.replace (visit file structInfo codec) (file.integer codec true) false

end Visits

/-! ## Runs -/

abbrev Address := List (Step Nat)

/-- The bytes of the numbers and the wide characters of the texts. -/
structure Packet where
  numbers : Address → Nat → UInt8
  texts : Address → List UInt16

/-- `%S`: the bytes of a text, if each of its characters has some, and the text of bytes. -/
structure CodePage where
  narrow : List UInt16 → Option (List UInt8)
  widen : List UInt8 → List UInt16

/-- A string up to its terminator. -/
def cString {α : Type} [DecidableEq α] [OfNat α 0] (cs : List α) : List α :=
  cs.takeWhile fun c => c ≠ 0

def shortBytes (n : Int) : List UInt8 :=
  leBytes 2 (n % 65536).toNat

def shortValue (bs : List UInt8) : Int :=
  if leValue bs < 32768 then leValue bs else leValue bs - 65536

section Runs

variable (file : ProtocolFile)

def ProtocolFile.size : ArrayDefine → Option Int
  | .number n => some n
  | .constant name => file.constants.lookup name

/-- `i` is declared before the bound of its loop is read, so that it is then its own bound. A bound
that is a variable of the function is not followed: the two functions share none. -/
def turns (maxBufferSize : Int) : Ref → Option Nat
  | .define d => (file.size d).map Int.toNat
  | .maxBufferSize => some maxBufferSize.toNat
  | .ofFunction _ _ => none
  | .index => some 0

/-- An element behind the end of its array has no address. -/
def address (i : Nat) : Place → Option Address
  | [] => some []
  | .field name :: place => (address i place).map (.field name :: ·)
  | .element size :: place =>
      match file.size size with
      | some n => if (i : Int) < n then (address i place).map (.element i :: ·) else none
      | none => none

/-- A number as an integer; a `float` or a `double` counts nothing. -/
def numberValue (type : String) (bs : List UInt8) : Option Int :=
  if type = "float" ∨ type = "double" then none
  else if type ∈ ["unsigned char", "unsigned short", "UINT16", "unsigned int", "UINT32",
      "unsigned __int64", "UINT64"] ∨ 2 * leValue bs < 256 ^ bs.length then some (leValue bs)
  else some (leValue bs - 256 ^ bs.length)

def numberBytes (packet : Packet) (a : Address) (size : Nat) : List UInt8 :=
  (List.range size).map (packet.numbers a)

def count (packet : Packet) (i : Nat) : Count → Option Int
  | .ref (.define d) => file.size d
  | .ref _ => none
  | .member place type =>
      (address file i place).bind fun a => numberValue type (numberBytes packet a (cppSizeof type))

/-- The buffer, the cursor, and how far each visit has moved it. -/
structure Cursor where
  buffer : List UInt8
  pos : Nat
  steps : List Nat

def Cursor.advance (c : Cursor) (step : Nat) : Cursor :=
  { c with pos := c.pos + step, steps := c.steps ++ [step] }

/-- The text of an array of `size` characters; reading on behind the array has no result. -/
def arrayText (content : List UInt16) (size : Int) : Option (List UInt16) :=
  if 0 ∈ content.take size.toNat then some (cString content) else none

/-- `_snprintf_s` answers -1 for a text without bytes or without room, and then one byte is counted
for it. -/
def writeWChar (codePage : CodePage) (text : List UInt16) (c : Cursor) : Option Cursor :=
  if c.pos + 2 < c.buffer.length then
    match codePage.narrow text with
    | none =>
        (write? c.buffer c.pos (shortBytes (-1))).map fun buffer => { c with buffer }.advance 1
    | some bs =>
        let room := c.buffer.length - (c.pos + 2) - 1
        (write? c.buffer (c.pos + 2) (bs.take room ++ [0])).bind fun buffer =>
          let len : Int := if bs.length ≤ room then bs.length else -1
          (write? buffer c.pos (shortBytes len)).map fun buffer =>
            { c with buffer }.advance (len + 2).toNat
  else none

/-- `szSize - 1` characters at most are written, and a terminator. -/
def shortened (text : List UInt16) (szSize : Int) : List UInt16 :=
  cString text |>.take (szSize.toNat - 1)

def readWChar (codePage : CodePage) (szSize : Int) (tempSize : Int) (c : Cursor) :
    Option (List UInt16 × Cursor) :=
  (read? c.buffer c.pos 2).bind fun length =>
    let byteLength := shortValue length
    if 0 ≤ byteLength ∧ byteLength < tempSize ∧ 0 < szSize then
      (read? c.buffer (c.pos + 2) byteLength.toNat).map fun temp =>
        (shortened (codePage.widen (cString temp)) szSize ++ [0], c.advance (byteLength + 2).toNat)
    else none

/-- A line of `Encode`. -/
def writeVisit (codePage : CodePage) (packet : Packet) (c : Cursor) : Nat × Visit → Option Cursor
  | (i, .number place type) =>
      (address file i place).bind fun a =>
        (write? c.buffer c.pos (numberBytes packet a (cppSizeof type))).map fun buffer =>
          { c with buffer }.advance (cppSizeof type)
  | (i, .numbers place type copied counted) =>
      (address file i place).bind fun a =>
      (count file packet i copied).bind fun copied =>
      (count file packet i counted).bind fun counted =>
        if 0 ≤ copied ∧ 0 ≤ counted then
          (write? c.buffer c.pos (numberBytes packet a (cppSizeof type * copied.toNat))).map
            fun buffer => { c with buffer }.advance (cppSizeof type * counted.toNat)
        else none
  | (i, .text place size) =>
      (address file i place).bind fun a =>
      (file.size size).bind fun n =>
      (arrayText (packet.texts a) n).bind fun text => writeWChar codePage text c

def Packet.setNumbers (packet : Packet) (a : Address) (bs : List UInt8) : Packet :=
  { packet with numbers := fun a' k => if a' = a ∧ k < bs.length then bs.getD k 0 else packet.numbers a' k }

def Packet.setText (packet : Packet) (a : Address) (text : List UInt16) : Packet :=
  { packet with texts := fun a' => if a' = a then text else packet.texts a' }

/-- A line of `Decode`. -/
def readVisit (codePage : CodePage) (tempSize : Int) (s : Packet × Cursor) :
    Nat × Visit → Option (Packet × Cursor)
  | (i, .number place type) =>
      (address file i place).bind fun a =>
        (read? s.2.buffer s.2.pos (cppSizeof type)).map fun bs =>
          (s.1.setNumbers a bs, s.2.advance (cppSizeof type))
  | (i, .numbers place type copied counted) =>
      (address file i place).bind fun a =>
      (count file s.1 i copied).bind fun copied =>
      (count file s.1 i counted).bind fun counted =>
        if 0 ≤ copied ∧ 0 ≤ counted then
          (read? s.2.buffer s.2.pos (cppSizeof type * copied.toNat)).map fun bs =>
            (s.1.setNumbers a bs, s.2.advance (cppSizeof type * counted.toNat))
        else none
  | (i, .text place size) =>
      (address file i place).bind fun a =>
      (file.size size).bind fun n =>
      (readWChar codePage n tempSize s.2).map fun (text, c) => (s.1.setText a text, c)

/-- `MaxBufferSize` is a `short`. -/
def encodeInit (defineDataBufferSize : Int) (outPutBufferSize : Option Int) : Int :=
  (outPutBufferSize.getD defineDataBufferSize).bmod 65536

def writeHeader (regionID packetID bodySize : Int) (buffer : List UInt8) : Option (List UInt8) :=
  (write? buffer 0 (shortBytes regionID)).bind fun buffer =>
  (write? buffer 2 (shortBytes packetID)).bind fun buffer =>
  write? buffer 4 (shortBytes bodySize)

/-- `Encode`: the buffer is cleared, the members are written behind the header, then the header. -/
def runEncode (codePage : CodePage) (packet : Packet) (regionID packetID maxBufferSize : Int)
    (items : List (Nat × Visit)) : Option Cursor :=
  if 0 ≤ maxBufferSize then
    (items.foldlM (writeVisit file codePage packet)
      { buffer := List.replicate maxBufferSize.toNat 0, pos := file.packetHeaderSize, steps := [] }).bind
      fun c => (writeHeader regionID packetID (c.pos - file.packetHeaderSize) c.buffer).map
        fun buffer => { c with buffer }
  else none

def runDecode (codePage : CodePage) (tempSize : Int) (buffer : List UInt8) (packet : Packet)
    (items : List (Nat × Visit)) : Option (Packet × Cursor) :=
  items.foldlM (readVisit file codePage tempSize)
    (packet, { buffer, pos := file.packetHeaderSize, steps := [] })

end Runs

end Cgsf.PacketEnDeCodeGenerator
