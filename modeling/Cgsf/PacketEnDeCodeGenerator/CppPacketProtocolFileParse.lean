import Cgsf.Library.Block
import Cgsf.PacketEnDeCodeGenerator.StructInfo
import Mathlib.Logic.Relation

/-!
# Reading the protocol file

`ParseFile` reads the constants and the structs of a protocol file line by line, and then counts how
large the buffer of each struct has to be.
-/

namespace Cgsf.PacketEnDeCodeGenerator.CppPacketProtocolFileParse
open Library

abbrev Text := List Char

/-- `Z.ExtensionMethods`; a text that cannot be converted throws. -/
structure ExtensionMethods where
  split : Text → Text → List Text
  replaceByEmpty : Text → Text → Text
  isNumeric : Text → Bool
  toInt16 : Text → Option Int
  toInt32 : Text → Option Int

/-- `StructInfo` as it is read: nothing keeps its members apart yet. -/
structure ParsedStruct where
  isPassEnDecodeGenerate : Bool
  name : String
  defineDataBufferSize : Int
  memberList : List MemberDataInfo
  deriving DecidableEq

inductive ErrorCode where
  | errorFileExists
  | structParseStructTokenCountLess
  | packetHeaderSizeDoNotFind
  deriving DecidableEq

/-- How `ParseFile` comes to nothing: it returns an error, it throws, or `depth` nested calls were
not enough. -/
inductive Failure where
  | errorCode (e : ErrorCode)
  | exception
  | depth
  deriving DecidableEq

abbrev Result := Except Failure

/-! ## Strings -/

def isWhiteSpace (c : Char) : Bool :=
  c.toNat ∈ [0x20, 0x85, 0xA0, 0x1680, 0x2028, 0x2029, 0x202F, 0x205F, 0x3000] ||
    (0x09 ≤ c.toNat && c.toNat ≤ 0x0D) || (0x2000 ≤ c.toNat && c.toNat ≤ 0x200A)

def trim (text : Text) : Text :=
  ((text.dropWhile isWhiteSpace).reverse.dropWhile isWhiteSpace).reverse

/-- The place of the first occurrence, or -1. -/
def indexOf (pattern text : Text) : Int :=
  match text.tails.findIdx? fun rest => pattern.isPrefixOf rest with
  | some i => i
  | none => -1

def substring (text : Text) (start length : Int) : Result Text :=
  if 0 ≤ start ∧ 0 ≤ length ∧ start + length ≤ text.length then
    .ok ((text.drop start.toNat).take length.toNat)
  else .error .exception

/-- An element of an array of tokens. -/
def token (tokens : List Text) (i : Nat) : Result Text :=
  match tokens[i]? with
  | some t => .ok t
  | none => .error .exception

/-- `Split(new Char[] { ' ', '\t' }, StringSplitOptions.RemoveEmptyEntries)` -/
def tokensOf (line : Text) : List Text :=
  (line.splitOnP fun c => c = ' ' ∨ c = '\t').filter fun t => t ≠ []

/-! ## Sorting the lines -/

abbrev Constants := List (Text × Text)

/-- The constants, the other lines, and where in them a struct begins. -/
structure Sorted where
  constants : Constants
  data : List Text
  starts : List Nat
  deriving DecidableEq

section Parser

variable (methods : ExtensionMethods)

/-- `상수_정보만_분류`; a name that is there already throws. -/
def addConstant (constants : Constants) (text : Text) : Result Constants := do
  let tokens := methods.split text [' ']
  let value ← token tokens 4
  let name ← token tokens 2
  if (constants.lookup name).isSome then .error .exception
  else .ok (constants ++ [(name, methods.replaceByEmpty value [';'])])

/-- One turn of `코드_대분류하기`. The list of the header files is read by nothing. -/
def sortLine (sorted : Sorted) (readLine : Text) : Result Sorted :=
  if readLine = [] then .ok sorted
  else
    let line := trim readLine
    if indexOf "\x7b".toList line = 0 ∨ indexOf "\x7d;".toList line = 0 ∨ indexOf "//".toList line = 0 then
      .ok sorted
    else if indexOf "const ".toList line = 0 then
      (addConstant methods sorted.constants line).map fun constants => { sorted with constants }
    else if indexOf "#include".toList line = 0 then .ok sorted
    else .ok { sorted with
      data := sorted.data ++ [line]
      starts := if indexOf "struct ".toList line = 0 then sorted.starts ++ [sorted.data.length]
        else sorted.starts }

/-- `코드_대분류하기` -/
def sortLines (lines : List Text) : Result Sorted :=
  lines.foldlM (sortLine methods) { constants := [], data := [], starts := [] }

/-- The first and the last line of each struct; a struct ends where the next one begins. -/
def Sorted.ranges (sorted : Sorted) : List (Nat × Nat) :=
  sorted.starts.zip ((sorted.starts.drop 1).map (· - 1) ++ [sorted.data.length - 1])

/-- The lines of the structs, in the order in which they are read. -/
def Sorted.structLines (sorted : Sorted) : List Text :=
  sorted.ranges.flatMap fun (first, last) => (sorted.data.drop first).take (last + 1 - first)

/-! ## The structs -/

/-- `이름_배열크기_분리하기`: the name, the length, and the text of the length. -/
def splitNameAndLength (constants : Constants) (code : Text) : Result (Text × Int × Text) :=
  let comment := indexOf "//".toList code
  let start := indexOf "[".toList code
  let stop := indexOf "]".toList code
  let semicolon := indexOf ";".toList code
  if 0 < start ∧ 0 < stop then do
    let (length, defineName) ← (if 0 ≤ comment ∧ comment ≤ start then .ok (1, [])
      else do
        let defineName := trim (← substring code (start + 1) (stop - start - 1))
        if methods.isNumeric defineName then .ok (1, defineName)
        else match (constants.lookup defineName).bind methods.toInt32 with
          | some length => .ok (length, defineName)
          | none => .error .exception : Result (Int × Text))
    let name ← substring code 0 start
    .ok (trim name, length, defineName)
  else do
    let name ← substring code 0 semicolon
    .ok (trim name, 1, [])

/-- A number as C++ reads it: a leading zero makes it octal. -/
def literalValue (digits : Text) : Nat :=
  let base := if digits.head? = some '0' then 8 else 10
  digits.foldl (fun n c => n * base + (c.toNat - '0'.toNat)) 0

def arrayDefine (defineName : Text) : Option ArrayDefine :=
  if defineName = [] then none
  else if methods.isNumeric defineName then some (.number (literalValue defineName))
  else some (.constant (String.ofList defineName))

/-- `변수_타입_이름_분리하기` -/
def splitMember (constants : Constants) (tokens : List Text) : Result MemberDataInfo := do
  let first ← token tokens 0
  let second ← token tokens 1
  let (type, code) ← (if first = "unsigned".toList then do
      let third ← token tokens 2
      .ok (first ++ ' ' :: second, third)
    else .ok (first, second) : Result (Text × Text))
  let (name, arrayValue, defineName) ← splitNameAndLength methods constants code
  .ok {
    type := String.ofList type
    name := String.ofList name
    arrayDefineName := arrayDefine methods defineName
    arrayValue }

/-- One line in `구조체_정보_만들기`. -/
def structLine (constants : Constants) (packetDataNamePrefix : Text) (structs : List ParsedStruct)
    (line : Text) : Result (List ParsedStruct) :=
  if line = [] then .ok structs
  else
    match tokensOf line with
    | first :: second :: rest =>
        if first = "struct".toList then
          let name := String.ofList second
          if structs.any fun info => info.name = name then .error .exception
          else .ok (structs ++ [{
            isPassEnDecodeGenerate := indexOf packetDataNamePrefix second ≠ 0
            name
            defineDataBufferSize := 0
            memberList := [] }])
        else do
          let member ← splitMember methods constants (first :: second :: rest)
          match structs.getLast? with
          | none => .error .exception
          | some info =>
              .ok (structs.dropLast ++ [{ info with memberList := info.memberList ++ [member] }])
    | _ => .error (.errorCode .structParseStructTokenCountLess)

/-- What a protocol file says: its constants, its structs in their order, and
`PACKET_HEADER_SIZE`. -/
structure Declarations where
  constants : Constants
  structLines : List Text
  structs : List ParsedStruct
  packetHeaderSize : Int

/-- `ParseFile` up to the sizes; no lines are a file that does not exist. -/
def declarations (packetDataNamePrefix : Text) (file : Option (List Text)) : Result Declarations :=
  match file with
  | none => .error (.errorCode .errorFileExists)
  | some lines => do
      let sorted ← sortLines methods lines
      let structs ←
        sorted.structLines.foldlM (structLine methods sorted.constants packetDataNamePrefix) []
      match sorted.constants.lookup "PACKET_HEADER_SIZE".toList with
      | none => .error (.errorCode .packetHeaderSizeDoNotFind)
      | some text =>
          match methods.toInt16 text with
          | none => .error .exception
          | some packetHeaderSize =>
              .ok {
                constants := sorted.constants
                structLines := sorted.structLines
                structs
                packetHeaderSize }

end Parser

/-! ## The sizes -/

def find (structs : List ParsedStruct) (type : String) : Option ParsedStruct :=
  structs.find? fun info => info.name = type

/-- What a cast to `short` keeps. -/
def toShort (n : Int) : Int := n.bmod 65536

/-- The loop of `구조체_데이터크기_구하기` over the members; `cast` is the cast to `short`. A member of
a built-in type without elements answers the default for the whole struct. -/
def membersDataSize (cast : Int → Int) (nested : ParsedStruct → Result Int)
    (structs : List ParsedStruct) (totalSize : Int) : List MemberDataInfo → Result Int
  | [] => .ok totalSize
  | memberInfo :: memberList =>
      if isCppBasicType memberInfo.type then
        if 0 < memberInfo.arrayValue then
          -- The product is an `int`; wrapped around or not, it keeps the same low 16 bits.
          membersDataSize cast nested structs (cast (totalSize + cast (4 * memberInfo.arrayValue)))
            memberList
        else .ok 8
      else
        match find structs memberInfo.type with
        | none => .error .exception
        | some info => do
            let size ← nested info
            membersDataSize cast nested structs (cast (totalSize + size)) memberList

/-- `구조체_데이터크기_구하기`, at most `depth` calls deep. -/
def structDataSize (cast : Int → Int) (structs : List ParsedStruct) : Nat → ParsedStruct → Result Int
  | 0, _ => .error .depth
  | depth + 1, structInfo =>
      membersDataSize cast (structDataSize cast structs depth) structs 0 structInfo.memberList

/-- The first loop of `ParseFile` over the structs. -/
def addDataSize (d : Declarations) (depth : Nat) (info : ParsedStruct) : Result ParsedStruct := do
  let size ← structDataSize toShort d.structs depth info
  .ok { info with
    defineDataBufferSize := info.defineDataBufferSize + size + d.packetHeaderSize }

/-- The second one: what is too large is cut down. -/
def cutDown (maxBufferSize : Int) (info : ParsedStruct) : ParsedStruct :=
  if maxBufferSize < info.defineDataBufferSize then
    { info with defineDataBufferSize := maxBufferSize }
  else info

def parseFile (methods : ExtensionMethods) (maxBufferSize : Int) (packetDataNamePrefix : Text)
    (depth : Nat) (file : Option (List Text)) : Result (List ParsedStruct) := do
  let d ← declarations methods packetDataNamePrefix file
  let sized ← d.structs.mapM (addDataSize d depth)
  .ok (sized.map (cutDown maxBufferSize))

/-! ## What `Encode` writes

The code that is emitted for a struct, as far as it writes: a line for each member of a built-in type,
and the loop over an array of structs with the length that is recorded for it. An array needs the
member before it, which counts it.
-/

section Encode

variable (structs : List ParsedStruct)

/-- `엔코드_멤버데이터_구조체`, one member. -/
def encodeMember (nested : ParsedStruct → Option (Block MemberDataInfo Nat))
    (prevMemberInfo : Option MemberDataInfo) (memberInfo : MemberDataInfo) :
    Option (Block MemberDataInfo Nat) :=
  if isCppNumberType memberInfo.type then
    if 1 < memberInfo.arrayValue then prevMemberInfo.map fun _ => .line memberInfo
    else some (.line memberInfo)
  else if isCppUnicodeCharacterType memberInfo.type then some (.line memberInfo)
  else
    (find structs memberInfo.type).bind fun info =>
      if memberInfo.arrayValue ≤ 1 then nested info
      else prevMemberInfo.bind fun _ => (nested info).map (.loop memberInfo.arrayValue.toNat)

def encodeMembers (nested : ParsedStruct → Option (Block MemberDataInfo Nat)) :
    Option MemberDataInfo → List MemberDataInfo → Option (Block MemberDataInfo Nat)
  | _, [] => some .skip
  | prevMemberInfo, memberInfo :: memberList =>
      (encodeMember structs nested prevMemberInfo memberInfo).bind fun code =>
      (encodeMembers nested (some memberInfo) memberList).map (.seq code)

/-- `엔코드_멤버데이터_구조체`, at most `depth` calls deep. -/
def encodeStruct : Nat → ParsedStruct → Option (Block MemberDataInfo Nat)
  | 0, _ => none
  | depth + 1, structInfo => encodeMembers structs (encodeStruct depth) none structInfo.memberList

end Encode

/-- What the lines of one member can write: of an array any elements up to its length, of a text a
length and as many bytes as its characters have, with a zero behind them that is written over by what
follows. A text that finds no room or has no bytes moves the cursor by one. -/
def LineWrites (bytesPerChar : Nat) (memberInfo : MemberDataInfo) (e : Extent) : Prop :=
  if isCppNumberType memberInfo.type then
    if 1 < memberInfo.arrayValue then
      ∃ copied counted : Nat, copied ≤ memberInfo.arrayValue ∧ counted ≤ memberInfo.arrayValue ∧
        e.moved = cppSizeof memberInfo.type * counted ∧
        e.reach = cppSizeof memberInfo.type * max copied counted
    else e.moved = cppSizeof memberInfo.type ∧ e.reach = cppSizeof memberInfo.type
  else
    ∃ length ≤ bytesPerChar * (memberInfo.arrayValue.toNat - 1),
      (e.moved = length + 2 ∨ e.moved = 1) ∧ e.reach = length + 3

/-- All that the lines of one member can write. -/
def lineExtent (bytesPerChar : Nat) (memberInfo : MemberDataInfo) : Extent :=
  if isCppNumberType memberInfo.type then
    let size := cppSizeof memberInfo.type *
      if 1 < memberInfo.arrayValue then memberInfo.arrayValue.toNat else 1
    ⟨size, size, le_rfl⟩
  else
    let length := bytesPerChar * (memberInfo.arrayValue.toNat - 1)
    ⟨length + 2, length + 3, Nat.le_succ _⟩

/-- The bytes that `Encode` needs when its members need `e`: the three shorts of the header lie in
front. -/
def bytes (packetHeaderSize : Int) (e : Extent) : Int := max 6 (packetHeaderSize + e.reach)

/-! ## What a declaration says -/

/-- The tokens of `type name[length]`. -/
def DeclaresArray (line length : Text) : Prop :=
  ∃ type name rest more,
    tokensOf line = type ++ (name ++ '[' :: length ++ ']' :: rest) :: more ∧
    (type.length = 1 ∧ type.head? ≠ some "unsigned".toList ∨
      type.length = 2 ∧ type.head? = some "unsigned".toList) ∧
    name ≠ [] ∧ (∀ c ∈ name, c ≠ '[' ∧ c ≠ ']' ∧ c ≠ '/') ∧
    length ≠ [] ∧ ∀ c ∈ length, c ≠ ']' ∧ isWhiteSpace c = false

def IsLiteral (length : Text) : Prop := ∀ c ∈ length, c.isDigit

/-- The length that a declaration gives, as a number or by the name of a constant. -/
def DeclaredLength (methods : ExtensionMethods) (constants : Constants) (length : Text) (n : Int) :
    Prop :=
  IsLiteral length ∧ n = literalValue length ∨
    ¬IsLiteral length ∧ (constants.lookup length).bind methods.toInt32 = some n

/-- The lines that declare a member. -/
def memberLines (lines : List Text) : List Text :=
  lines.filter fun line => line ≠ [] ∧ (tokensOf line).head? ≠ some "struct".toList

/-- The members that are counted: a built-in type without elements ends the count. -/
def counted (info : ParsedStruct) : List MemberDataInfo :=
  info.memberList.takeWhile fun m => !(isCppBasicType m.type) || 0 < m.arrayValue

/-- One struct has members of the other. -/
def Contains (structs : List ParsedStruct) (info inner : ParsedStruct) : Prop :=
  ∃ m ∈ counted info, isCppBasicType m.type = false ∧ find structs m.type = some inner

/-- Every struct that is used is there. -/
def Known (structs : List ParsedStruct) : Prop :=
  ∀ info ∈ structs, ∀ m ∈ counted info, isCppBasicType m.type = false →
    (find structs m.type).isSome

section Claim

variable (methods : ExtensionMethods) (bytesPerChar : Nat) (maxBufferSize : Int)
  (packetDataNamePrefix : Text) (file : Option (List Text))

/-- What the sizes of a protocol file have to be. -/
structure Sized : Prop where
  ends : ∀ d, declarations methods packetDataNamePrefix file = .ok d → Known d.structs →
    ∃ depth, parseFile methods maxBufferSize packetDataNamePrefix depth file ≠ .error .depth
  lengths : ∀ d, declarations methods packetDataNamePrefix file = .ok d → ∀ depth structs,
    parseFile methods maxBufferSize packetDataNamePrefix depth file = .ok structs →
      List.Forall₂ (fun line m => ∀ length, DeclaresArray line length →
          ∀ n, DeclaredLength methods d.constants length n → m.arrayValue = n)
        (memberLines d.structLines) (structs.flatMap ParsedStruct.memberList)
  exact : ∀ d, declarations methods packetDataNamePrefix file = .ok d → ∀ depth structs,
    parseFile methods maxBufferSize packetDataNamePrefix depth file = .ok structs →
      ∀ info ∈ d.structs, structDataSize toShort d.structs depth info =
        structDataSize id d.structs depth info
  room : ∀ d, declarations methods packetDataNamePrefix file = .ok d → ∀ depth structs,
    parseFile methods maxBufferSize packetDataNamePrefix depth file = .ok structs →
      ∀ info ∈ structs, ¬info.isPassEnDecodeGenerate →
        ∀ depth' code, encodeStruct structs depth' info = some code →
          ∀ e, code.Writes (LineWrites bytesPerChar) e →
            bytes d.packetHeaderSize e ≤ info.defineDataBufferSize ∨
              info.defineDataBufferSize = maxBufferSize

/-- When they are. -/
structure Fits (d : Declarations) : Prop where
  acyclic : ∀ info ∈ d.structs, ¬Relation.TransGen (Contains d.structs) info info
  literals : ∀ line ∈ memberLines d.structLines, ∀ length, DeclaresArray line length →
    IsLiteral length → literalValue length = 1
  small : ∀ info ∈ d.structs, ∀ depth size, structDataSize id d.structs depth info = .ok size →
    size < 32768
  room : ∀ info ∈ d.structs, ¬info.isPassEnDecodeGenerate → ∀ depth size,
    structDataSize id d.structs depth info = .ok size →
      ∀ depth' code, encodeStruct d.structs depth' info = some code →
        bytes d.packetHeaderSize (code.extent (lineExtent bytesPerChar)) ≤
            size + d.packetHeaderSize ∨ maxBufferSize ≤ size + d.packetHeaderSize

end Claim

end Cgsf.PacketEnDeCodeGenerator.CppPacketProtocolFileParse
