import Cgsf.Library.Block
import Cgsf.PacketEnDeCodeGenerator.StructInfo

/-!
# The C++ code that the generator emits

A line of the model is one group of lines of the emitted code: the call, and the step of the cursor
after it. The names of the variables are the ones that the generator puts into the text.
-/

namespace Cgsf.PacketEnDeCodeGenerator
open Library

/-- A part of the packet: `PacketData`, `base.name` or `base[i]`. -/
inductive Expr where
  | packetData
  | member (base : Expr) (name : String)
  | element (base : Expr)
  deriving DecidableEq

/-- How many elements are copied: a member of the packet, or the text between the brackets. -/
inductive CountExpr where
  | member (e : Expr)
  | text (define : Option ArrayDefine)
  deriving DecidableEq

inductive Line where
  /-- `useSize = Encoder::WriteNumber<type>(value, pBuffer, pos); cursor += useSize;` -/
  | writeNumber (useSize type : String) (value : Expr) (pos cursor : String)
  /-- `memcpy(&pBuffer[pos], value, sizeof(type)*copied); useSize = (sizeof(type) * counted);
  cursor += useSize;` -/
  | writeArray (pos : String) (value : Expr) (type : String) (copied : CountExpr) (useSize : String)
      (counted : CountExpr) (cursor : String)
  /-- `useSize = Encoder::WriteWChar(text, pBuffer, pos, bufferSize); cursor += useSize;` -/
  | writeWChar (useSize : String) (text : Expr) (pos bufferSize cursor : String)
  /-- `useSize = DeCoder::ReadNumber<type>(value, pBuffer, pos); cursor += useSize;` -/
  | readNumber (useSize type : String) (value : Expr) (pos cursor : String)
  /-- `memcpy(value, &pBuffer[pos], sizeof(type) * copied); useSize = (sizeof(type) * counted);
  cursor += useSize;` -/
  | readArray (value : Expr) (pos type : String) (copied : CountExpr) (useSize : String)
      (counted : CountExpr) (cursor : String)
  /-- `useSize = DeCoder::ReadWChar(text, szSize, pBuffer, pos, temp); cursor += useSize;` -/
  | readWChar (useSize : String) (text : Expr) (szSize : Option ArrayDefine) (pos temp cursor : String)
  deriving DecidableEq

/-- A loop is `for(int i = 0; i < count; ++i)`. -/
abbrev Code := Block Line String

/-- What `엔코드_멤버데이터_구조체` and `디코드_멤버데이터_구조체` do with one member; `emit` is for the
members of a built-in type. -/
def memberData (emit : Expr → Option MemberDataInfo → MemberDataInfo → Option Line)
    (nested : Expr → StructInfo → Option Code) (file : ProtocolFile) (packetDataName : Expr)
    (prevMemberInfo : Option MemberDataInfo) (memberInfo : MemberDataInfo) : Option Code :=
  if isCppBasicType memberInfo.type then (emit packetDataName prevMemberInfo memberInfo).map .line
  else
    (file.find memberInfo.type).bind fun structInfo2 =>
      let rePacketDataName := packetDataName.member memberInfo.name
      if memberInfo.arrayValue ≤ 1 then nested rePacketDataName structInfo2
      else prevMemberInfo.bind fun prev =>
        (nested rePacketDataName.element structInfo2).map (.loop prev.name)

def memberDataList (emit : Expr → Option MemberDataInfo → MemberDataInfo → Option Line)
    (nested : Expr → StructInfo → Option Code) (file : ProtocolFile) (packetDataName : Expr) :
    Option MemberDataInfo → List MemberDataInfo → Option Code
  | _, [] => some .skip
  | prevMemberInfo, memberInfo :: memberList =>
      (memberData emit nested file packetDataName prevMemberInfo memberInfo).bind fun code =>
      (memberDataList emit nested file packetDataName (some memberInfo) memberList).map (.seq code)

/-- A struct that contains itself never comes to an end: the depth of the walk is bounded here. -/
def memberDataStruct (emit : Expr → Option MemberDataInfo → MemberDataInfo → Option Line)
    (file : ProtocolFile) : Nat → Expr → StructInfo → Option Code
  | 0, _, _ => none
  | depth + 1, packetDataName, structInfo =>
      memberDataList emit (memberDataStruct emit file depth) file packetDataName none
        structInfo.memberList

/-! ## Encode -/

/-- `엔코드_멤버데이터_정수배열` -/
def encodeNumberArray (packetDataName : Expr) (prev memberInfo : MemberDataInfo) : Line :=
  .writeArray "WritePos" (packetDataName.member memberInfo.name) memberInfo.type
    (.member (Expr.packetData.member prev.name)) "UseSize"
    (.member (packetDataName.member prev.name)) "WritePos"

/-- `엔코드_멤버데이터_정수` -/
def encodeNumber (packetDataName : Expr) (memberInfo : MemberDataInfo) : Line :=
  .writeNumber "UseSize" memberInfo.type (packetDataName.member memberInfo.name) "WritePos" "WritePos"

/-- `엔코드_멤버데이터_문자열` -/
def encodeString (packetDataName : Expr) (memberInfo : MemberDataInfo) : Line :=
  .writeWChar "UseSize" (packetDataName.member memberInfo.name) "WritePos" "MaxBufferSize" "WritePos"

def encodeMemberData (packetDataName : Expr) (prevMemberInfo : Option MemberDataInfo)
    (memberInfo : MemberDataInfo) : Option Line :=
  if isCppNumberType memberInfo.type then
    if memberInfo.arrayValue > 1 then
      prevMemberInfo.map fun prev => encodeNumberArray packetDataName prev memberInfo
    else some (encodeNumber packetDataName memberInfo)
  else some (encodeString packetDataName memberInfo)

def encodeMemberDataStruct : ProtocolFile → Nat → Expr → StructInfo → Option Code :=
  memberDataStruct encodeMemberData

/-! ## Decode -/

/-- `디코드_멤버데이터_정수` -/
def decodeNumber (packetDataName : Expr) (memberInfo : MemberDataInfo) : Line :=
  .readNumber "ReadSize" memberInfo.type (packetDataName.member memberInfo.name) "WritePos" "ReadPos"

/-- The member before an array counts it if it is `xCount` and the array is `xs`. -/
def countsArray (prevMemberName name : String) : Bool :=
  name.toList.getLast? = some 's' &&
    name.toList.dropLast ++ "Count".toList = prevMemberName.toList

/-- `디코드_멤버데이터_정수배열`; the last letter of an empty name is asked for only where there is a
member before it. -/
def decodeNumberArray (packetDataName : Expr) (prevMemberInfo : Option MemberDataInfo)
    (memberInfo : MemberDataInfo) : Option Line :=
  let value := packetDataName.member memberInfo.name
  let byDefine := Line.readArray value "ReadPos" memberInfo.type (.text memberInfo.arrayDefineName)
    "ReadSize" (.text memberInfo.arrayDefineName) "ReadPos"
  match prevMemberInfo with
  | none => some byDefine
  | some prev =>
      if memberInfo.name = "" then none
      else if countsArray prev.name memberInfo.name then
        some (.readArray value "ReadPos" memberInfo.type
          (.member (Expr.packetData.member prev.name)) "ReadSize"
          (.member (packetDataName.member prev.name)) "ReadPos")
      else some byDefine

/-- `디코드_멤버데이터_문자열` -/
def decodeString (packetDataName : Expr) (memberInfo : MemberDataInfo) : Line :=
  .readWChar "ReadSize" (packetDataName.member memberInfo.name) memberInfo.arrayDefineName "ReadPos"
    "m_TempBuffer" "ReadPos"

def decodeMemberData (packetDataName : Expr) (prevMemberInfo : Option MemberDataInfo)
    (memberInfo : MemberDataInfo) : Option Line :=
  if isCppNumberType memberInfo.type then
    if memberInfo.arrayValue > 1 then decodeNumberArray packetDataName prevMemberInfo memberInfo
    else some (decodeNumber packetDataName memberInfo)
  else some (decodeString packetDataName memberInfo)

def decodeMemberDataStruct : ProtocolFile → Nat → Expr → StructInfo → Option Code :=
  memberDataStruct decodeMemberData

/-! ## The structs -/

/-- One `struct EnDecode`: the bodies of its two functions. -/
structure EnDecode where
  structInfo : StructInfo
  encode : Code
  decode : Code

def generateEnDecoderClass (depth : Nat) (file : ProtocolFile) : Option (List EnDecode) :=
  (file.structs.filter fun structInfo => !structInfo.isPassEnDecodeGenerate).mapM fun structInfo =>
    (encodeMemberDataStruct file depth .packetData structInfo).bind fun encode =>
    (decodeMemberDataStruct file depth .packetData structInfo).map fun decode =>
      { structInfo, encode, decode }

end Cgsf.PacketEnDeCodeGenerator
