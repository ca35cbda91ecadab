import Mathlib.Data.List.Basic

/-!
# What the generator knows about a packet struct

`CheckDataType` tells the built-in types by their names, and `StructInfo` is what has been read of
one struct of the protocol file.
-/

namespace Cgsf.PacketEnDeCodeGenerator

def isCppNumberType (typeName : String) : Bool :=
  typeName ∈ ["char", "unsigned char", "short", "INT16", "unsigned short", "UINT16", "int", "INT32",
    "unsigned int", "UINT32", "__int64", "INT64", "unsigned __int64", "UINT64", "float", "double"]

def isCppUnicodeCharacterType (typeName : String) : Bool :=
  typeName = "wchar_t"

def isCppBasicType (typeName : String) : Bool :=
  isCppNumberType typeName || isCppUnicodeCharacterType typeName

/-- `sizeof` of a built-in number type. -/
def cppSizeof (typeName : String) : Nat :=
  if typeName ∈ ["char", "unsigned char"] then 1
  else if typeName ∈ ["short", "INT16", "unsigned short", "UINT16"] then 2
  else if typeName ∈ ["int", "INT32", "unsigned int", "UINT32", "float"] then 4
  else 8

/-- What stands between the brackets of an array. -/
inductive ArrayDefine where
  | number (n : Nat)
  | constant (name : String)
  deriving DecidableEq, Repr

/-- `arrayDefineName` is empty for a member without brackets. -/
structure MemberDataInfo where
  type : String
  name : String
  arrayDefineName : Option ArrayDefine
  arrayValue : Int
  deriving DecidableEq

structure StructInfo where
  isPassEnDecodeGenerate : Bool
  name : String
  defineDataBufferSize : Int
  memberList : List MemberDataInfo
  distinct : (memberList.map MemberDataInfo.name).Nodup
  deriving DecidableEq

/-- The protocol file: its constants, and its structs in the order of the file. -/
structure ProtocolFile where
  constants : List (String × Int)
  packetHeaderSize : Nat
  structs : List StructInfo
  distinct : (structs.map StructInfo.name).Nodup
  header : constants.lookup "PACKET_HEADER_SIZE" = some (packetHeaderSize : Int)
  -- `Encode` puts three shorts in front of the body, and the parser reads the size as an `Int16`.
  headerRoom : 6 ≤ packetHeaderSize ∧ packetHeaderSize < 32768

def ProtocolFile.find (file : ProtocolFile) (type : String) : Option StructInfo :=
  file.structs.find? fun info => info.name = type

end Cgsf.PacketEnDeCodeGenerator
