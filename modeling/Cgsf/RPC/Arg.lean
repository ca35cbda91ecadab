import Cgsf.Proof.RPC.CPstream
import Mathlib.Logic.Function.Basic

namespace Cgsf.RPC
open CPstream Proof.RPC.CPstream

/-- How the values of a type are saved and loaded: of a primitive type, or of a class by its
`Serialize`. A value is given by its image in memory. -/
structure Persistence where
  Valid : Bytes → Prop
  save : Bytes → Bytes
  load : Bytes → Option (Bytes × Bytes)
  load_save : ∀ image rest, Valid image → load (save image ++ rest) = some (image, rest)

namespace Persistence

def raw (size : Nat) : Persistence where
  Valid image := image.length = size
  save image := image
  load := copyData size
  load_save := by
    intro image rest valid
    rw [← valid, copyData_append]

def string : Persistence where
  Valid image := image.length < 2 ^ 31
  save := saveString
  load := loadString
  load_save := loadString_saveString

/-- The text of a `char *`, up to its end. -/
def chars : Persistence where
  Valid image := image.length < 2 ^ 31 ∧ 0 ∉ image
  save := saveString
  load := loadString
  load_save := fun image rest valid => loadString_saveString image rest valid.1

end Persistence

/-- An object with the register number of its class, or a variable of a primitive type. -/
structure Cell where
  cls : Nat := 0
  image : Bytes := []
  deriving DecidableEq, Repr

abbrev Memory := Nat → Cell

def Memory.write (memory : Memory) (a : Nat) (image : Bytes) : Memory :=
  Function.update memory a { memory a with image }

/-- The types that `Arg` is specialised to. `derived` tells the classes that `dynamic_cast` takes
for the class of the parameter. -/
inductive ParamType where
  | value (type : Persistence)
  | primitiveRef (type : Persistence)
  | primitivePtr (type : Persistence)
  | objectRef (derived : Nat → Bool)
  | objectPtr (derived : Nat → Bool)
  | charPtr

/-- An `Arg` with its `_a`: a value, or where it is in memory. -/
inductive Arg where
  | value (type : Persistence) (a : Bytes)
  | primitiveRef (type : Persistence) (a : Nat)
  | primitivePtr (type : Persistence) (a : Option Nat)
  | objectRef (derived : Nat → Bool) (a : Nat)
  | objectPtr (derived : Nat → Bool) (a : Option Nat)
  | charPtr (a : Option Nat)

namespace Arg

def type : Arg → ParamType
  | value type _ => .value type
  | primitiveRef type _ => .primitiveRef type
  | primitivePtr type _ => .primitivePtr type
  | objectRef derived _ => .objectRef derived
  | objectPtr derived _ => .objectPtr derived
  | charPtr _ => .charPtr

def place? : Arg → Option Nat
  | value _ _ => none
  | primitiveRef _ a | objectRef _ a => some a
  | primitivePtr _ a | objectPtr _ a | charPtr a => a

end Arg

/-- A stream that is loaded from. `apObj` are the objects of its table behind the null pointer at
the front, and `created` counts what has been created while loading, at 0, 1, ... in memory. -/
structure Loading where
  stream : Bytes
  apObj : List Nat := []
  memory : Memory := fun _ => {}
  created : Nat := 0

namespace CPstream

def ptIndexed : Int32 := 0
def ptObject : Int32 := 1

variable (classes : List Persistence)

def saveBody (cell : Cell) : Bytes :=
  match classes[cell.cls]? with
  | some type => type.save cell.image
  | none => []

def loadBody (cls : Nat) (stream : Bytes) : Option (Bytes × Bytes) :=
  match classes[cls]? with
  | some type => type.load stream
  | none => none

/-- A pointer to an object: its index if the table has it, and the object otherwise. -/
def saveObject (memory : Memory) (apObj : List Nat) : Option Nat → Bytes × List Nat
  | none => (saveInt ptIndexed ++ saveInt 0, apObj)
  | some a =>
      match apObj.idxOf? a with
      | some i => (saveInt ptIndexed ++ saveInt (.ofNat (i + 1)), apObj)
      | none =>
          (saveInt ptObject ++ saveInt (.ofNat (memory a).cls) ++ saveBody classes (memory a),
            apObj ++ [a])

def create (l : Loading) (cell : Cell) : Loading :=
  { l with memory := Function.update l.memory l.created cell, created := l.created + 1 }

def loadObject (l : Loading) : Option (Option Nat × Loading) := do
  let (iTag, stream) ← loadInt l.stream
  let (iIndexOrNo, stream) ← loadInt stream
  if iIndexOrNo < 0 then none
  else if iTag = ptIndexed then
    match iIndexOrNo.toInt.toNat with
    | 0 => return (none, { l with stream })
    | i + 1 => (l.apObj[i]?).map fun a => (some a, { l with stream })
  else if iTag = ptObject then
    let cls := iIndexOrNo.toInt.toNat
    let (image, stream) ← loadBody classes cls stream
    return (some l.created, create { l with stream, apObj := l.apObj ++ [l.created] } ⟨cls, image⟩)
  else none

def savePointer (type : Persistence) (memory : Memory) : Option Nat → Bytes
  | none => saveBool true
  | some a => saveBool false ++ type.save (memory a).image

def loadPointer (type : Persistence) (l : Loading) : Option (Option Nat × Loading) := do
  let (isNull, stream) ← loadBool l.stream
  if isNull then return (none, { l with stream })
  let (image, stream) ← type.load stream
  return (some l.created, create { l with stream } ⟨0, image⟩)

end CPstream

variable (classes : List Persistence)

/-- `Serialize` of an argument that the client saves, and of a result that the server saves. -/
def Arg.save (memory : Memory) (apObj : List Nat) : Arg → Bytes × List Nat
  | .value type a => (type.save a, apObj)
  | .primitiveRef type a => (type.save (memory a).image, apObj)
  | .primitivePtr type a => (savePointer type memory a, apObj)
  | .objectRef _ a => saveObject classes memory apObj (some a)
  | .objectPtr _ a => saveObject classes memory apObj a
  | .charPtr a => (savePointer .chars memory a, apObj)

/-- `Serialize` of an argument that the server loads, and of a result that the client loads. -/
def ParamType.load (l : Loading) : ParamType → Option (Arg × Loading)
  | .value type =>
      (type.load l.stream).map fun (a, stream) => (.value type a, { l with stream })
  | .primitiveRef type =>
      (type.load l.stream).map fun (image, stream) =>
        (.primitiveRef type l.created, create { l with stream } ⟨0, image⟩)
  | .primitivePtr type => (loadPointer type l).map fun (a, l) => (.primitivePtr type a, l)
  | .objectRef derived => do
      let (ip, l) ← loadObject classes l
      let a ← ip
      if derived (l.memory a).cls then return (.objectRef derived a, l) else none
  | .objectPtr derived => do
      let (ip, l) ← loadObject classes l
      return (.objectPtr derived (ip.filter fun a => derived (l.memory a).cls), l)
  | .charPtr => (loadPointer .chars l).map fun (a, l) => (.charPtr a, l)

/-- `Serialize` of an argument that the server saves for the client to update its own. -/
def Arg.saveUpdate (memory : Memory) : Arg → Bytes
  | .value type a => type.save a
  | .primitiveRef type a => type.save (memory a).image
  | .primitivePtr type a => (a.map fun a => type.save (memory a).image).getD []
  | .objectRef _ a => saveBody classes (memory a)
  | .objectPtr _ a => (a.map fun a => saveBody classes (memory a)).getD []
  | .charPtr a => savePointer .chars memory a

/-- `Serialize` of an argument that the client loads. -/
def Arg.loadUpdate (memory : Memory) (ia : Bytes) : Arg → Option (Memory × Bytes)
  | .value type _ => (type.load ia).map fun (_, ia) => (memory, ia)
  | .primitiveRef type a => (type.load ia).map fun (image, ia) => (memory.write a image, ia)
  | .primitivePtr _ none | .objectPtr _ none => some (memory, ia)
  | .primitivePtr type (some a) =>
      (type.load ia).map fun (image, ia) => (memory.write a image, ia)
  | .objectRef _ a | .objectPtr _ (some a) =>
      (loadBody classes (memory a).cls ia).map fun (image, ia) => (memory.write a image, ia)
  | .charPtr a => do
      let (isNull, ia) ← loadBool ia
      match a, isNull with
      | none, true => return (memory, ia)
      | none, false => (Persistence.chars.load ia).map fun (_, ia) => (memory, ia)
      -- a null pointer is copied from
      | some _, true => none
      | some a, false => (Persistence.chars.load ia).map fun (image, ia) => (memory.write a image, ia)

def saveArgs (memory : Memory) : List Arg → List Nat → Bytes
  | [], _ => []
  | arg :: args, apObj =>
      let (bytes, apObj) := arg.save classes memory apObj
      bytes ++ saveArgs memory args apObj

def loadArgs : List ParamType → Loading → Option (List Arg × Loading)
  | [], l => some ([], l)
  | type :: types, l => do
      let (arg, l) ← type.load classes l
      let (args, l) ← loadArgs types l
      return (arg :: args, l)

def saveUpdates (memory : Memory) (args : List Arg) : Bytes :=
  args.flatMap (Arg.saveUpdate classes memory)

def loadUpdates (memory : Memory) (ia : Bytes) : List Arg → Option (Memory × Bytes)
  | [] => some (memory, ia)
  | arg :: args => do
      let (memory, ia) ← arg.loadUpdate classes memory ia
      loadUpdates memory ia args

end Cgsf.RPC
