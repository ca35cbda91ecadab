import Cgsf.RPC.Arg

/-!
# Loading from the persistence stream

A `Serialize` that loads asks for one thing after another, and what it asks for may depend on what
it got. A pointer to a scalar or to characters is a `bool` and, unless it is null, what it points
to.
-/

namespace Cgsf.RPC

inductive Loads where
  | done
  | scalar (size : Nat) (next : Bytes → Loads)
  | string (next : Bytes → Loads)
  /-- An object, as its index in the table. The pointer may have been left as it was. -/
  | object (next : Option Nat → Loads)

inductive Value where
  | scalar (bytes : Bytes)
  | string (ch : Bytes)
  | object (pshp : Option Nat)
  deriving DecidableEq, Repr

structure Stored where
  registerNo : Int32
  fields : List Value := []
  deriving DecidableEq

namespace CPstream

/-- What is left of the stream, and the objects that were met. The first one is NULL. -/
structure Source where
  rest : Bytes
  apObj : List (Option Stored) := [none]
  deriving DecidableEq

/-- What can be wrong with the input where the code does not go on as it should. -/
inductive Fault where
  /-- The bytes that are asked for are not there. -/
  | bytes
  | index (iIndexOrNo : Int32)
  | registerNo (iIndexOrNo : Int32)
  | tag (iTag : Int32)
  deriving DecidableEq

/-- An array, indexed by an `int`. -/
def entry {α : Type} (table : List α) (i : Int32) : Option α :=
  if 0 ≤ i then table[i.toInt.toNat]? else none

def orFault {α : Type} (fault : Fault) : Option α → Except Fault α
  | some a => .ok a
  | none => .error fault

def loadFields (loadPersistence : Source → Except Fault (Option Nat × Source)) :
    Loads → Source → Except Fault (List Value × Source)
  | .done, s => .ok ([], s)
  | .scalar size next, s => do
      let (bytes, rest) ← orFault .bytes (copyData size s.rest)
      let (values, s) ← loadFields loadPersistence (next bytes) { s with rest }
      return (.scalar bytes :: values, s)
  | .string next, s => do
      let (ch, rest) ← orFault .bytes (loadString s.rest)
      let (values, s) ← loadFields loadPersistence (next ch) { s with rest }
      return (.string ch :: values, s)
  | .object next, s => do
      let (pshp, s) ← loadPersistence s
      let (values, s) ← loadFields loadPersistence (next pshp) s
      return (.object pshp :: values, s)

variable (asserts : Bool) (apfnCreate : List Loads)

/-- The `switch` over the tag. Without assertions a pointer with an unknown tag is left alone. -/
def loadTagged (loadCreated : Loads → Source → Except Fault (List Value × Source))
    (iTag iIndexOrNo : Int32) (s : Source) : Except Fault (Option Nat × Source) :=
  if iTag = ptIndexed then do
    let _ ← orFault (.index iIndexOrNo) (entry s.apObj iIndexOrNo)
    return (some iIndexOrNo.toInt.toNat, s)
  else if iTag = ptObject then do
    let create ← orFault (.registerNo iIndexOrNo) (entry apfnCreate iIndexOrNo)
    let (values, loaded) ← loadCreated create
      { s with apObj := s.apObj ++ [some { registerNo := iIndexOrNo }] }
    return (some s.apObj.length,
      { loaded with apObj := loaded.apObj.set s.apObj.length (some ⟨iIndexOrNo, values⟩) })
  else if asserts then .error (.tag iTag)
  else return (none, s)

/-- `operator >> (IPersistence *&)`. An object takes eight bytes, so there are never more of them
inside each other than bytes. -/
def loadPersistence : Nat → Source → Except Fault (Option Nat × Source)
  | 0, _ => .error .bytes
  | fuel + 1, s => do
      let (iTag, rest) ← orFault .bytes (loadInt s.rest)
      let (iIndexOrNo, rest) ← orFault .bytes (loadInt rest)
      let loadCreated := loadFields (loadPersistence fuel)
      loadTagged asserts apfnCreate loadCreated iTag iIndexOrNo { s with rest }

/-- Some loads from a stream over a buffer. -/
def load (loads : Loads) (buf : Bytes) : Except Fault (List Value × Source) :=
  loadFields (loadPersistence asserts apfnCreate buf.length) loads { rest := buf }

/-- `assert (iIndexOrNo < s_iRegNum)` and `assert (0)` are the only reports. -/
def Fault.Reported : Fault → Prop
  | .bytes => False
  | .index _ => False
  | .registerNo iIndexOrNo => asserts = true ∧ 0 ≤ iIndexOrNo
  | .tag _ => asserts = true

/-! ## Input that is as it should be -/

/-- What the loads find on the stream when everything they ask for is there. -/
inductive Reads : Loads → Source → List Value → Source → Prop where
  | done {s : Source} : Reads .done s [] s
  | scalar {next : Bytes → Loads} {bytes rest : Bytes} {apObj : List (Option Stored)}
      {values : List Value} {s : Source} (after : Reads (next bytes) ⟨rest, apObj⟩ values s) :
      Reads (.scalar bytes.length next) ⟨bytes ++ rest, apObj⟩ (.scalar bytes :: values) s
  | string {next : Bytes → Loads} {ch rest : Bytes} {apObj : List (Option Stored)}
      {values : List Value} {s : Source} (short : ch.length < 2 ^ 31)
      (after : Reads (next ch) ⟨rest, apObj⟩ values s) :
      Reads (.string next) ⟨saveString ch ++ rest, apObj⟩ (.string ch :: values) s
  | indexed {next : Option Nat → Loads} {i : Int32} {rest : Bytes}
      {apObj : List (Option Stored)} {values : List Value} {s : Source}
      (met : (entry apObj i).isSome)
      (after : Reads (next (some i.toInt.toNat)) ⟨rest, apObj⟩ values s) :
      Reads (.object next) ⟨saveInt ptIndexed ++ (saveInt i ++ rest), apObj⟩
        (.object (some i.toInt.toNat) :: values) s
  | object {next : Option Nat → Loads} {no : Int32} {rest : Bytes}
      {apObj : List (Option Stored)} {fields values : List Value} {create : Loads}
      {inner s : Source} (registered : entry apfnCreate no = some create)
      (inside : Reads create ⟨rest, apObj ++ [some { registerNo := no }]⟩ fields inner)
      (after : Reads (next (some apObj.length))
        { inner with apObj := inner.apObj.set apObj.length (some ⟨no, fields⟩) } values s) :
      Reads (.object next) ⟨saveInt ptObject ++ (saveInt no ++ rest), apObj⟩
        (.object (some apObj.length) :: values) s

def WellFormed (loads : Loads) (buf : Bytes) : Prop :=
  ∃ values s, Reads apfnCreate loads { rest := buf } values s

/-- The first thing that is wrong is one that the assertions look for. -/
inductive Stops : Loads → Source → Prop where
  | scalar {next : Bytes → Loads} {bytes rest : Bytes} {apObj : List (Option Stored)}
      (after : Stops (next bytes) ⟨rest, apObj⟩) :
      Stops (.scalar bytes.length next) ⟨bytes ++ rest, apObj⟩
  | string {next : Bytes → Loads} {ch rest : Bytes} {apObj : List (Option Stored)}
      (short : ch.length < 2 ^ 31) (after : Stops (next ch) ⟨rest, apObj⟩) :
      Stops (.string next) ⟨saveString ch ++ rest, apObj⟩
  | tag {next : Option Nat → Loads} {iTag i : Int32} {rest : Bytes}
      {apObj : List (Option Stored)} (indexed : iTag ≠ ptIndexed) (object : iTag ≠ ptObject) :
      Stops (.object next) ⟨saveInt iTag ++ (saveInt i ++ rest), apObj⟩
  | registerNo {next : Option Nat → Loads} {no : Int32} {rest : Bytes}
      {apObj : List (Option Stored)} (nonneg : 0 ≤ no) (unknown : entry apfnCreate no = none) :
      Stops (.object next) ⟨saveInt ptObject ++ (saveInt no ++ rest), apObj⟩
  | indexed {next : Option Nat → Loads} {i : Int32} {rest : Bytes}
      {apObj : List (Option Stored)} (met : (entry apObj i).isSome)
      (after : Stops (next (some i.toInt.toNat)) ⟨rest, apObj⟩) :
      Stops (.object next) ⟨saveInt ptIndexed ++ (saveInt i ++ rest), apObj⟩
  | inside {next : Option Nat → Loads} {no : Int32} {rest : Bytes}
      {apObj : List (Option Stored)} {create : Loads}
      (registered : entry apfnCreate no = some create)
      (inside : Stops create ⟨rest, apObj ++ [some { registerNo := no }]⟩) :
      Stops (.object next) ⟨saveInt ptObject ++ (saveInt no ++ rest), apObj⟩
  | behind {next : Option Nat → Loads} {no : Int32} {rest : Bytes}
      {apObj : List (Option Stored)} {fields : List Value} {create : Loads} {inner : Source}
      (registered : entry apfnCreate no = some create)
      (inside : Reads apfnCreate create ⟨rest, apObj ++ [some { registerNo := no }]⟩ fields inner)
      (after : Stops (next (some apObj.length))
        { inner with apObj := inner.apObj.set apObj.length (some ⟨no, fields⟩) }) :
      Stops (.object next) ⟨saveInt ptObject ++ (saveInt no ++ rest), apObj⟩

/-- Nothing is read outside the stream and the tables, and input that is not as it should be is
reported. -/
structure LoadsSafely (loads : Loads) (buf : Bytes) : Prop where
  inside : ∀ fault, load asserts apfnCreate loads buf = .error fault → fault.Reported asserts
  reported : ¬WellFormed apfnCreate loads buf →
    ∃ fault, load asserts apfnCreate loads buf = .error fault

end CPstream

end Cgsf.RPC
