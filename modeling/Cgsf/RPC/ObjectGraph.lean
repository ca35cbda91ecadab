import Cgsf.RPC.Loads
import Mathlib.Data.Set.Card

/-!
# Saving objects that point to each other

The `Serialize` of a class saves and loads the same things in the same order, and what comes next
may depend on what came before, on a pointer only by whether it is null. In memory a pointer is an
address; loaded, it is an index in the table.
-/

namespace Cgsf.RPC

inductive Layout where
  | done
  | scalar (size : Nat) (next : Bytes → Layout)
  | string (next : Bytes → Layout)
  | object (next : Bool → Layout)

namespace Layout

def loads : Layout → Loads
  | .done => .done
  | .scalar size next => .scalar size fun bytes => (next bytes).loads
  | .string next => .string fun ch => (next ch).loads
  | .object next => .object fun pshp => (next (pshp = some 0)).loads

/-- The fields are those of the layout. -/
def Fits : Layout → List Value → Prop
  | .done, [] => True
  | .scalar size next, .scalar bytes :: fields => bytes.length = size ∧ (next bytes).Fits fields
  | .string next, .string ch :: fields => (next ch).Fits fields
  | .object next, .object pshp :: fields => (next pshp.isNone).Fits fields
  | _, _ => False

def pointers : Nat → Layout
  | 0 => .done
  | n + 1 => .object fun _ => pointers n

end Layout

namespace CPstream

/-- What is on the stream, and the objects that were met. -/
structure Saving where
  fs : Bytes := []
  apObj : List (Option Nat) := [none]
  deriving DecidableEq

/-- The size of the table goes into an `int`. -/
def findObject (apObj : List (Option Nat)) (pObj : Option Nat) : Option Nat :=
  (apObj.take (Int32.ofNat apObj.length).toInt.toNat).idxOf? pObj

def saveFields (savePersistence : Saving → Option Nat → Option Saving) :
    List Value → Saving → Option Saving
  | [], s => some s
  | .scalar bytes :: fields, s =>
      saveFields savePersistence fields { s with fs := s.fs ++ bytes }
  | .string ch :: fields, s =>
      saveFields savePersistence fields { s with fs := s.fs ++ saveString ch }
  | .object pshp :: fields, s =>
      (savePersistence s pshp).bind (saveFields savePersistence fields)

/-- `operator << (IPersistence *)`. With an object inside the other for each unit of fuel. -/
def savePersistence (objects : Nat → Stored) : Nat → Saving → Option Nat → Option Saving
  | 0, _, _ => none
  | fuel + 1, s, pshp =>
      match findObject s.apObj pshp, pshp with
      | some iIndex, _ =>
          some { s with fs := s.fs ++ (saveInt ptIndexed ++ saveInt (.ofNat iIndex)) }
      -- a null pointer that is not found is followed
      | none, none => none
      | none, some a =>
          saveFields (savePersistence objects fuel) (objects a).fields
            { fs := s.fs ++ (saveInt ptObject ++ saveInt (objects a).registerNo)
              apObj := s.apObj ++ [pshp] }

end CPstream

variable {classes : List Layout}

/-- The objects that the roots lead to. -/
inductive Reachable (objects : Nat → Stored) (roots : List (Option Nat)) : Nat → Prop where
  | root {a : Nat} (member : some a ∈ roots) : Reachable objects roots a
  | field {a b : Nat} (before : Reachable objects roots a)
      (member : .object (some b) ∈ (objects a).fields) : Reachable objects roots b

/-- Finitely many objects of registered classes. -/
structure ObjectGraph (classes : List Layout) where
  objects : Nat → Stored
  roots : List (Option Nat)
  finite : {a | Reachable objects roots a}.Finite
  registered : ∀ a, Reachable objects roots a → ∃ layout,
    CPstream.entry classes (objects a).registerNo = some layout ∧ layout.Fits (objects a).fields

def Value.rename (index : Option Nat → Nat) : Value → Value
  | .scalar bytes => .scalar bytes
  | .string ch => .string ch
  | .object pshp => .object (some (index pshp))

namespace ObjectGraph

def save (g : ObjectGraph classes) (fuel : Nat) : Option CPstream.Saving :=
  CPstream.saveFields (CPstream.savePersistence g.objects fuel) (g.roots.map .object) {}

/-- What an object is in the table when each pointer has its index. -/
def copy (g : ObjectGraph classes) (index : Option Nat → Nat) (a : Nat) : Stored :=
  { g.objects a with fields := (g.objects a).fields.map (Value.rename index) }

/-- The table is the graph: its objects are those of the graph, one each, with their fields. -/
structure Copied (g : ObjectGraph classes) (index : Option Nat → Nat)
    (apObj : List (Option Stored)) : Prop where
  null : index none = 0 ∧ apObj[0]? = some none
  each : ∀ a, Reachable g.objects g.roots a → apObj[index (some a)]? = some (some (g.copy index a))
  apart : ∀ a b, Reachable g.objects g.roots a → Reachable g.objects g.roots b →
    index (some a) = index (some b) → a = b
  once : ∀ i, 0 < i → i < apObj.length →
    ∃ a, Reachable g.objects g.roots a ∧ index (some a) = i

/-- Saving comes to an end, and loading what was saved makes the graph again. -/
def RoundTrips (g : ObjectGraph classes) (asserts : Bool) : Prop :=
  ∃ fuel saved s index, g.save fuel = some saved ∧
    CPstream.load asserts (classes.map Layout.loads) (Layout.pointers g.roots.length).loads
      saved.fs = .ok (g.roots.map fun pshp => .object (some (index pshp)), s) ∧
    s.rest = [] ∧ g.Copied index s.apObj

def StringsShort (g : ObjectGraph classes) : Prop :=
  ∀ a, Reachable g.objects g.roots a → ∀ ch, .string ch ∈ (g.objects a).fields → ch.length < 2 ^ 31

/-- The table and its size are within an `int`. -/
def Few (g : ObjectGraph classes) : Prop :=
  {a | Reachable g.objects g.roots a}.ncard + 1 < 2 ^ 31

end ObjectGraph

end Cgsf.RPC
