import Cgsf.RPC.ServiceMethod
import Mathlib.Data.List.Forall2

/-!
# The arguments on the server

Loading what the client saved makes copies of its variables. An object that the table has is not
made again; a variable of a primitive type is.
-/

namespace Cgsf.Proof.RPC
open Cgsf.RPC Cgsf.RPC.CPstream Cgsf.Proof.RPC.CPstream

variable {classes : List Persistence} {memory : Memory} {apObj : List Nat} {l : Loading}

namespace Arg

/-- The argument with its variable at another place. -/
def move (place : Nat) : Arg → Arg
  | .value type a => .value type a
  | .primitiveRef type _ => .primitiveRef type place
  | .primitivePtr type a => .primitivePtr type (a.map fun _ => place)
  | .objectRef derived _ => .objectRef derived place
  | .objectPtr derived a => .objectPtr derived (a.map fun _ => place)
  | .charPtr a => .charPtr (a.map fun _ => place)

def isObject : Arg → Bool
  | .objectRef _ _ | .objectPtr _ _ => true
  | .value _ _ | .primitiveRef _ _ | .primitivePtr _ _ | .charPtr _ => false

/-- What the variable of the argument holds fits its type. -/
def Valid (classes : List Persistence) (memory : Memory) : Arg → Prop
  | .value type a => type.Valid a
  | arg => ∀ a, arg.place? = some a → arg.type.Holds classes (memory a)

/-- The argument that the server loads, with the places of the objects that it has by then. -/
def copied (memory : Memory) (apObj : List Nat) (l : Loading) (arg : Arg) : Arg × Loading :=
  match arg.place? with
  | none => (arg, l)
  | some a =>
      if isObject arg = true then
        match apObj.idxOf? a with
        | some i => (move (l.apObj.getD i 0) arg, l)
        | none => (move l.created arg, create { l with apObj := l.apObj ++ [l.created] } (memory a))
      else (move l.created arg, create l (memory a))

end Arg

/-- The table of the client and the one of the server lead to the same objects. -/
def Tabled (memory : Memory) (apObj : List Nat) (l : Loading) : Prop :=
  List.Forall₂ (fun a place => place < l.created ∧ l.memory place = memory a) apObj l.apObj

theorem index_ofNat {n : Nat} (small : n < 2 ^ 31) :
    ¬ Int32.ofNat n < 0 ∧ (Int32.ofNat n).toInt.toNat = n := by
  have toInt : (Int32.ofNat n).toInt = n := Int32.toInt_ofNat_of_lt small
  rw [Int32.lt_iff_toInt_lt, toInt, Int.toNat_natCast]
  refine ⟨?_, rfl⟩
  exact not_lt.mpr (Int.natCast_nonneg n)

theorem loadBody_saveBody {cell : Cell} {type : Persistence} (known : classes[cell.cls]? = some type)
    (valid : type.Valid cell.image) (rest : Bytes) :
    loadBody classes cell.cls (saveBody classes cell ++ rest) = some (cell.image, rest) := by
  simp only [loadBody, saveBody, known]
  exact type.load_save cell.image rest valid

theorem mem_of_idxOf? {a i : Nat} (found : apObj.idxOf? a = some i) : a ∈ apObj := by
  obtain ⟨within, here, -⟩ := List.idxOf?_eq_some_iff.mp found
  exact here ▸ List.getElem_mem within

theorem Tabled.at (tabled : Tabled memory apObj l) {a i : Nat}
    (found : apObj.idxOf? a = some i) : ∃ place, l.apObj[i]? = some place ∧ place < l.created ∧
      l.memory place = memory a := by
  obtain ⟨within, here, -⟩ := List.idxOf?_eq_some_iff.mp found
  have within' : i < l.apObj.length := tabled.length_eq ▸ within
  have entry := tabled.get within within'
  simp only [List.get_eq_getElem, here] at entry
  exact ⟨l.apObj[i], List.getElem?_eq_getElem within', entry⟩

variable (classes) in
theorem loadObject_indexed (tabled : Tabled memory apObj l) (small : apObj.length < 2 ^ 31 - 1)
    {a i : Nat} (found : apObj.idxOf? a = some i) (rest : Bytes) :
    loadObject classes
        { l with stream := (saveObject classes memory apObj (some a)).1 ++ rest } =
      some (some (l.apObj.getD i 0), { l with stream := rest }) := by
  obtain ⟨place, entry, -⟩ := tabled.at found
  obtain ⟨within, -⟩ := List.idxOf?_eq_some_iff.mp found
  obtain ⟨nonneg, index⟩ := index_ofNat (show i + 1 < 2 ^ 31 by omega)
  simp only [saveObject, found, loadObject, List.append_assoc, loadInt_saveInt, Option.bind_eq_bind,
    Option.bind_some]
  rw [if_neg nonneg, if_true, index]
  simp [entry]

variable (classes memory apObj l) in
theorem loadObject_null (rest : Bytes) :
    loadObject classes { l with stream := (saveObject classes memory apObj none).1 ++ rest } =
      some (none, { l with stream := rest }) := by
  simp only [saveObject, loadObject, List.append_assoc, loadInt_saveInt, Option.bind_eq_bind,
    Option.bind_some]
  rfl

variable (l) in
theorem loadObject_new {a : Nat} (new : apObj.idxOf? a = none) {type : Persistence}
    (maxClass : classes.length ≤ 128)
    (known : classes[(memory a).cls]? = some type) (valid : type.Valid (memory a).image)
    (rest : Bytes) :
    loadObject classes
        { l with stream := (saveObject classes memory apObj (some a)).1 ++ rest } =
      some (some l.created,
        create { l with stream := rest, apObj := l.apObj ++ [l.created] } (memory a)) := by
  obtain ⟨within, -⟩ := List.getElem?_eq_some_iff.mp known
  obtain ⟨nonneg, index⟩ := index_ofNat (show (memory a).cls < 2 ^ 31 by omega)
  simp only [saveObject, new, loadObject, List.append_assoc, loadInt_saveInt, Option.bind_eq_bind,
    Option.bind_some]
  rw [if_neg nonneg, if_neg (by decide), if_true, index, loadBody_saveBody known valid]
  rfl

variable (l) in
theorem loadPointer_savePointer {type : Persistence} (a : Option Nat)
    (valid : ∀ place, a = some place → (memory place).cls = 0 ∧ type.Valid (memory place).image)
    (rest : Bytes) :
    loadPointer type { l with stream := savePointer type memory a ++ rest } =
      match a with
      | none => some (none, { l with stream := rest })
      | some place => some (some l.created, create { l with stream := rest } (memory place)) := by
  cases a with
  | none =>
      simp only [savePointer, loadPointer, loadBool_saveBool]
      rfl
  | some place =>
      obtain ⟨cls, valid⟩ := valid place rfl
      have cell : memory place = ⟨0, (memory place).image⟩ := by
        rw [← cls]
      simp only [savePointer, loadPointer, List.append_assoc, loadBool_saveBool, type.load_save _ _ valid,
        Option.bind_eq_bind, Option.bind_some]
      rw [cell]
      rfl

theorem load_save (tabled : Tabled memory apObj l)
    (small : apObj.length < 2 ^ 31 - 1) (maxClass : classes.length ≤ 128) {arg : Arg}
    (valid : Arg.Valid classes memory arg) (rest : Bytes) :
    arg.type.load classes { l with stream := (arg.save classes memory apObj).1 ++ rest } =
      some ((Arg.copied memory apObj l arg).1,
        { (Arg.copied memory apObj l arg).2 with stream := rest }) := by
  cases arg with
  | value type a =>
      have loaded := type.load_save a rest valid
      simp [Arg.type, ParamType.load, Arg.save, loaded, Arg.copied, Arg.place?]
  | primitiveRef type a =>
      obtain ⟨cls, valid⟩ := valid a rfl
      have loaded := type.load_save (memory a).image rest valid
      have cell : memory a = ⟨0, (memory a).image⟩ := by
        rw [← cls]
      simp [Arg.type, ParamType.load, Arg.save, loaded, Arg.copied, Arg.place?, Arg.isObject, Arg.move,
        create, ← cell]
  | primitivePtr type a =>
      have loaded := loadPointer_savePointer l a valid rest
      cases a with
      | none => simp [Arg.type, ParamType.load, Arg.save, loaded, Arg.copied, Arg.place?]
      | some a =>
          simp [Arg.type, ParamType.load, Arg.save, loaded, Arg.copied, Arg.place?, Arg.isObject,
            Arg.move, create]
  | objectRef derived a =>
      obtain ⟨fits, type, known, valid⟩ := valid a rfl
      cases found : apObj.idxOf? a with
      | some i =>
          have loaded := loadObject_indexed classes tabled small found rest
          obtain ⟨place, entry, -, same⟩ := tabled.at found
          simp [Arg.type, ParamType.load, Arg.save, loaded, Arg.copied, Arg.place?, Arg.isObject,
            Arg.move, found, entry, same, fits]
      | none =>
          have loaded := loadObject_new l found maxClass known valid rest
          simp [Arg.type, ParamType.load, Arg.save, loaded, Arg.copied, Arg.place?, Arg.isObject,
            Arg.move, found, create, fits]
  | objectPtr derived a =>
      cases a with
      | none =>
          have loaded := loadObject_null classes memory apObj l rest
          simp [Arg.type, ParamType.load, Arg.save, loaded, Arg.copied, Arg.place?]
      | some a =>
          obtain ⟨fits, type, known, valid⟩ := valid a rfl
          cases found : apObj.idxOf? a with
          | some i =>
              have loaded := loadObject_indexed classes tabled small found rest
              obtain ⟨place, entry, -, same⟩ := tabled.at found
              simp [Arg.type, ParamType.load, Arg.save, loaded, Arg.copied, Arg.place?,
                Arg.isObject, Arg.move, found, entry, same, fits]
          | none =>
              have loaded := loadObject_new l found maxClass known valid rest
              simp [Arg.type, ParamType.load, Arg.save, loaded, Arg.copied, Arg.place?,
                Arg.isObject, Arg.move, found, create, fits]
  | charPtr a =>
      have loaded := loadPointer_savePointer l a valid rest
      cases a with
      | none => simp [Arg.type, ParamType.load, Arg.save, loaded, Arg.copied, Arg.place?]
      | some a =>
          simp [Arg.type, ParamType.load, Arg.save, loaded, Arg.copied, Arg.place?, Arg.isObject,
            Arg.move, create]

/-- The table behind an argument. -/
def tableAfter (apObj : List Nat) (arg : Arg) : List Nat :=
  match arg.place? with
  | none => apObj
  | some a => if Arg.isObject arg = true ∧ a ∉ apObj then apObj ++ [a] else apObj

theorem saveObject_table (a : Nat) : (saveObject classes memory apObj (some a)).2 =
    if a ∉ apObj then apObj ++ [a] else apObj := by
  rw [saveObject]
  split
  next i found => rw [if_neg (not_not.mpr (mem_of_idxOf? found))]
  next new => rw [if_pos (List.idxOf?_eq_none_iff.mp new)]

theorem save_table (arg : Arg) : (arg.save classes memory apObj).2 = tableAfter apObj arg := by
  cases arg with
  | value type a => rfl
  | primitiveRef type a => rfl
  | primitivePtr type a => cases a <;> rfl
  | objectRef derived a => simp [Arg.save, saveObject_table, tableAfter, Arg.place?, Arg.isObject]
  | objectPtr derived a =>
      cases a with
      | none => rfl
      | some a => simp [Arg.save, saveObject_table, tableAfter, Arg.place?, Arg.isObject]
  | charPtr a => cases a <;> rfl

@[simp] theorem create_created (cell : Cell) : (create l cell).created = l.created + 1 := rfl

@[simp] theorem create_apObj (cell : Cell) : (create l cell).apObj = l.apObj := rfl

@[simp] theorem create_memory (cell : Cell) : (create l cell).memory l.created = cell :=
  Function.update_self ..

theorem create_memory_of_lt {place : Nat} (before : place < l.created) (cell : Cell) :
    (create l cell).memory place = l.memory place :=
  Function.update_of_ne before.ne _ _

/-- How the server gets an argument: as it is, as a copy of a variable, or, for an object, as the
one that the table has or as a copy that enters the table. -/
inductive Copying (memory : Memory) (apObj : List Nat) (l : Loading) (arg : Arg) : Prop where
  | without (none : arg.place? = none) (copied : Arg.copied memory apObj l arg = (arg, l))
      (table : tableAfter apObj arg = apObj)
  | primitive (a : Nat) (here : arg.place? = some a) (kind : Arg.isObject arg = false)
      (copied : Arg.copied memory apObj l arg = (Arg.move l.created arg, create l (memory a)))
      (table : tableAfter apObj arg = apObj)
  | indexed (a i : Nat) (here : arg.place? = some a) (kind : Arg.isObject arg = true)
      (found : apObj.idxOf? a = some i)
      (copied : Arg.copied memory apObj l arg = (Arg.move (l.apObj.getD i 0) arg, l))
      (table : tableAfter apObj arg = apObj)
  | object (a : Nat) (here : arg.place? = some a) (kind : Arg.isObject arg = true)
      (new : a ∉ apObj)
      (copied : Arg.copied memory apObj l arg = (Arg.move l.created arg,
        create { l with apObj := l.apObj ++ [l.created] } (memory a)))
      (table : tableAfter apObj arg = apObj ++ [a])

variable (memory apObj l) in
theorem copying (arg : Arg) : Copying memory apObj l arg := by
  cases here : arg.place? with
  | none =>
      refine .without here ?_ ?_
      · simp [Arg.copied, here]
      · simp [tableAfter, here]
  | some a =>
      cases kind : Arg.isObject arg with
      | false =>
          refine .primitive a here kind ?_ ?_
          · simp [Arg.copied, here, kind]
          · simp [tableAfter, here, kind]
      | true =>
          cases found : apObj.idxOf? a with
          | some i =>
              refine .indexed a i here kind found ?_ ?_
              · simp [Arg.copied, here, kind, found]
              · simp [tableAfter, here, mem_of_idxOf? found]
          | none =>
              have new := List.idxOf?_eq_none_iff.mp found
              refine .object a here kind new ?_ ?_
              · simp [Arg.copied, here, kind, found]
              · simp [tableAfter, here, kind, new]

variable (memory apObj l) in
/-- Nothing is created where something was before. -/
theorem created_copied (arg : Arg) : l.created ≤ (Arg.copied memory apObj l arg).2.created ∧
    ∀ place < l.created, (Arg.copied memory apObj l arg).2.memory place = l.memory place := by
  cases copying memory apObj l arg with
  | without none copied table =>
      rw [copied]
      exact ⟨le_rfl, fun _ _ => rfl⟩
  | primitive a here kind copied table =>
      rw [copied]
      exact ⟨Nat.le_succ _, fun place before => create_memory_of_lt before _⟩
  | indexed a i here kind found copied table =>
      rw [copied]
      exact ⟨le_rfl, fun _ _ => rfl⟩
  | object a here kind new copied table =>
      rw [copied]
      exact ⟨Nat.le_succ _, fun place before =>
        create_memory_of_lt (l := { l with apObj := l.apObj ++ [l.created] }) before _⟩

theorem tabled_copied (tabled : Tabled memory apObj l) (arg : Arg) :
    Tabled memory (tableAfter apObj arg) (Arg.copied memory apObj l arg).2 := by
  have grow : List.Forall₂ (fun a place => place < (Arg.copied memory apObj l arg).2.created ∧
      (Arg.copied memory apObj l arg).2.memory place = memory a) apObj l.apObj := by
    obtain ⟨created, kept⟩ := created_copied memory apObj l arg
    refine tabled.imp fun a place entry => ?_
    exact ⟨entry.1.trans_le created, (kept place entry.1).trans entry.2⟩
  unfold Tabled
  cases copying memory apObj l arg with
  | without none copied table => rwa [table, copied] at *
  | primitive a here kind copied table =>
      rw [table]
      rw [copied] at grow ⊢
      exact grow
  | indexed a i here kind found copied table => rwa [table, copied] at *
  | object a here kind new copied table =>
      rw [table]
      rw [copied] at grow ⊢
      refine List.rel_append grow (.cons ⟨Nat.lt_succ_self _, ?_⟩ .nil)
      exact create_memory (l := { l with apObj := l.apObj ++ [l.created] }) _

/-- The arguments that the server loads. -/
def copies (memory : Memory) : List Arg → List Nat → Loading → List Arg × Loading
  | [], _, l => ([], l)
  | arg :: args, apObj, l =>
      let first := Arg.copied memory apObj l arg
      let rest := copies memory args (tableAfter apObj arg) first.2
      (first.1 :: rest.1, rest.2)

theorem tableAfter_length (arg : Arg) : (tableAfter apObj arg).length ≤ apObj.length + 1 := by
  rw [tableAfter]
  split
  · exact Nat.le_succ _
  split
  · rw [List.length_append, List.length_singleton]
  · exact Nat.le_succ _

theorem loadArgs_saveArgs (maxClass : classes.length ≤ 128) (args : List Arg)
    (tabled : Tabled memory apObj l) (small : apObj.length + args.length < 2 ^ 31 - 1)
    (valid : ∀ arg ∈ args, Arg.Valid classes memory arg) (rest : Bytes) :
    loadArgs classes (args.map Arg.type)
        { l with stream := saveArgs classes memory args apObj ++ rest } =
      some ((copies memory args apObj l).1, { (copies memory args apObj l).2 with stream := rest })
    := by
  induction args generalizing apObj l with
  | nil => rfl
  | cons arg args ih =>
      simp only [List.length_cons] at small
      have first := load_save tabled (by omega) maxClass (valid arg (by simp))
        (saveArgs classes memory args (tableAfter apObj arg) ++ rest)
      have table : (tableAfter apObj arg).length ≤ apObj.length + 1 := tableAfter_length arg
      have others := ih (tabled_copied tabled arg) (by omega)
        (fun arg member => valid arg (List.mem_cons_of_mem _ member))
      simp only [List.map_cons, loadArgs, saveArgs, save_table, List.append_assoc, first,
        Option.bind_eq_bind, Option.bind_some, others]
      rfl

/-- An argument and what the server has of it. -/
def Copy (memory memory' : Memory) (arg arg' : Arg) : Prop :=
  ∃ place, arg' = Arg.move place arg ∧ ∀ a, arg.place? = some a → memory' place = memory a

theorem move_of_none {arg : Arg} (none : arg.place? = none) (place : Nat) :
    Arg.move place arg = arg := by
  cases arg <;> simp_all [Arg.move, Arg.place?]

theorem copy_copied (tabled : Tabled memory apObj l) (arg : Arg) :
    ∃ place, (Arg.copied memory apObj l arg).1 = Arg.move place arg ∧
      ∀ a, arg.place? = some a → place < (Arg.copied memory apObj l arg).2.created ∧
        (Arg.copied memory apObj l arg).2.memory place = memory a := by
  cases copying memory apObj l arg with
  | without none copied table =>
      rw [copied, none]
      exact ⟨0, (move_of_none none 0).symm, nofun⟩
  | primitive a here kind copied table =>
      rw [copied]
      refine ⟨l.created, rfl, fun b here' => ?_⟩
      obtain rfl := Option.some.inj (here.symm.trans here')
      exact ⟨Nat.lt_succ_self _, create_memory _⟩
  | indexed a i here kind found copied table =>
      obtain ⟨place, entry, within, same⟩ := tabled.at found
      rw [copied]
      refine ⟨place, ?_, fun b here' => ?_⟩
      · rw [List.getD_eq_getElem?_getD, entry, Option.getD_some]
      · obtain rfl := Option.some.inj (here.symm.trans here')
        exact ⟨within, same⟩
  | object a here kind new copied table =>
      rw [copied]
      refine ⟨l.created, rfl, fun b here' => ?_⟩
      obtain rfl := Option.some.inj (here.symm.trans here')
      exact ⟨Nat.lt_succ_self _, create_memory (l := { l with apObj := l.apObj ++ [l.created] }) _⟩

variable (memory apObj l) in
theorem created_copies (args : List Arg) : l.created ≤ (copies memory args apObj l).2.created ∧
    ∀ place < l.created, (copies memory args apObj l).2.memory place = l.memory place := by
  induction args generalizing apObj l with
  | nil => exact ⟨le_rfl, fun _ _ => rfl⟩
  | cons arg args ih =>
      obtain ⟨first, kept⟩ := created_copied memory apObj l arg
      obtain ⟨others, kept'⟩ := ih (tableAfter apObj arg) (Arg.copied memory apObj l arg).2
      exact ⟨first.trans others, fun place before =>
        (kept' place (before.trans_le first)).trans (kept place before)⟩

theorem copy_copies (tabled : Tabled memory apObj l) (args : List Arg) :
    List.Forall₂ (Copy memory (copies memory args apObj l).2.memory) args
      (copies memory args apObj l).1 := by
  induction args generalizing apObj l with
  | nil => exact .nil
  | cons arg args ih =>
      refine .cons ?_ (ih (tabled_copied tabled arg))
      obtain ⟨place, moved, same⟩ := copy_copied tabled arg
      refine ⟨place, moved, fun a here => ?_⟩
      obtain ⟨within, same⟩ := same a here
      exact ((created_copies _ _ _ args).2 place within).trans same

def objects (args : List Arg) : List Nat :=
  args.filterMap fun arg => if Arg.isObject arg = true then arg.place? else none

def places (args : List Arg) : List Nat := args.filterMap Arg.place?

theorem places_cons_some {arg : Arg} {a : Nat} (here : arg.place? = some a) (args : List Arg) :
    places (arg :: args) = a :: places args := by
  rw [places, List.filterMap_cons_some here]
  rfl

theorem places_cons_none {arg : Arg} (none : arg.place? = none) (args : List Arg) :
    places (arg :: args) = places args := by
  rw [places, List.filterMap_cons_none none]
  rfl

theorem objects_cons (arg : Arg) (args : List Arg) : objects (arg :: args) =
    (if Arg.isObject arg = true then arg.place?.toList else []) ++ objects args := by
  cases kind : Arg.isObject arg <;> cases here : arg.place? <;> simp [objects, kind, here]

theorem place_move {arg : Arg} {a : Nat} (here : arg.place? = some a) (place : Nat) :
    (Arg.move place arg).place? = some place := by
  cases arg <;> simp_all [Arg.move, Arg.place?]

/-- A place is made for every variable, unless an object is given twice. -/
theorem separate_iff (args : List Arg) (unique : apObj.Nodup) :
    (copies memory args apObj l).2.created ≤ l.created + (places args).length ∧
    ((copies memory args apObj l).2.created = l.created + (places args).length ↔
      (apObj ++ objects args).Nodup) := by
  induction args generalizing apObj l with
  | nil => simpa [copies, places, objects] using unique
  | cons arg args ih =>
      rw [copies, objects_cons]
      cases copying memory apObj l arg with
      | without none copied table =>
          rw [copied, table, places_cons_none none, none]
          simpa using ih unique
      | primitive a here kind copied table =>
          have others := ih (l := create l (memory a)) unique
          rw [create_created] at others
          rw [copied, table, places_cons_some here, kind, List.length_cons]
          simpa [Nat.add_assoc, Nat.add_comm 1] using others
      | indexed a i here kind found copied table =>
          obtain ⟨bound, -⟩ := ih (l := l) unique
          rw [copied, table, places_cons_some here, kind, List.length_cons]
          simp only
          refine ⟨by omega, iff_of_false (by omega) fun nodup => ?_⟩
          exact (List.nodup_append.mp nodup).2.2 a (mem_of_idxOf? found) a (by simp [here]) rfl
      | object a here kind new copied table =>
          have unique' : (apObj ++ [a]).Nodup :=
            List.nodup_append.mpr ⟨unique, List.pairwise_singleton _ a, by
              intro b member c same
              obtain rfl := List.mem_singleton.mp same
              exact ne_of_mem_of_not_mem member new⟩
          have others := ih (l := create { l with apObj := l.apObj ++ [l.created] } (memory a)) unique'
          rw [create_created] at others
          rw [copied, table, places_cons_some here, kind, List.length_cons]
          simpa [here, Nat.add_assoc, Nat.add_comm 1] using others

theorem places_copies (args : List Arg) (separate : (apObj ++ objects args).Nodup) :
    places (copies memory args apObj l).1 = List.range' l.created (places args).length := by
  induction args generalizing apObj l with
  | nil => rfl
  | cons arg args ih =>
      rw [objects_cons] at separate
      rw [copies]
      cases copying memory apObj l arg with
      | without none copied table =>
          rw [none] at separate
          rw [copied, table, places_cons_none none, places_cons_none none]
          exact ih (by simpa using separate)
      | primitive a here kind copied table =>
          rw [kind] at separate
          rw [copied, table, places_cons_some here, places_cons_some (place_move here _),
            List.length_cons, List.range'_succ]
          exact congrArg _ (ih (l := create l (memory a)) (by simpa using separate))
      | indexed a i here kind found copied table =>
          rw [kind, here] at separate
          exact absurd rfl ((List.nodup_append.mp separate).2.2 a (mem_of_idxOf? found) a (by simp))
      | object a here kind new copied table =>
          rw [kind, here] at separate
          rw [copied, table, places_cons_some here, places_cons_some (place_move here _),
            List.length_cons, List.range'_succ]
          exact congrArg _ (ih (by simpa using separate))

end Cgsf.Proof.RPC
