import Cgsf.Proof.RPC.Args
import Cgsf.RPC.ServiceMethod

/-!
# What goes back to the client

The server saves what the method left in its copies, argument for argument, and then the result. The
client loads into its own variables.
-/

namespace Cgsf.Proof.RPC
open Cgsf.RPC Cgsf.RPC.CPstream Cgsf.Proof.RPC.CPstream

variable {classes : List Persistence} {memory memory' : Memory} {σ : Type}

/-- The arguments of the call as views of variables that are all different. -/
def apart (memory : Memory) (args : List Arg) : List View :=
  args.mapIdx fun k arg => arg.view (fun _ => k) memory

/-- What the server saves for variables with these contents, one for each argument. -/
def updates (classes : List Persistence) (memory : Memory) (contents : Nat → Bytes) :
    List Arg → Bytes
  | [] => []
  | arg :: args =>
      arg.saveUpdate classes (fun a => { memory a with image := contents 0 }) ++
        updates classes memory (fun k => contents (k + 1)) args

/-- The contents written back, one argument after the other. -/
def writeBack (memory : Memory) (contents : Nat → Bytes) : List Arg → Memory
  | [] => memory
  | arg :: args =>
      writeBack
        (match arg.place? with
          | none => memory
          | some a => memory.write a (contents 0))
        (fun k => contents (k + 1)) args

theorem takes_view {arg : Arg} (valid : Arg.Valid classes memory arg) (first : Nat → Nat) :
    arg.type.Takes classes (arg.view first memory) := by
  cases arg with
  | value type a => exact ⟨type, rfl, valid⟩
  | primitiveRef type a => exact valid a rfl
  | primitivePtr type a =>
      cases a with
      | none => rfl
      | some a => exact valid a rfl
  | objectRef derived a => exact valid a rfl
  | objectPtr derived a =>
      cases a with
      | none => rfl
      | some a => exact valid a rfl
  | charPtr a =>
      cases a with
      | none => rfl
      | some a => exact valid a rfl

theorem valid_of_takes {arg : Arg} {first : Nat → Nat}
    (takes : arg.type.Takes classes (arg.view first memory)) : Arg.Valid classes memory arg := by
  cases arg with
  | value type a =>
      obtain ⟨type', same, valid⟩ := takes
      obtain rfl := ParamType.value.inj same
      exact valid
  | primitiveRef type a =>
      rintro _ ⟨⟩
      exact takes
  | primitivePtr type a =>
      rintro a ⟨⟩
      exact takes
  | objectRef derived a =>
      rintro _ ⟨⟩
      exact takes
  | objectPtr derived a =>
      rintro a ⟨⟩
      exact takes
  | charPtr a =>
      rintro a ⟨⟩
      exact takes

theorem view_move {arg : Arg} {first first' : Nat → Nat} {place : Nat}
    (same : ∀ a, arg.place? = some a → first' place = first a ∧ memory' place = memory a) :
    (Arg.move place arg).view first' memory' = arg.view first memory := by
  cases arg with
  | value type a => rfl
  | primitiveRef type a => simp [Arg.move, Arg.view, same a rfl]
  | primitivePtr type a =>
      cases a with
      | none => rfl
      | some a => simp [Arg.move, Arg.view, same a rfl]
  | objectRef derived a => simp [Arg.move, Arg.view, same a rfl]
  | objectPtr derived a =>
      cases a with
      | none => rfl
      | some a => simp [Arg.move, Arg.view, same a rfl]
  | charPtr a =>
      cases a with
      | none => rfl
      | some a => simp [Arg.move, Arg.view, same a rfl]

theorem saveUpdate_move {arg : Arg} {place : Nat} {cell : Nat → Cell}
    (same : ∀ a, arg.place? = some a → memory' place = cell a) :
    (Arg.move place arg).saveUpdate classes memory' = arg.saveUpdate classes cell := by
  cases arg with
  | value type a => rfl
  | primitiveRef type a => simp [Arg.move, Arg.saveUpdate, same a rfl]
  | primitivePtr type a =>
      cases a with
      | none => rfl
      | some a => simp [Arg.move, Arg.saveUpdate, same a rfl]
  | objectRef derived a => simp [Arg.move, Arg.saveUpdate, same a rfl]
  | objectPtr derived a =>
      cases a with
      | none => rfl
      | some a => simp [Arg.move, Arg.saveUpdate, same a rfl]
  | charPtr a =>
      cases a with
      | none => rfl
      | some a => simp [Arg.move, Arg.saveUpdate, savePointer, same a rfl]

/-- A variable that is given once is the first one at its own position. -/
theorem firstAt_eq {args : List Arg} (once : (places args).Nodup) {k : Nat} {arg : Arg}
    (at_k : args[k]? = some arg) {a : Nat} (here : arg.place? = some a) : firstAt args a = k := by
  induction args generalizing k with
  | nil => simp at at_k
  | cons head args ih =>
      cases k with
      | zero =>
          obtain rfl := Option.some.inj at_k
          simp [firstAt, here]
      | succ k =>
          have member : arg ∈ args := List.mem_of_getElem? (by simpa using at_k)
          have inside : a ∈ places args := List.mem_filterMap.mpr ⟨arg, member, here⟩
          have other : head.place? ≠ some a := by
            intro same
            rw [places_cons_some same] at once
            exact (List.nodup_cons.mp once).1 inside
          have rest : (places args).Nodup := by
            cases place : head.place? with
            | none => rwa [places_cons_none place] at once
            | some b =>
                rw [places_cons_some place] at once
                exact (List.nodup_cons.mp once).2
          have step := ih rest (by simpa using at_k)
          rw [firstAt] at step ⊢
          rw [List.map_cons, List.idxOf_cons_ne _ other, step]

theorem view_of_place {arg : Arg} {a : Nat} (here : arg.place? = some a) (first : Nat → Nat) :
    arg.view first memory = .cell (first a) (memory a) := by
  cases arg with
  | value type a => cases here
  | primitiveRef type a =>
      obtain rfl := Option.some.inj here
      rfl
  | primitivePtr type a =>
      obtain rfl := here
      rfl
  | objectRef derived a =>
      obtain rfl := Option.some.inj here
      rfl
  | objectPtr derived a =>
      obtain rfl := here
      rfl
  | charPtr a =>
      obtain rfl := here
      rfl

theorem place_of_view {arg : Arg} {first : Nat → Nat} {k : Nat} {content : Cell}
    (view : arg.view first memory = .cell k content) : ∃ a, arg.place? = some a := by
  cases here : arg.place? with
  | none => cases arg <;> simp_all [Arg.view, Arg.place?]
  | some a => exact ⟨a, rfl⟩

theorem coherent_views (memory : Memory) (args : List Arg) : Coherent (views memory args) := by
  intro k first content view
  rw [views, List.getElem?_map] at view ⊢
  obtain ⟨arg, at_k, view⟩ := Option.map_eq_some_iff.mp view
  obtain ⟨a, here⟩ := place_of_view view
  rw [view_of_place here] at view
  obtain ⟨rfl, rfl⟩ := View.cell.inj view
  have given : some a ∈ args.map Arg.place? :=
    List.mem_map.mpr ⟨arg, List.mem_of_getElem? at_k, here⟩
  have inside : firstAt args a < args.length := by
    rw [← List.length_map Arg.place?]
    exact List.idxOf_lt_length_of_mem given
  have there : args[firstAt args a].place? = some a := by
    have found := List.getElem_idxOf (List.idxOf_lt_length_of_mem given)
    rwa [List.getElem_map] at found
  rw [List.getElem?_eq_getElem inside, Option.map_some, view_of_place there]

theorem place_of_copy {arg arg' : Arg} (copy : Copy memory memory' arg arg') :
    ∃ place, arg' = Arg.move place arg ∧
      ∀ a, arg.place? = some a → arg'.place? = some place ∧ memory' place = memory a := by
  obtain ⟨place, rfl, same⟩ := copy
  exact ⟨place, rfl, fun a here => ⟨place_move here place, same a here⟩⟩

/-- The method cannot tell the copies from the variables of the client if these are different. -/
theorem views_copies {args args' : List Arg} (copies : List.Forall₂ (Copy memory memory') args args')
    (once : (places args').Nodup) : views memory' args' = apart memory args := by
  refine List.ext_getElem ?_ fun k inside inside' => ?_
  · simp [views, apart, copies.length_eq]
  · have inside : k < args'.length := by simpa [views] using inside
    have inside' : k < args.length := by simpa [apart] using inside'
    obtain ⟨place, moved, same⟩ := place_of_copy (copies.get inside' inside)
    simp only [List.get_eq_getElem] at moved same
    simp only [views, apart, List.getElem_map, List.getElem_mapIdx, moved]
    refine view_move fun a here => ?_
    obtain ⟨here', content⟩ := same a here
    exact ⟨firstAt_eq once (List.getElem?_eq_getElem inside) here', content⟩

theorem saveUpdates_eq {args args' : List Arg} (contents : Nat → Bytes)
    (length : args'.length = args.length)
    (copies : ∀ (k : Nat) (arg arg' : Arg), args[k]? = some arg → args'[k]? = some arg' →
      ∃ place, arg' = Arg.move place arg ∧
        ∀ a, arg.place? = some a → memory' place = { memory a with image := contents k }) :
    saveUpdates classes memory' args' = updates classes memory contents args := by
  induction args generalizing args' contents with
  | nil =>
      obtain rfl := List.eq_nil_of_length_eq_zero length
      rfl
  | cons arg args ih =>
      obtain ⟨arg', args', rfl⟩ := List.exists_cons_of_length_eq_add_one length
      obtain ⟨place, rfl, same⟩ := copies 0 arg arg' rfl rfl
      have others := ih (fun k => contents (k + 1)) (by simpa using length)
        (fun k arg arg' at_k at_k' => copies (k + 1) arg arg' (by simpa using at_k) (by simpa using at_k'))
      rw [saveUpdates, List.flatMap_cons, ← saveUpdates, others, updates, saveUpdate_move same]

/-- What the method leaves in the copies. -/
theorem outcome_copies {args args' : List Arg}
    (copies : List.Forall₂ (Copy memory memory') args args') (once : (places args').Nodup)
    (outcome : Outcome σ) {k : Nat} {arg arg' : Arg} (at_k : args[k]? = some arg)
    (at_k' : args'[k]? = some arg') :
    ∃ place, arg' = Arg.move place arg ∧ ∀ a, arg.place? = some a → memory' place = memory a ∧
      outcome.memory args' memory' place = { memory a with image := outcome.contents k } := by
  obtain ⟨inside, rfl⟩ := List.getElem?_eq_some_iff.mp at_k
  obtain ⟨inside', rfl⟩ := List.getElem?_eq_some_iff.mp at_k'
  obtain ⟨place, moved, same⟩ := place_of_copy (copies.get inside inside')
  simp only [List.get_eq_getElem] at moved same
  refine ⟨place, moved, fun a here => ?_⟩
  obtain ⟨here', content⟩ := same a here
  have given : some place ∈ args'.map Arg.place? :=
    List.mem_map.mpr ⟨args'[k], List.getElem_mem inside', here'⟩
  rw [Outcome.memory, if_pos given, content, firstAt_eq once at_k' here']
  exact ⟨rfl, rfl⟩

theorem saveUpdates_copies {args args' : List Arg}
    (copies : List.Forall₂ (Copy memory memory') args args') (once : (places args').Nodup)
    (outcome : Outcome σ) :
    saveUpdates classes (outcome.memory args' memory') args' =
      updates classes memory outcome.contents args := by
  refine saveUpdates_eq outcome.contents copies.length_eq.symm fun k arg arg' at_k at_k' => ?_
  obtain ⟨place, moved, same⟩ := outcome_copies copies once outcome at_k at_k'
  exact ⟨place, moved, fun a here => (same a here).2⟩

/-- A text overflows its copy if it is longer than the one that the client gave. -/
theorem any_overflows_iff {args args' : List Arg}
    (copies : List.Forall₂ (Copy memory memory') args args') (once : (places args').Nodup)
    (outcome : Outcome σ) :
    args'.any (overflows memory' (outcome.memory args' memory')) = false ↔
      ∀ (k : Nat) (a : Nat), args[k]? = some (.charPtr (some a)) →
        (outcome.contents k).length ≤ (memory a).image.length := by
  rw [List.any_eq_false]
  constructor
  · intro none k a at_k
    have inside : k < args'.length :=
      copies.length_eq ▸ (List.getElem?_eq_some_iff.mp at_k).1
    obtain ⟨place, moved, same⟩ := outcome_copies copies once outcome at_k
      (List.getElem?_eq_getElem inside)
    obtain ⟨before, after⟩ := same a rfl
    have fits := none args'[k] (List.getElem_mem inside)
    simpa [moved, Arg.move, overflows, before, after] using fits
  · intro texts arg' member
    obtain ⟨k, inside', rfl⟩ := List.getElem_of_mem member
    have inside : k < args.length := copies.length_eq.symm ▸ inside'
    obtain ⟨place, moved, same⟩ := outcome_copies copies once outcome
      (List.getElem?_eq_getElem inside) (List.getElem?_eq_getElem inside')
    rw [moved]
    cases arg : args[k] with
    | charPtr a =>
        cases a with
        | none => simp [Arg.move, overflows]
        | some a =>
            obtain ⟨before, after⟩ := same a (by rw [arg]; rfl)
            have fits := texts k a (by rw [List.getElem?_eq_getElem inside, arg])
            simpa [Arg.move, overflows, before, after] using fits
    | value type a => simp [Arg.move, overflows]
    | primitiveRef type a => simp [Arg.move, overflows]
    | primitivePtr type a => simp [Arg.move, overflows]
    | objectRef derived a => simp [Arg.move, overflows]
    | objectPtr derived a => simp [Arg.move, overflows]

@[simp] theorem write_cls (memory : Memory) (a : Nat) (image : Bytes) (b : Nat) :
    (memory.write a image b).cls = (memory b).cls := by
  by_cases same : b = a
  · rw [same, Memory.write, Function.update_self]
  · rw [Memory.write, Function.update_of_ne same]

theorem loadUpdate_saveUpdate {arg : Arg} {image : Bytes}
    (cls : ∀ a, (memory' a).cls = (memory a).cls)
    (valid : ∀ type a, arg = .value type a → type.Valid a)
    (holds : ∀ a, arg.place? = some a → arg.type.Holds classes { memory a with image })
    (rest : Bytes) :
    arg.loadUpdate classes memory'
        (arg.saveUpdate classes (fun a => { memory a with image }) ++ rest) =
      some (match arg.place? with
        | none => memory'
        | some a => memory'.write a image, rest) := by
  cases arg with
  | value type a =>
      have loaded := type.load_save a rest (valid type a rfl)
      simp [Arg.loadUpdate, Arg.saveUpdate, loaded, Arg.place?]
  | primitiveRef type a =>
      have loaded := type.load_save image rest (holds a rfl).2
      simp [Arg.loadUpdate, Arg.saveUpdate, loaded, Arg.place?]
  | primitivePtr type a =>
      cases a with
      | none => rfl
      | some a =>
          have loaded := type.load_save image rest (holds a rfl).2
          simp [Arg.loadUpdate, Arg.saveUpdate, loaded, Arg.place?]
  | objectRef derived a =>
      obtain ⟨-, type, known, valid⟩ := holds a rfl
      have loaded := loadBody_saveBody known valid rest
      simp only at loaded
      simp [Arg.loadUpdate, Arg.saveUpdate, cls, loaded, Arg.place?]
  | objectPtr derived a =>
      cases a with
      | none => rfl
      | some a =>
          obtain ⟨-, type, known, valid⟩ := holds a rfl
          have loaded := loadBody_saveBody known valid rest
          simp only at loaded
          simp [Arg.loadUpdate, Arg.saveUpdate, cls, loaded, Arg.place?]
  | charPtr a =>
      cases a with
      | none => simp [Arg.loadUpdate, Arg.saveUpdate, savePointer, Arg.place?]
      | some a =>
          have loaded := Persistence.chars.load_save image rest (holds a rfl).2
          simp [Arg.loadUpdate, Arg.saveUpdate, savePointer, loaded, Arg.place?]

/-- What the client loads is what the server saved, argument for argument. -/
theorem loadUpdates_updates {args : List Arg} (contents : Nat → Bytes)
    (cls : ∀ a, (memory' a).cls = (memory a).cls)
    (valid : ∀ arg ∈ args, ∀ type a, arg = .value type a → type.Valid a)
    (holds : ∀ (k : Nat) (arg : Arg) (a : Nat), args[k]? = some arg → arg.place? = some a →
      arg.type.Holds classes { memory a with image := contents k }) (rest : Bytes) :
    loadUpdates classes memory' (updates classes memory contents args ++ rest) args =
      some (writeBack memory' contents args, rest) := by
  induction args generalizing memory' contents with
  | nil => rfl
  | cons arg args ih =>
      have first := loadUpdate_saveUpdate cls (valid arg (List.mem_cons_self ..))
        (holds 0 arg · rfl) (updates classes memory (fun k => contents (k + 1)) args ++ rest)
      rw [loadUpdates, updates, List.append_assoc, first]
      refine ih (fun k => contents (k + 1)) ?_
        (fun arg member => valid arg (List.mem_cons_of_mem _ member))
        (fun k arg a at_k => holds (k + 1) arg a (by simpa using at_k))
      intro b
      cases arg.place? with
      | none => exact cls b
      | some a => exact (write_cls memory' a (contents 0) b).trans (cls b)

/-- The pointer or the reference is to an object that was made for it. -/
def HandedOver : Result → Prop
  | .void | .value _ | .null | .fresh _ => True
  | .param _ | .own _ => False

/-- What the server saves for a result. -/
def resultBytes (classes : List Persistence) (ret : Option ParamType) (result : Option Result) :
    Bytes :=
  saveResult classes (fun _ => {}) [] 0 ret result

theorem saveResult_eq (ret : Option ParamType) {result : Option Result}
    (handed : ∀ r, result = some r → HandedOver r) (args : List Arg) (created : Nat) :
    saveResult classes memory args created ret result = resultBytes classes ret result := by
  cases ret with
  | none => rfl
  | some t =>
      cases result with
      | none => rfl
      | some r =>
          cases r with
          | void => cases t <;> rfl
          | value a => cases t <;> rfl
          | null => cases t <;> rfl
          | fresh content =>
              cases t <;>
                simp [saveResult, resultBytes, Result.arg, Result.place?, Result.put, Arg.save,
                  saveObject, savePointer]
          | param k => exact (handed _ rfl).elim
          | own content => exact (handed _ rfl).elim

theorem ref_copied {arg : Arg} {a : Nat} (here : arg.place? = some a) (stream : Bytes) :
    Proxy.ref (Arg.copied memory [] { stream } arg).2.memory
      (Arg.copied memory [] { stream } arg).1 = .fresh (memory a) := by
  have tabled : Tabled memory [] { stream } := .nil
  obtain ⟨place, moved, same⟩ := copy_copied tabled arg
  rw [Proxy.ref, moved, view_of_place (place_move here place), (same a here).2]

/-- A result that is handed over, as an argument of the server, and what the client makes of it. -/
theorem arg_of_handedOver {t : ParamType} {result : Result} (handed : HandedOver result)
    {views : List View} (typed : t.Returns classes views result) :
    ∃ arg, result.arg [] 0 t = some arg ∧ arg.type = t ∧
      Arg.Valid classes (result.put (fun _ => {}) 0) arg ∧
      Proxy.ref (Arg.copied (result.put (fun _ => {}) 0) [] { stream := [] } arg).2.memory
        (Arg.copied (result.put (fun _ => {}) 0) [] { stream := [] } arg).1 = result := by
  cases result with
  | void => exact typed.elim
  | value a =>
      obtain ⟨type, rfl, valid⟩ := typed
      exact ⟨.value type a, rfl, rfl, valid, rfl⟩
  | null =>
      cases t with
      | value type => cases typed
      | primitiveRef type => cases typed
      | primitivePtr type => exact ⟨.primitivePtr type none, rfl, rfl, nofun, rfl⟩
      | objectRef derived => cases typed
      | objectPtr derived => exact ⟨.objectPtr derived none, rfl, rfl, nofun, rfl⟩
      | charPtr => exact ⟨.charPtr none, rfl, rfl, nofun, rfl⟩
  | fresh content =>
      have there : (Result.fresh content).put (fun _ => {}) 0 0 = content := by
        simp [Result.put]
      have holds : ∀ a, some 0 = some a →
          t.Holds classes ((Result.fresh content).put (fun _ => {}) 0 a) := by
        rintro _ ⟨⟩
        rw [there]
        exact typed
      have back (arg : Arg) (here : arg.place? = some 0) :=
        (@ref_copied ((Result.fresh content).put (fun _ => {}) 0) arg 0 here []).trans
          (congrArg Result.fresh there)
      cases t with
      | value type => exact typed.elim
      | primitiveRef type => exact ⟨.primitiveRef type 0, rfl, rfl, holds, back _ rfl⟩
      | primitivePtr type => exact ⟨.primitivePtr type (some 0), rfl, rfl, holds, back _ rfl⟩
      | objectRef derived => exact ⟨.objectRef derived 0, rfl, rfl, holds, back _ rfl⟩
      | objectPtr derived => exact ⟨.objectPtr derived (some 0), rfl, rfl, holds, back _ rfl⟩
      | charPtr => exact ⟨.charPtr (some 0), rfl, rfl, holds, back _ rfl⟩
  | param k => exact handed.elim
  | own content => exact handed.elim

theorem loadResult_resultBytes (maxClass : classes.length ≤ 128) {ret : Option ParamType}
    {result : Result} (handed : HandedOver result) {views : List View}
    (typed : match ret with
      | none => result = .void
      | some t => t.Returns classes views result) :
    Proxy.loadResult classes ret (resultBytes classes ret (some result)) = some (result, []) := by
  cases ret with
  | none =>
      obtain rfl : result = .void := typed
      rfl
  | some t =>
      obtain ⟨arg, made, rfl, valid, back⟩ := arg_of_handedOver handed typed
      have tabled : Tabled (result.put (fun _ => {}) 0) [] { stream := [] } := .nil
      have loaded := load_save tabled (by simp) maxClass valid []
      rw [List.append_nil] at loaded
      rw [Proxy.loadResult, resultBytes, saveResult, made]
      simp only [loaded, Option.map_some, back]

end Cgsf.Proof.RPC
