import Mathlib.Algebra.Order.BigOperators.Group.List
import Mathlib.Algebra.Order.Group.Abs
import Mathlib.Algebra.Order.Ring.Int
import Mathlib.Algebra.Order.Ring.Nat
import Mathlib.Data.List.Perm.Basic
import Mathlib.Data.List.TakeWhile
import Cgsf.Library.Transition
import Cgsf.MOGame.MapComposite

/-!
# The zones of a map

A zone keeps its three kinds of entities apart. Where one of them gets or loses an entity, one
entity of each kind behind it changes its place.
-/

namespace Cgsf.Proof.MOGame.MapComposite
open Cgsf.MOGame Library

variable {E : Type} {type : E → EntityType}

/-! ## A zone -/

def isCharacter (type : EntityType) : Bool := type = .character

def isMover (type : EntityType) : Bool := type = .monster ∨ type = .npc

def isFixed (type : EntityType) : Bool := !type.canMove

def ofKind (type : E → EntityType) (kind : EntityType → Bool) (members : List E) : List E :=
  members.filter fun e => kind (type e)

theorem ofKind_cons_pos {kind : EntityType → Bool} {e : E} (yes : kind (type e) = true)
    (members : List E) : ofKind type kind (e :: members) = e :: ofKind type kind members :=
  List.filter_cons_of_pos (p := fun e => kind (type e)) yes

theorem ofKind_cons_neg {kind : EntityType → Bool} {e : E} (no : kind (type e) = false)
    (members : List E) : ofKind type kind (e :: members) = ofKind type kind members :=
  List.filter_cons_of_neg (p := fun e => kind (type e)) (by simp [no])

structure Layout (z : MapZone E) (characters movers fixed : List E) : Prop where
  objects : z.objects = characters ++ movers ++ fixed
  nbCharacters : z.nbCharacters = characters.length
  nbMovingObjects : z.nbMovingObjects = characters.length + movers.length

/-- The entities of a zone, kind by kind. -/
def Holds (type : E → EntityType) (z : MapZone E) (members : List E) : Prop :=
  ∃ characters movers fixed, Layout z characters movers fixed ∧
    characters.Perm (ofKind type isCharacter members) ∧
    movers.Perm (ofKind type isMover members) ∧ fixed.Perm (ofKind type isFixed members)

theorem set_length (before after : List E) (x y : E) :
    (before ++ x :: after).set before.length y = before ++ y :: after := by
  rw [List.set_append_right _ _ le_rfl, Nat.sub_self, List.set_cons_zero]

theorem getElem?_length (before after : List E) (x : E) :
    (before ++ x :: after)[before.length]? = some x := by
  rw [List.getElem?_append_right le_rfl, Nat.sub_self, List.getElem?_cons_zero]

/-- The first of the entities behind the place of a new one goes to the end. -/
theorem push_set (before after : List E) (first e : E) :
    (before ++ first :: after ++ [first]).set before.length e = before ++ e :: (after ++ [first]) := by
  rw [List.append_assoc, List.cons_append, set_length]

theorem insertMoving_spec {z : MapZone E} {before fixed : List E}
    (objects : z.objects = before ++ fixed) (count : z.nbMovingObjects = before.length) (e : E) :
    ∃ fixed', z.insertMoving e = some { z with
        objects := before ++ e :: fixed', nbMovingObjects := z.nbMovingObjects + 1 } ∧
      fixed'.Perm fixed := by
  rw [MapZone.insertMoving, objects, count]
  cases fixed with
  | nil =>
      rw [List.append_nil, if_neg (not_not.mpr rfl)]
      exact ⟨[], rfl, .nil⟩
  | cons first rest =>
      rw [if_pos (by rw [List.length_append, List.length_cons]; omega), getElem?_length]
      refine ⟨rest ++ [first], ?_, List.perm_append_singleton _ _⟩
      rw [Option.bind_eq_bind, Option.bind_some, push_set]
      rfl

section changed

variable {z : MapZone E} {characters movers fixed : List E} {e : E}

theorem Layout.insert_character (layout : Layout z characters movers fixed)
    (kind : type e = .character) :
    ∃ z' movers' fixed', z.insert type e = some z' ∧ z'.destinations = z.destinations ∧
      Layout z' (characters ++ [e]) movers' fixed' ∧ movers'.Perm movers ∧ fixed'.Perm fixed := by
  obtain ⟨objects, nbCharacters, nbMovingObjects⟩ := layout
  rw [MapZone.insert, kind]
  dsimp only
  cases movers with
  | nil =>
      rw [if_neg (by rw [nbCharacters, nbMovingObjects]; exact not_not.mpr rfl)]
      rw [List.append_nil] at objects
      obtain ⟨fixed', inserted, same⟩ := insertMoving_spec
        (z := { z with nbCharacters := z.nbCharacters + 1 }) objects nbMovingObjects e
      refine ⟨_, [], fixed', inserted, rfl, ⟨?_, ?_, ?_⟩, .nil, same⟩
      · rw [List.append_nil, List.append_assoc]
        rfl
      · rw [List.length_append, nbCharacters]
        rfl
      · rw [List.length_append, nbMovingObjects]
        rfl
  | cons first rest =>
      have moving : z.objects[z.nbCharacters]? = some first := by
        rw [objects, nbCharacters, List.append_assoc, List.cons_append, getElem?_length]
      have length : (characters ++ first :: rest).length = z.nbMovingObjects := by
        rw [List.length_append, nbMovingObjects]
      rw [if_pos (by rw [nbCharacters, nbMovingObjects, List.length_cons]; omega), moving,
        Option.bind_eq_bind, Option.bind_some]
      cases fixed with
      | nil =>
          rw [List.append_nil] at objects
          rw [if_neg (by rw [objects, length]; exact not_not.mpr rfl)]
          refine ⟨_, rest ++ [first], [], rfl, rfl, ⟨?_, ?_, ?_⟩, List.perm_append_singleton _ _, .nil⟩
          · dsimp only
            rw [objects, nbCharacters, push_set, List.append_nil, List.append_assoc]
            rfl
          · rw [List.length_append, nbCharacters]
            rfl
          · dsimp only
            rw [nbMovingObjects, List.length_append, List.length_append, List.length_cons,
              List.length_singleton, List.length_singleton]
            omega
      | cons next others =>
          have there : z.objects[z.nbMovingObjects]? = some next := by
            rw [objects, ← length, getElem?_length]
          rw [if_pos (by rw [objects, List.length_append, length, List.length_cons]; omega), there]
          refine ⟨_, rest ++ [first], others ++ [next], rfl, rfl, ⟨?_, ?_, ?_⟩,
            List.perm_append_singleton _ _, List.perm_append_singleton _ _⟩
          · dsimp only
            rw [objects, ← length, push_set, nbCharacters, List.append_assoc, List.cons_append,
              set_length]
            simp only [List.append_assoc, List.cons_append, List.nil_append]
          · rw [List.length_append, nbCharacters]
            rfl
          · dsimp only
            rw [nbMovingObjects, List.length_append, List.length_append, List.length_cons,
              List.length_singleton, List.length_singleton]
            omega

theorem Layout.insert_mover (layout : Layout z characters movers fixed)
    (kind : isMover (type e) = true) :
    ∃ z' fixed', z.insert type e = some z' ∧ z'.destinations = z.destinations ∧
      Layout z' characters (movers ++ [e]) fixed' ∧ fixed'.Perm fixed := by
  obtain ⟨objects, nbCharacters, nbMovingObjects⟩ := layout
  obtain ⟨fixed', inserted, same⟩ := insertMoving_spec objects
    (nbMovingObjects.trans List.length_append.symm) e
  refine ⟨_, fixed', .trans ?_ inserted, rfl, ⟨?_, nbCharacters, ?_⟩, same⟩
  · rw [MapZone.insert]
    rcases of_decide_eq_true kind with kind | kind <;> rw [kind]
  · simp only [List.append_assoc, List.cons_append, List.nil_append]
  · dsimp only
    rw [nbMovingObjects, List.length_append]
    rfl

theorem Layout.insert_fixed (layout : Layout z characters movers fixed)
    (kind : isFixed (type e) = true) :
    ∃ z', z.insert type e = some z' ∧ z'.destinations = z.destinations ∧
      Layout z' characters movers (fixed ++ [e]) := by
  obtain ⟨objects, nbCharacters, nbMovingObjects⟩ := layout
  refine ⟨{ z with objects := z.objects ++ [e] }, ?_, rfl, ?_, nbCharacters, nbMovingObjects⟩
  · rw [MapZone.insert]
    cases same : type e <;> rw [same] at kind <;> first | rfl | exact absurd kind (by decide)
  · dsimp only
    rw [objects, List.append_assoc]

/-- Every entity is of one kind. -/
theorem kind_cases (t : EntityType) :
    t = .character ∧ isCharacter t = true ∧ isMover t = false ∧ isFixed t = false ∨
      isMover t = true ∧ isCharacter t = false ∧ isFixed t = false ∨
      isFixed t = true ∧ isCharacter t = false ∧ isMover t = false := by
  cases t <;> decide

theorem Holds.insert {members : List E} (holds : Holds type z members) (e : E) :
    ∃ z', z.insert type e = some z' ∧ z'.destinations = z.destinations ∧
      Holds type z' (e :: members) := by
  obtain ⟨characters, movers, fixed, layout, first, second, third⟩ := holds
  rcases kind_cases (type e) with ⟨kind, yes, no, no'⟩ | ⟨kind, no, no'⟩ | ⟨kind, no, no'⟩
  · obtain ⟨z', movers', fixed', inserted, same, layout, moved, others⟩ :=
      layout.insert_character kind
    refine ⟨z', inserted, same, _, _, _, layout, ?_, ?_, ?_⟩
    · rw [ofKind_cons_pos yes]
      exact (List.perm_append_singleton _ _).trans (first.cons e)
    · rw [ofKind_cons_neg no]
      exact moved.trans second
    · rw [ofKind_cons_neg no']
      exact others.trans third
  · obtain ⟨z', fixed', inserted, same, layout, others⟩ := layout.insert_mover kind
    refine ⟨z', inserted, same, _, _, _, layout, ?_, ?_, ?_⟩
    · rwa [ofKind_cons_neg no]
    · rw [ofKind_cons_pos kind]
      exact (List.perm_append_singleton _ _).trans (second.cons e)
    · rw [ofKind_cons_neg no']
      exact others.trans third
  · obtain ⟨z', inserted, same, layout⟩ := layout.insert_fixed kind
    refine ⟨z', inserted, same, _, _, _, layout, ?_, ?_, ?_⟩
    · rwa [ofKind_cons_neg no]
    · rwa [ofKind_cons_neg no']
    · rw [ofKind_cons_pos kind]
      exact (List.perm_append_singleton _ _).trans (third.cons e)

/-- The last of the entities behind a hole is put into it, and the hole goes there. -/
theorem fill (before : List E) (hole : E) (rest after : List E) :
    ∃ last rest' hole', (before ++ hole :: (rest ++ after))[before.length + rest.length]? = some last ∧
      (before ++ hole :: (rest ++ after)).set before.length last =
        (before ++ rest') ++ hole' :: after ∧ rest'.Perm rest := by
  rcases List.eq_nil_or_concat' rest with rfl | ⟨others, last, rfl⟩
  · exact ⟨hole, [], hole, getElem?_length _ _ _, by rw [set_length]; simp, .nil⟩
  · refine ⟨last, last :: others, last, ?_, ?_, (List.perm_append_singleton _ _).symm⟩
    · have place : before.length + (others ++ [last]).length = (before ++ hole :: others).length := by
        simp
      have shape : before ++ hole :: ((others ++ [last]) ++ after) =
          (before ++ hole :: others) ++ last :: after := by simp
      rw [place, shape, getElem?_length]
    · rw [set_length]
      simp

/-- The last step: what is in the hole goes away. -/
theorem drop_hole (before : List E) (hole : E) (rest : List E) :
    ∃ last rest', (before ++ hole :: rest)[(before ++ hole :: rest).length - 1]? = some last ∧
      ((before ++ hole :: rest).set before.length last).dropLast = before ++ rest' ∧
      rest'.Perm rest := by
  obtain ⟨last, rest', hole', found, filled, same⟩ := fill before hole rest []
  rw [List.append_nil] at found filled
  refine ⟨last, rest', ?_, ?_, same⟩
  · have place : (before ++ hole :: rest).length - 1 = before.length + rest.length := by
      rw [List.length_append, List.length_cons]
      rfl
    rwa [place]
  · rw [filled, List.dropLast_concat]

theorem fillHole_fill (before : List E) (hole : E) (rest after : List E) :
    ∃ rest' hole', MapZone.fillHole (before ++ hole :: (rest ++ after)) before.length
        (before.length + rest.length + 1) =
          some ((before ++ rest') ++ hole' :: after, (before ++ rest').length,
            before.length + rest.length) ∧
      rest'.Perm rest := by
  obtain ⟨last, rest', hole', found, filled, same⟩ := fill before hole rest after
  refine ⟨rest', hole', ?_, same⟩
  rw [MapZone.fillHole, if_pos (by omega), Nat.add_sub_cancel, found, Option.bind_eq_bind,
    Option.bind_some, filled, List.length_append, same.length_eq]
  rfl

variable [DecidableEq E]

theorem idxOf?_split {members : List E} (member : e ∈ members) :
    ∃ before after, members = before ++ e :: after ∧ members.idxOf? e = some before.length ∧
      members.erase e = before ++ after := by
  obtain ⟨before, after, rfl, new⟩ := List.eq_append_cons_of_mem member
  refine ⟨before, after, rfl, ?_, ?_⟩
  · refine List.idxOf?_eq_some_iff.mpr ⟨by simp, by simp, fun j less => ?_⟩
    rw [List.getElem_append_left less]
    have other : before[j] ≠ e := fun same => new (same ▸ List.getElem_mem less)
    simpa using other
  · rw [List.erase_append_right _ new, List.erase_cons_head]

theorem remove_run {first last offset pos nbCharacters pos' nbMovingObjects : Nat}
    {objects objects' : List E} {other : E} (bounds : z.bounds type e = (first, last))
    (index : ((z.objects.take last).drop first).idxOf? e = some offset)
    (one : MapZone.fillHole z.objects (first + offset) z.nbCharacters =
      some (objects, pos, nbCharacters))
    (two : MapZone.fillHole objects pos z.nbMovingObjects = some (objects', pos', nbMovingObjects))
    (found : objects'[objects'.length - 1]? = some other) :
    z.remove type e = some { z with
      objects := (objects'.set pos' other).dropLast, nbCharacters, nbMovingObjects } := by
  rw [MapZone.remove, bounds]
  simp only [index, one, two, found, Option.bind_eq_bind, Option.bind_some]
  rfl

theorem Layout.remove_character (layout : Layout z characters movers fixed)
    (kind : type e = .character) (member : e ∈ characters) :
    ∃ z' characters' movers' fixed', z.remove type e = some z' ∧ z'.destinations = z.destinations ∧
      Layout z' characters' movers' fixed' ∧ characters'.Perm (characters.erase e) ∧
      movers'.Perm movers ∧ fixed'.Perm fixed := by
  obtain ⟨objects, nbCharacters, nbMovingObjects⟩ := layout
  obtain ⟨before, after, rfl, index, erased⟩ := idxOf?_split member
  obtain ⟨after', hole, filled, same⟩ := fillHole_fill before e after (movers ++ fixed)
  obtain ⟨movers', hole', filled', same'⟩ := fillHole_fill (before ++ after') hole movers fixed
  obtain ⟨last, fixed', found, dropped, same''⟩ :=
    drop_hole ((before ++ after') ++ movers') hole' fixed
  have count : z.nbCharacters = before.length + after.length + 1 := by
    rw [nbCharacters, List.length_append, List.length_cons]
    rfl
  have count' : z.nbMovingObjects = (before ++ after').length + movers.length + 1 := by
    rw [nbMovingObjects, List.length_append, List.length_append, List.length_cons, same.length_eq]
    omega
  have shape : z.objects = before ++ e :: (after ++ (movers ++ fixed)) := by
    rw [objects]
    simp
  have searched : (z.objects.take z.nbCharacters).drop 0 = before ++ e :: after := by
    rw [objects, nbCharacters, List.append_assoc, List.take_left, List.drop_zero]
  have run := remove_run (show z.bounds type e = _ by rw [MapZone.bounds, kind])
    (searched ▸ index) (by rw [Nat.zero_add, shape, count, filled]) (by rw [count', filled']) found
  refine ⟨_, before ++ after', movers', fixed', run, rfl, ⟨dropped, ?_, ?_⟩, ?_, same', same''⟩
  · rw [List.length_append, same.length_eq]
  · rw [same'.length_eq]
  · exact erased ▸ same.append_left before

theorem Layout.remove_mover (layout : Layout z characters movers fixed)
    (kind : isMover (type e) = true) (member : e ∈ movers) :
    ∃ z' movers' fixed', z.remove type e = some z' ∧ z'.destinations = z.destinations ∧
      Layout z' characters movers' fixed' ∧ movers'.Perm (movers.erase e) ∧ fixed'.Perm fixed := by
  obtain ⟨objects, nbCharacters, nbMovingObjects⟩ := layout
  obtain ⟨before, after, rfl, index, erased⟩ := idxOf?_split member
  obtain ⟨after', hole, filled, same⟩ := fillHole_fill (characters ++ before) e after fixed
  obtain ⟨last, fixed', found, dropped, same'⟩ := drop_hole (characters ++ before ++ after') hole fixed
  have count : z.nbMovingObjects = (characters ++ before).length + after.length + 1 := by
    rw [nbMovingObjects, List.length_append, List.length_append, List.length_cons]
    omega
  have shape : z.objects = characters ++ before ++ e :: (after ++ fixed) := by
    rw [objects]
    simp
  have searched : (z.objects.take z.nbMovingObjects).drop z.nbCharacters = before ++ e :: after := by
    rw [objects, nbMovingObjects, nbCharacters, ← List.length_append, List.take_left,
      List.drop_left]
  have bounds : z.bounds type e = (z.nbCharacters, z.nbMovingObjects) := by
    rw [MapZone.bounds]
    rcases of_decide_eq_true kind with kind | kind <;> rw [kind]
  have stays : MapZone.fillHole z.objects (z.nbCharacters + before.length) z.nbCharacters =
      some (z.objects, z.nbCharacters + before.length, z.nbCharacters) := by
    rw [MapZone.fillHole, if_neg (by omega)]
  have run := remove_run bounds (searched ▸ index) stays
    (by rw [shape, count, nbCharacters, ← List.length_append, filled]) found
  refine ⟨_, before ++ after', fixed', run, rfl, ⟨?_, nbCharacters, ?_⟩, ?_, same'⟩
  · dsimp only
    rw [dropped]
    simp only [List.append_assoc]
  · dsimp only
    rw [List.length_append, List.length_append, same.length_eq]
    omega
  · exact erased ▸ same.append_left before

theorem Layout.remove_fixed (layout : Layout z characters movers fixed)
    (kind : isFixed (type e) = true) (member : e ∈ fixed) :
    ∃ z' fixed', z.remove type e = some z' ∧ z'.destinations = z.destinations ∧
      Layout z' characters movers fixed' ∧ fixed'.Perm (fixed.erase e) := by
  obtain ⟨objects, nbCharacters, nbMovingObjects⟩ := layout
  obtain ⟨before, after, rfl, index, erased⟩ := idxOf?_split member
  obtain ⟨last, fixed', found, dropped, same⟩ := drop_hole (characters ++ movers ++ before) e after
  have count : z.nbMovingObjects = (characters ++ movers).length := by
    rw [nbMovingObjects, List.length_append]
  have shape : z.objects = characters ++ movers ++ before ++ e :: after := by
    rw [objects]
    simp
  have searched : (z.objects.take z.objects.length).drop z.nbMovingObjects = before ++ e :: after := by
    rw [objects, count, List.take_length, List.drop_left]
  have bounds : z.bounds type e = (z.nbMovingObjects, z.objects.length) := by
    rw [MapZone.bounds]
    cases same : type e <;> rw [same] at kind <;> first | rfl | exact absurd kind (by decide)
  have stays : MapZone.fillHole z.objects (z.nbMovingObjects + before.length) z.nbCharacters =
      some (z.objects, z.nbMovingObjects + before.length, z.nbCharacters) := by
    rw [MapZone.fillHole, if_neg (by omega)]
  have stays' : MapZone.fillHole z.objects (z.nbMovingObjects + before.length) z.nbMovingObjects =
      some (z.objects, z.nbMovingObjects + before.length, z.nbMovingObjects) := by
    rw [MapZone.fillHole, if_neg (by omega)]
  have run := remove_run bounds (searched ▸ index) stays stays' (by rw [shape]; exact found)
  refine ⟨_, before ++ fixed', run, rfl, ⟨?_, nbCharacters, nbMovingObjects⟩, ?_⟩
  · dsimp only
    rw [shape, count, ← List.length_append, dropped]
    simp only [List.append_assoc]
  · exact erased ▸ same.append_left before

theorem erase_perm {part members : List E} (same : part.Perm (e :: members)) :
    (part.erase e).Perm members := by
  have erased := same.erase e
  rwa [List.erase_cons_head] at erased

theorem Holds.remove {members : List E} (holds : Holds type z (e :: members)) :
    ∃ z', z.remove type e = some z' ∧ z'.destinations = z.destinations ∧
      Holds type z' members := by
  obtain ⟨characters, movers, fixed, layout, first, second, third⟩ := holds
  rcases kind_cases (type e) with ⟨kind, yes, no, no'⟩ | ⟨kind, no, no'⟩ | ⟨kind, no, no'⟩
  · rw [ofKind_cons_pos yes] at first
    rw [ofKind_cons_neg no] at second
    rw [ofKind_cons_neg no'] at third
    obtain ⟨z', characters', movers', fixed', removed, same, layout, left, moved, others⟩ :=
      layout.remove_character kind (first.mem_iff.mpr List.mem_cons_self)
    exact ⟨z', removed, same, _, _, _, layout, left.trans (erase_perm first), moved.trans second,
      others.trans third⟩
  · rw [ofKind_cons_neg no] at first
    rw [ofKind_cons_pos kind] at second
    rw [ofKind_cons_neg no'] at third
    obtain ⟨z', movers', fixed', removed, same, layout, left, others⟩ :=
      layout.remove_mover kind (second.mem_iff.mpr List.mem_cons_self)
    exact ⟨z', removed, same, _, _, _, layout, first, left.trans (erase_perm second),
      others.trans third⟩
  · rw [ofKind_cons_neg no] at first
    rw [ofKind_cons_neg no'] at second
    rw [ofKind_cons_pos kind] at third
    obtain ⟨z', fixed', removed, same, layout, left⟩ :=
      layout.remove_fixed kind (third.mem_iff.mpr List.mem_cons_self)
    exact ⟨z', removed, same, _, _, _, layout, first, second, left.trans (erase_perm third)⟩

omit [DecidableEq E] in
theorem Holds.perm {members members' : List E} (holds : Holds type z members)
    (same : members.Perm members') : Holds type z members' := by
  obtain ⟨characters, movers, fixed, layout, first, second, third⟩ := holds
  exact ⟨characters, movers, fixed, layout, first.trans (same.filter _),
    second.trans (same.filter _), third.trans (same.filter _)⟩

end changed

end Cgsf.Proof.MOGame.MapComposite

/-!
# Regions and the loops over them

A loop over a region sees every entity of its kind in the zones of the region once, and the region
around a place has the zone of every place in reach.
-/

namespace Cgsf.Proof.MOGame.MapComposite
open Cgsf.MOGame Library

variable {E : Type} {type : E → EntityType}

/-! ## What a loop sees -/

def slice (t : IteratorType) (z : MapZone E) : List E := (z.objects.take (t.last z)).drop (t.first z)

def passes : IteratorType → EntityType → Bool
  | .character, kind => isCharacter kind
  | .being, kind => kind.canMove
  | .fixedActor, kind => isFixed kind
  | .actor, _ => true

theorem ofKind_append {p q r : EntityType → Bool} (members : List E)
    (apart : ∀ t, p t = true → q t = false) (both : ∀ t, r t = (p t || q t)) :
    (ofKind type p members ++ ofKind type q members).Perm (ofKind type r members) := by
  induction members with
  | nil => exact .nil
  | cons e members ih =>
      cases yes : p (type e) with
      | true =>
          rw [ofKind_cons_pos yes, ofKind_cons_neg (apart _ yes),
            ofKind_cons_pos (by rw [both, yes]; rfl)]
          exact ih.cons e
      | false =>
          cases yes' : q (type e) with
          | true =>
              rw [ofKind_cons_neg yes, ofKind_cons_pos yes', ofKind_cons_pos (by rw [both, yes']; simp)]
              exact List.perm_middle.trans (ih.cons e)
          | false =>
              rw [ofKind_cons_neg yes, ofKind_cons_neg yes', ofKind_cons_neg (by rw [both, yes, yes']; rfl)]
              exact ih

theorem Layout.bounds {z : MapZone E} {characters movers fixed : List E}
    (layout : Layout z characters movers fixed) (t : IteratorType) :
    t.first z ≤ t.last z ∧ t.last z ≤ z.objects.length := by
  have length : z.objects.length = characters.length + movers.length + fixed.length := by
    rw [layout.objects, List.length_append, List.length_append]
  have first := layout.nbCharacters
  have second := layout.nbMovingObjects
  cases t <;> simp only [IteratorType.first, IteratorType.last] <;> omega

theorem Holds.slice {z : MapZone E} {members : List E} (holds : Holds type z members)
    (t : IteratorType) : (slice t z).Perm (ofKind type (passes t) members) := by
  obtain ⟨characters, movers, fixed, ⟨objects, nbCharacters, nbMovingObjects⟩, first, second, third⟩ :=
    holds
  have moving : (characters ++ movers).Perm (ofKind type EntityType.canMove members) :=
    (first.append second).trans
      (ofKind_append members (fun t => by cases t <;> decide) fun t => by cases t <;> decide)
  rw [← List.length_append] at nbMovingObjects
  cases t with
  | character =>
      rw [MapComposite.slice, IteratorType.first, IteratorType.last, objects, nbCharacters,
        List.append_assoc, List.take_left, List.drop_zero]
      · exact first
      · nofun
  | being =>
      rw [MapComposite.slice, IteratorType.first, IteratorType.last, objects, nbMovingObjects,
        List.take_left, List.drop_zero]
      · exact moving
      · nofun
  | fixedActor =>
      rw [MapComposite.slice, IteratorType.first, IteratorType.last, List.take_length, objects,
        nbMovingObjects, List.drop_left]
      exact third
  | actor =>
      rw [MapComposite.slice, IteratorType.first, IteratorType.last, List.take_length, objects,
        List.drop_zero]
      · exact (moving.append third).trans
          (ofKind_append members (fun t => by cases t <;> decide) fun t => by cases t <;> decide)
      · nofun

/-- The zones that a region stands for. -/
def path (m : MapContent E) (region : MapRegion) : List Nat :=
  if region = [] then List.range (m.mapWidth * m.mapHeight) else region

/-- An iterator between two steps. -/
def At (m : MapContent E) (it : ZoneIterator) : Prop :=
  it.current = (path m it.region)[it.pos]?

section iteration

variable {m : MapContent E} {t : IteratorType} {region : MapRegion}

theorem zoneIterator_at (some : path m region ≠ []) : At m (MapContent.zoneIterator region) := by
  cases region with
  | cons z region => rfl
  | nil =>
      have more : 0 < m.mapWidth * m.mapHeight := by
        rw [path, if_pos rfl, Ne, List.range_eq_nil] at some
        omega
      exact (List.getElem?_range more).symm

theorem nextZone_at {it : ZoneIterator} {i : Nat} (stands : At m it) (current : it.current = some i) :
    At m (m.nextZone it) ∧ (m.nextZone it).region = it.region ∧
      (m.nextZone it).pos = it.pos + 1 := by
  obtain ⟨less, -⟩ := List.getElem?_eq_some_iff.mp (stands.symm.trans current)
  rw [MapContent.nextZone]
  by_cases whole : it.region = []
  · rw [path, if_pos whole, List.length_range] at less
    rw [if_neg (not_not.mpr whole)]
    split
    · rename_i more
      refine ⟨?_, rfl, rfl⟩
      rw [At]
      dsimp only
      rw [path, if_pos whole, List.getElem?_range (by omega)]
    · rename_i last
      refine ⟨?_, rfl, rfl⟩
      rw [At]
      dsimp only
      rw [path, if_pos whole, List.getElem?_eq_none (by rw [List.length_range]; omega)]
  · rw [if_pos whole]
    split
    · refine ⟨?_, rfl, rfl⟩
      rw [At, path, if_neg whole]
    · rename_i last
      refine ⟨?_, rfl, rfl⟩
      rw [At, path, if_neg whole]
      dsimp only
      rw [List.getElem?_eq_none (by omega)]

/-- What a loop sees in the zone at `i`. -/
def seen (m : MapContent E) (t : IteratorType) (i : Nat) : List E := slice t (m.zones.getD i {})

/-- The zones are in order, and the ones to visit exist. -/
structure Ready (m : MapContent E) (region : MapRegion) : Prop where
  bounds : ∀ z ∈ m.zones, ∀ t : IteratorType, t.first z ≤ t.last z ∧ t.last z ≤ z.objects.length
  exist : ∀ i ∈ path m region, i < m.zones.length

theorem Ready.zone (ready : Ready m region) {i : Nat} (member : i ∈ path m region) :
    ∃ z, m.zones[i]? = some z ∧ z ∈ m.zones ∧ m.zones.getD i {} = z := by
  have less := ready.exist i member
  refine ⟨m.zones[i], List.getElem?_eq_getElem less, List.getElem_mem less, ?_⟩
  rw [List.getD_eq_getElem?_getD, List.getElem?_eq_getElem less]
  rfl

/-- The iterator has found an entity, and these are still to be seen. -/
inductive Stands (m : MapContent E) (t : IteratorType) (region : MapRegion) (it : EntityIterator E) :
    List E → Prop where
  | passed (none : it.iterator.current = none) : Stands m t region it []
  | found (same : it.iterator.region = region) (stands : At m it.iterator) (i : Nat)
      (current : it.iterator.current = some i) (z : MapZone E) (zone : m.zones[i]? = some z)
      (first : t.first z ≤ it.pos) (last : it.pos < t.last z) (e : E) (entity : it.current = some e)
      (here : z.objects[it.pos]? = some e) :
      Stands m t region it ((z.objects.take (t.last z)).drop it.pos ++
        ((path m region).drop (it.iterator.pos + 1)).flatMap (seen m t))

theorem slice_eq_nil {z : MapZone E} (bounds : t.first z ≤ t.last z ∧ t.last z ≤ z.objects.length) :
    slice t z = [] ↔ t.first z = t.last z := by
  rw [slice, List.drop_eq_nil_iff, List.length_take]
  omega

/-- The iterator goes to the first zone in which there is something for it. -/
theorem skipZones_spec (ready : Ready m region) {it : ZoneIterator} (same : it.region = region)
    (stands : At m it) (bound : it.pos ≤ (path m region).length) {fuel : Nat}
    (enough : (path m region).length < it.pos + fuel) :
    ∃ it', m.skipZones t fuel it = some it' ∧ it'.region = region ∧ At m it' ∧
      ((path m region).drop it'.pos).flatMap (seen m t) =
        ((path m region).drop it.pos).flatMap (seen m t) ∧
      ∀ i, it'.current = some i → seen m t i ≠ [] := by
  induction fuel generalizing it with
  | zero => omega
  | succ fuel ih =>
      rw [MapContent.skipZones]
      cases current : it.current with
      | none => exact ⟨it, rfl, same, stands, rfl, fun i other => by rw [current] at other; cases other⟩
      | some i =>
          have there := stands.symm.trans current
          rw [same] at there
          obtain ⟨less, eq⟩ := List.getElem?_eq_some_iff.mp there
          obtain ⟨z, zone, member, default⟩ := ready.zone (List.mem_of_getElem? there)
          dsimp only
          rw [zone, Option.bind_eq_bind, Option.bind_some]
          have empty := slice_eq_nil (ready.bounds z member t)
          split
          · rename_i nothing
            obtain ⟨stands', same', pos⟩ := nextZone_at stands current
            obtain ⟨it', run, same'', at', rest, some⟩ :=
              ih (same'.trans same) stands' (by rw [pos]; exact less) (by rw [pos]; omega)
            refine ⟨it', run, same'', at', rest.trans ?_, some⟩
            rw [pos, List.drop_eq_getElem_cons less, List.flatMap_cons, eq, seen, default,
              empty.mpr nothing, List.nil_append]
          · rename_i something
            refine ⟨it, rfl, same, stands, rfl, fun j other => ?_⟩
            obtain rfl := Option.some.inj (current.symm.trans other)
            rw [seen, default]
            exact empty.not.mpr something

theorem entityIterator_spec (ready : Ready m region) {it : ZoneIterator} (same : it.region = region)
    (stands : At m it) (bound : it.pos ≤ (path m region).length) :
    ∃ it', m.entityIterator t it = some it' ∧
      Stands m t region it' (((path m region).drop it.pos).flatMap (seen m t)) := by
  have enough : (path m region).length <
      it.pos + (it.region.length + m.mapWidth * m.mapHeight + 1) := by
    rw [path, same]
    split
    · rw [List.length_range]
      omega
    · omega
  obtain ⟨it', skipped, same', stands', rest, some⟩ :=
    skipZones_spec (t := t) ready same stands bound enough
  rw [MapContent.entityIterator, skipped, Option.bind_eq_bind, Option.bind_some,
    MapContent.arrive, ← rest]
  cases current : it'.current with
  | none =>
      refine ⟨_, rfl, ?_⟩
      have nothing : (path m region).drop it'.pos = [] := by
        rw [At, current, same'] at stands'
        exact List.drop_eq_nil_iff.mpr (List.getElem?_eq_none_iff.mp stands'.symm)
      rw [nothing]
      exact .passed current
  | some i =>
      have there := stands'.symm.trans current
      rw [same'] at there
      obtain ⟨less, eq⟩ := List.getElem?_eq_some_iff.mp there
      obtain ⟨z, zone, member, default⟩ := ready.zone (List.mem_of_getElem? there)
      have bounds := ready.bounds z member t
      have something := some i current
      rw [seen, default, Ne, slice_eq_nil bounds] at something
      have here : z.objects[t.first z]? = .some z.objects[t.first z] := List.getElem?_eq_getElem _
      simp only [zone, here, Option.bind_eq_bind, Option.bind_some]
      refine ⟨_, rfl, ?_⟩
      rw [List.drop_eq_getElem_cons less, List.flatMap_cons, eq, seen, default]
      exact .found same' stands' i current z zone le_rfl (by dsimp only; omega) _ rfl here

section next

variable {it : EntityIterator E} {i : Nat} {z : MapZone E}

theorem nextEntity_leave (current : it.iterator.current = some i) (zone : m.zones[i]? = some z)
    (last : it.pos + 1 = t.last z) :
    m.nextEntity t it = m.entityIterator t (m.nextZone it.iterator) := by
  rw [MapContent.nextEntity]
  simp only [current, zone, Option.bind_eq_bind, Option.bind_some]
  exact if_pos last

theorem nextEntity_stay (current : it.iterator.current = some i) (zone : m.zones[i]? = some z)
    (more : it.pos + 1 ≠ t.last z) {e : E} (next : z.objects[it.pos + 1]? = some e) :
    m.nextEntity t it = some { it with pos := it.pos + 1, current := some e } := by
  rw [MapContent.nextEntity]
  simp only [current, zone, next, Option.bind_eq_bind, Option.bind_some]
  exact if_neg more

theorem visit_succ {fuel : Nat} {e : E} {it' : EntityIterator E} {rest : List E}
    (current : it.iterator.current = some i) (entity : it.current = some e)
    (next : m.nextEntity t it = some it') (visited : m.visit t fuel it' = some rest) :
    m.visit t (fuel + 1) it = some (e :: rest) := by
  rw [MapContent.visit]
  simp only [current, entity, next, visited, Option.bind_eq_bind, Option.bind_some]
  rfl

end next

theorem visit_spec (ready : Ready m region) {it : EntityIterator E} {rest : List E}
    (stands : Stands m t region it rest) {fuel : Nat} (enough : rest.length < fuel) :
    m.visit t fuel it = some rest := by
  induction fuel generalizing it rest with
  | zero => omega
  | succ fuel ih =>
      cases stands with
      | passed none => rw [MapContent.visit, none]
      | found same stands i current z zone first last e entity here =>
          obtain ⟨less, eq⟩ := List.getElem?_eq_some_iff.mp here
          have there := stands.symm.trans current
          rw [same] at there
          obtain ⟨less', -⟩ := List.getElem?_eq_some_iff.mp there
          have bounds := (ready.bounds z (List.mem_of_getElem? zone) t).2
          have short : it.pos < (z.objects.take (t.last z)).length := by
            rw [List.length_take]
            omega
          rw [List.drop_eq_getElem_cons short, List.getElem_take, eq, List.cons_append] at enough ⊢
          rw [List.length_cons] at enough
          by_cases done : it.pos + 1 = t.last z
          · obtain ⟨stands', same', pos⟩ := nextZone_at stands current
            obtain ⟨it', run, next⟩ := entityIterator_spec (t := t) ready (same'.trans same) stands'
              (by rw [pos]; exact less')
            have nothing : (z.objects.take (t.last z)).drop (it.pos + 1) = [] :=
              List.drop_eq_nil_iff.mpr (by rw [List.length_take]; omega)
            rw [nothing, List.nil_append] at enough ⊢
            rw [pos] at next
            exact visit_succ current entity ((nextEntity_leave current zone done).trans run)
              (ih next (by omega))
          · have next : z.objects[it.pos + 1]? = some z.objects[it.pos + 1] :=
              List.getElem?_eq_getElem _
            let it' : EntityIterator E :=
              { it with pos := it.pos + 1, current := some z.objects[it.pos + 1] }
            have start : t.first z ≤ it'.pos := by dsimp only [it']; omega
            have stop : it'.pos < t.last z := by dsimp only [it']; omega
            have stands' :=
              @Stands.found _ m t region it' same stands i current z zone start stop _ rfl next
            exact visit_succ current entity (nextEntity_stay current zone done next)
              (ih stands' (by dsimp only [it'] at *; omega))

theorem visitAll_spec (ready : Ready m region) (some : path m region ≠ []) :
    m.visitAll t region = .some ((path m region).flatMap (seen m t)) := by
  obtain ⟨it, run, stands⟩ := entityIterator_spec (t := t) ready rfl (zoneIterator_at some)
    (Nat.zero_le _)
  rw [MapContent.visitAll, run]
  refine visit_spec ready stands ?_
  have each (i : Nat) : (seen m t i).length ≤ (m.zones.map fun z => z.objects.length).sum := by
    rw [seen, slice, List.length_drop, List.length_take, List.getD_eq_getElem?_getD]
    cases zone : m.zones[i]? with
    | none => exact (Nat.sub_le _ _).trans ((min_le_right _ _).trans (Nat.zero_le _))
    | some z =>
        refine (Nat.sub_le _ _).trans ((min_le_right _ _).trans ?_)
        exact List.le_sum_of_mem (List.mem_map.mpr ⟨z, List.mem_of_getElem? zone, rfl⟩)
  have length : (path m region).length ≤ region.length + m.mapWidth * m.mapHeight := by
    rw [path]
    split
    · rw [List.length_range]
      omega
    · omega
  rw [MapContent.zoneIterator, List.drop_zero, List.length_flatMap, MapContent.visitFuel,
    Nat.lt_succ_iff]
  calc ((path m region).map fun i => (seen m t i).length).sum
      ≤ (path m region).length * (m.zones.map fun z => z.objects.length).sum := by
        have sum := List.sum_le_card_nsmul ((path m region).map fun i => (seen m t i).length) _
          fun n member => by
            obtain ⟨i, -, rfl⟩ := List.mem_map.mp member
            exact each i
        rw [List.length_map] at sum
        exact sum
    _ ≤ _ := Nat.mul_le_mul_right _ length

end iteration

/-! ## Regions -/

theorem mem_addZone {r : MapRegion} {z z' : Nat} : z' ∈ addZone r z ↔ z' = z ∨ z' ∈ r := by
  have parts := List.takeWhile_append_dropWhile (p := fun n => decide (n < z)) (l := r)
  rw [addZone]
  split
  · rename_i known
    have there : z ∈ r := by
      rw [← parts]
      exact List.mem_append_right _ (List.mem_of_mem_head? known)
    exact ⟨.inr, fun either => either.elim (fun same => same ▸ there) id⟩
  · conv_rhs => rw [← parts]
    rw [List.mem_append, List.mem_cons, List.mem_append]
    tauto

theorem sorted_addZone {r : MapRegion} (sorted : r.Pairwise (· < ·)) (z : Nat) :
    (addZone r z).Pairwise (· < ·) := by
  have parts := List.takeWhile_append_dropWhile (p := fun n => decide (n < z)) (l := r)
  rw [addZone]
  split
  · exact sorted
  · rename_i new
    rw [← parts, List.pairwise_append] at sorted
    obtain ⟨first, second, across⟩ := sorted
    have small : ∀ n ∈ r.takeWhile fun n => decide (n < z), n < z := fun n member =>
      by
      simpa using List.mem_takeWhile_imp member
    have large : ∀ n ∈ r.dropWhile fun n => decide (n < z), z < n := by
      cases rest : r.dropWhile fun n => decide (n < z) with
      | nil => exact fun n member => absurd member List.not_mem_nil
      | cons head tail =>
          rw [rest] at new second
          have least : ¬head < z := by
            have stop := List.head?_dropWhile_not (fun n => decide (n < z)) r
            rw [rest] at stop
            simpa using stop
          have other : head ≠ z := fun same => new (same ▸ rfl)
          intro n member
          rcases List.mem_cons.mp member with rfl | later
          · omega
          · have := List.rel_of_pairwise_cons second later
            omega
    refine List.pairwise_append.mpr ⟨first, List.pairwise_cons.mpr ⟨large, second⟩,
      fun a before b after => ?_⟩
    rcases List.mem_cons.mp after with rfl | later
    · exact small a before
    · exact across a before b later

theorem foldl_addZone {A : Type} (zones : List A) (f : A → Nat) {r : MapRegion}
    (sorted : r.Pairwise (· < ·)) :
    (zones.foldl (fun r a => addZone r (f a)) r).Pairwise (· < ·) ∧
      ∀ z, z ∈ zones.foldl (fun r a => addZone r (f a)) r ↔ (∃ a ∈ zones, z = f a) ∨ z ∈ r := by
  induction zones generalizing r with
  | nil => exact ⟨sorted, fun z => by simp⟩
  | cons a zones ih =>
      obtain ⟨sorted', member⟩ := ih (sorted_addZone sorted (f a))
      refine ⟨sorted', fun z => ?_⟩
      rw [List.foldl_cons, member, mem_addZone, List.exists_mem_cons_iff]
      exact or_left_comm.trans or_assoc.symm

section regions

variable {m : MapContent E} {r : MapRegion}

theorem mem_upTo {lo hi n : Int} :
    n ∈ (List.range (hi - lo + 1).toNat).map (fun (k : Nat) => lo + (k : Int)) ↔ lo ≤ n ∧ n ≤ hi := by
  rw [List.mem_map]
  constructor
  · rintro ⟨k, member, rfl⟩
    have less := List.mem_range.mp member
    omega
  · rintro ⟨least, most⟩
    exact ⟨(n - lo).toNat, List.mem_range.mpr (by omega), by omega⟩

theorem fillZones_spec (sorted : r.Pairwise (· < ·)) (ax ay bx by₁ : Int) :
    (m.fillZones r ax ay bx by₁).Pairwise (· < ·) ∧
      ∀ z, z ∈ m.fillZones r ax ay bx by₁ ↔
        (∃ x y, (ax ≤ x ∧ x ≤ bx) ∧ (ay ≤ y ∧ y ≤ by₁) ∧ z = (x + y * (m.mapWidth : Int)).toNat) ∨
          z ∈ r := by
  have whole (rows : List Int) {r : MapRegion} (sorted : r.Pairwise (· < ·)) :
      (rows.foldl (fun r y => ((List.range (bx - ax + 1).toNat).map fun (n : Nat) => ax + (n : Int)).foldl
        (fun r x => addZone r (x + y * (m.mapWidth : Int)).toNat) r) r).Pairwise (· < ·) ∧
      ∀ z, z ∈ rows.foldl (fun r y => ((List.range (bx - ax + 1).toNat).map
          fun (n : Nat) => ax + (n : Int)).foldl
        (fun r x => addZone r (x + y * (m.mapWidth : Int)).toNat) r) r ↔
          (∃ x y, (ax ≤ x ∧ x ≤ bx) ∧ y ∈ rows ∧ z = (x + y * (m.mapWidth : Int)).toNat) ∨ z ∈ r := by
    induction rows generalizing r with
    | nil => exact ⟨sorted, fun z => by simp⟩
    | cons y rows ih =>
        obtain ⟨sorted', row⟩ := foldl_addZone ((List.range (bx - ax + 1).toNat).map
          fun (n : Nat) => ax + (n : Int)) (fun x => (x + y * (m.mapWidth : Int)).toNat) sorted
        obtain ⟨sorted'', rest⟩ := ih sorted'
        refine ⟨sorted'', fun z => ?_⟩
        rw [List.foldl_cons, rest, row]
        constructor
        · rintro (⟨x, y', there, member, rfl⟩ | ⟨x, member, rfl⟩ | old)
          · exact .inl ⟨x, y', there, List.mem_cons_of_mem _ member, rfl⟩
          · exact .inl ⟨x, y, mem_upTo.mp member, List.mem_cons_self, rfl⟩
          · exact .inr old
        · rintro (⟨x, y', there, member, rfl⟩ | old)
          · rcases List.mem_cons.mp member with rfl | later
            · exact .inr (.inl ⟨x, mem_upTo.mpr there, rfl⟩)
            · exact .inl ⟨x, y', there, later, rfl⟩
          · exact .inr (.inr old)
  obtain ⟨sorted', member⟩ :=
    whole ((List.range (by₁ - ay + 1).toNat).map fun (n : Nat) => ay + (n : Int)) sorted
  refine ⟨sorted', fun z => ?_⟩
  rw [MapContent.fillZones, member]
  simp only [mem_upTo]

/-- A place within the zones of the map. -/
structure Within (m : MapContent E) (p : Point) : Prop where
  column : 0 ≤ p.x ∧ p.x < zoneDiam * m.mapWidth
  row : 0 ≤ p.y ∧ p.y < zoneDiam * m.mapHeight

theorem index_lt {w h : Nat} {x y : Int} (column : 0 ≤ x ∧ x < w) (row : 0 ≤ y ∧ y < h) :
    (x + y * (w : Int)).toNat < w * h := by
  have least : 0 ≤ y * (w : Int) := mul_nonneg row.1 (by omega)
  have most : (y + 1) * (w : Int) ≤ h * w := mul_le_mul_of_nonneg_right (by omega) (by omega)
  rw [add_mul, one_mul] at most
  have product : ((w * h : Nat) : Int) = h * w := by rw [Nat.cast_mul, mul_comm]
  omega

theorem tdiv_zone {n : Int} {w : Nat} (bounds : 0 ≤ n ∧ n < zoneDiam * w) :
    0 ≤ n.tdiv zoneDiam ∧ n.tdiv zoneDiam < w := by
  rw [Int.tdiv_eq_ediv_of_nonneg bounds.1]
  rw [zoneDiam] at bounds ⊢
  omega

theorem Within.getZone_lt {p : Point} (within : Within m p) :
    m.getZone p < m.mapWidth * m.mapHeight :=
  index_lt (tdiv_zone within.column) (tdiv_zone within.row)

/-- The bounds of a loop over the zones around a place. -/
theorem near_zone {n c radius : Int} {w : Nat} (bounds : 0 ≤ n ∧ n < zoneDiam * w)
    (near : |c - n| ≤ radius) :
    (if c > radius then (c - radius).tdiv zoneDiam else 0) ≤ n.tdiv zoneDiam ∧
      n.tdiv zoneDiam ≤ min ((c + radius).tdiv zoneDiam) ((w : Int) - 1) := by
  obtain ⟨low, high⟩ := abs_le.mp near
  have inside := tdiv_zone bounds
  have up : n.tdiv zoneDiam ≤ (c + radius).tdiv zoneDiam := by
    rw [Int.tdiv_eq_ediv_of_nonneg bounds.1, Int.tdiv_eq_ediv_of_nonneg (by omega), zoneDiam]
    omega
  refine ⟨?_, le_min up (by omega)⟩
  split
  · rw [Int.tdiv_eq_ediv_of_nonneg bounds.1, Int.tdiv_eq_ediv_of_nonneg (by omega), zoneDiam]
    omega
  · exact inside.1

theorem fillRegion_covers (sorted : r.Pairwise (· < ·)) {p q : Point} {radius : Int}
    (within : Within m q) (near : p.inRangeOf q radius = true) :
    m.getZone q ∈ m.fillRegion r p radius := by
  obtain ⟨horizontal, vertical⟩ : |p.x - q.x| ≤ radius ∧ |p.y - q.y| ≤ radius := by
    simpa [Point.inRangeOf] using near
  exact ((fillZones_spec sorted _ _ _ _).2 _).mpr
    (.inl ⟨_, _, near_zone within.column horizontal, near_zone within.row vertical, rfl⟩)

theorem lower_nonneg (c radius : Int) :
    0 ≤ if c > radius then (c - radius).tdiv zoneDiam else 0 := by
  split
  · exact Int.tdiv_nonneg (by omega) (by decide)
  · exact le_rfl

theorem fillRegion_spec (sorted : r.Pairwise (· < ·)) (p : Point) (radius : Int) :
    (m.fillRegion r p radius).Pairwise (· < ·) ∧ (∀ z ∈ r, z ∈ m.fillRegion r p radius) ∧
      ∀ z ∈ m.fillRegion r p radius, z ∈ r ∨ z < m.mapWidth * m.mapHeight := by
  obtain ⟨sorted', member⟩ := fillZones_spec (m := m) sorted _ _ _ _
  refine ⟨sorted', fun z old => (member z).mpr (.inr old), fun z there => ?_⟩
  rcases (member z).mp there with ⟨x, y, column, row, rfl⟩ | old
  · have left := lower_nonneg p.x radius
    have top := lower_nonneg p.y radius
    exact .inr (index_lt (by omega) (by omega))
  · exact .inl old

end regions

theorem mem_setUnion {r s : MapRegion} {z : Nat} : z ∈ setUnion r s ↔ z ∈ r ∨ z ∈ s := by
  fun_induction setUnion r s with
  | case1 s => simp
  | case2 r => simp
  | case3 a r b s less ih => simp only [List.mem_cons, ih]; tauto
  | case4 a r b s _ less ih => simp only [List.mem_cons, ih]; tauto
  | case5 a r b s least most ih =>
      obtain rfl : a = b := by omega
      simp only [List.mem_cons, ih]
      tauto

theorem sorted_setUnion {r s : MapRegion} (sorted : r.Pairwise (· < ·))
    (sorted' : s.Pairwise (· < ·)) : (setUnion r s).Pairwise (· < ·) := by
  fun_induction setUnion r s with
  | case1 s => exact sorted'
  | case2 r => exact sorted
  | case3 a r b s less ih =>
      obtain ⟨first, rest⟩ := List.pairwise_cons.mp sorted
      obtain ⟨first', -⟩ := List.pairwise_cons.mp sorted'
      refine List.pairwise_cons.mpr ⟨fun z member => ?_, ih rest sorted'⟩
      rcases mem_setUnion.mp member with left | right
      · exact first z left
      · rcases List.mem_cons.mp right with rfl | later
        · exact less
        · exact less.trans (first' z later)
  | case4 a r b s _ less ih =>
      obtain ⟨first, -⟩ := List.pairwise_cons.mp sorted
      obtain ⟨first', rest⟩ := List.pairwise_cons.mp sorted'
      refine List.pairwise_cons.mpr ⟨fun z member => ?_, ih sorted rest⟩
      rcases mem_setUnion.mp member with left | right
      · rcases List.mem_cons.mp left with rfl | later
        · exact less
        · exact less.trans (first z later)
      · exact first' z right
  | case5 a r b s least most ih =>
      obtain rfl : a = b := by omega
      obtain ⟨first, rest⟩ := List.pairwise_cons.mp sorted
      obtain ⟨first', rest'⟩ := List.pairwise_cons.mp sorted'
      refine List.pairwise_cons.mpr ⟨fun z member => ?_, ih rest rest'⟩
      exact (mem_setUnion.mp member).elim (first z) (first' z)

end Cgsf.Proof.MOGame.MapComposite
