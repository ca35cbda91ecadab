import Cgsf.Proof.RPC.Loads
import Cgsf.RPC.ObjectGraph
import Mathlib.Data.List.Infix

/-!
# Saved objects are loaded as the same graph

Both sides number the objects in the order in which they meet them. What is saved from one table on
is read from one of the same length on, and the numbers are those of every table that comes later.
-/

namespace Cgsf.Proof.RPC.CPstream
open Cgsf.RPC Cgsf.RPC.CPstream

variable {classes : List Layout} {g : ObjectGraph classes} {T new F : List (Option Nat)}
  {p : Option Nat} {n : Nat}

/-- A table of the graph. -/
structure Table (g : ObjectGraph classes) (T : List (Option Nat)) : Prop where
  head : ∃ rest, T = none :: rest
  nodup : T.Nodup
  met : ∀ a, some a ∈ T → Reachable g.objects g.roots a

def Points (g : ObjectGraph classes) (p : Option Nat) : Prop :=
  ∀ a, p = some a → Reachable g.objects g.roots a

/-- How many objects are still to be met. -/
noncomputable def missing (g : ObjectGraph classes) (T : List (Option Nat)) : Nat :=
  {a | Reachable g.objects g.roots a ∧ some a ∉ T}.ncard

def copies (g : ObjectGraph classes) (F : List (Option Nat)) (new : List (Option Nat)) :
    List (Option Stored) :=
  new.map (Option.map (g.copy F.idxOf))

theorem missing_append (g : ObjectGraph classes) (T new : List (Option Nat)) :
    missing g (T ++ new) ≤ missing g T := by
  refine Set.ncard_le_ncard ?_ (g.finite.subset fun a both => both.1)
  rintro a ⟨reachable, absent⟩
  exact ⟨reachable, fun member => absent (List.mem_append_left _ member)⟩

theorem missing_met {a : Nat} (reachable : Reachable g.objects g.roots a) (absent : some a ∉ T) :
    missing g (T ++ [some a]) < missing g T := by
  refine Set.ncard_lt_ncard ?_ (g.finite.subset fun a both => both.1)
  refine ⟨?_, fun back => ?_⟩
  · rintro b ⟨reachable, absent⟩
    exact ⟨reachable, fun member => absent (List.mem_append_left _ member)⟩
  · exact (back ⟨reachable, absent⟩).2 (List.mem_append_right _ (List.mem_singleton_self _))

theorem Table.length_le (table : Table g T) :
    T.length ≤ {a | Reachable g.objects g.roots a}.ncard + 1 := by
  have within : T.toFinset ⊆ insert none (g.finite.toFinset.image some) := by
    intro p member
    rw [List.mem_toFinset] at member
    cases p with
    | none => exact Finset.mem_insert_self ..
    | some a => exact Finset.mem_insert_of_mem (Finset.mem_image_of_mem _
        (g.finite.mem_toFinset.mpr (table.met a member)))
  rw [← List.toFinset_card_of_nodup table.nodup, Set.ncard_eq_toFinset_card _ g.finite]
  exact (Finset.card_le_card within).trans
    ((Finset.card_insert_le ..).trans (Nat.succ_le_succ Finset.card_image_le))

theorem Table.none_mem (table : Table g T) : none ∈ T := by
  obtain ⟨rest, rfl⟩ := table.head
  exact List.mem_cons_self

theorem Table.met_object {a : Nat} (table : Table g T) (reachable : Reachable g.objects g.roots a)
    (absent : some a ∉ T) : Table g (T ++ [some a]) where
  head := by
    obtain ⟨rest, rfl⟩ := table.head
    exact ⟨_, rfl⟩
  nodup := by
    refine table.nodup.append (List.nodup_singleton _) ?_
    intro p member single
    exact absent (List.mem_singleton.mp single ▸ member)
  met b member := by
    obtain before | new := List.mem_append.mp member
    · exact table.met b before
    · obtain rfl := Option.some.inj (List.mem_singleton.mp new)
      exact reachable

/-- The table fits an `int`, so all of it is searched. -/
theorem findObject_eq (few : g.Few) (table : Table g T) (p : Option Nat) :
    findObject T p = if p ∈ T then some (T.idxOf p) else none := by
  have short : T.length < 2 ^ 31 := table.length_le.trans_lt few
  rw [findObject, Int32.toInt_ofNat_of_lt short, Int.toNat_natCast, List.take_length]
  split
  · rename_i member
    cases found : T.idxOf? p with
    | none => exact absurd member (List.idxOf?_eq_none_iff.mp found)
    | some i => rw [List.idxOf_eq_getD_idxOf?, found, Option.getD_some]
  · rename_i absent
    exact List.idxOf?_eq_none_iff.mpr absent

/-- What was written for a pointer from the table `T` on. -/
structure WrittenObject (g : ObjectGraph classes) (T new : List (Option Nat)) (p : Option Nat)
    (out : Bytes) : Prop where
  table : Table g (T ++ new)
  known : p ∈ T ++ new
  closed : ∀ a, some a ∈ new → ∀ q, .object q ∈ (g.objects a).fields → q ∈ T ++ new
  takes : g.StringsShort → ∀ F rest, T ++ new <+: F → ∀ objs : List (Option Stored),
    objs.length = T.length → Takes (classes.map Layout.loads) ⟨out ++ rest, objs⟩
      (some (F.idxOf p)) ⟨rest, objs ++ copies g F new⟩

/-- The same for some fields. -/
structure WrittenFields (g : ObjectGraph classes) (T new : List (Option Nat)) (layout : Layout)
    (fields : List Value) (out : Bytes) : Prop where
  table : Table g (T ++ new)
  known : ∀ q, .object q ∈ fields → q ∈ T ++ new
  closed : ∀ a, some a ∈ new → ∀ q, .object q ∈ (g.objects a).fields → q ∈ T ++ new
  reads : g.StringsShort → (∀ ch, .string ch ∈ fields → ch.length < 2 ^ 31) →
    ∀ F rest, T ++ new <+: F → ∀ objs : List (Option Stored), objs.length = T.length →
      Reads (classes.map Layout.loads) layout.loads ⟨out ++ rest, objs⟩
        (fields.map (Value.rename F.idxOf)) ⟨rest, objs ++ copies g F new⟩

theorem copies_append (g : ObjectGraph classes) (F new new' : List (Option Nat)) :
    copies g F (new ++ new') = copies g F new ++ copies g F new' := List.map_append

theorem length_copies (g : ObjectGraph classes) (F new : List (Option Nat)) :
    (copies g F new).length = new.length := List.length_map _

/-- Only NULL has the index 0. -/
theorem Table.isNull (table : Table g T) (longer : T <+: F) (p : Option Nat) :
    decide (some (F.idxOf p) = some 0) = p.isNone := by
  obtain ⟨rest, rfl⟩ := table.head
  obtain ⟨more, rfl⟩ := longer
  cases p with
  | none => simp
  | some a => simp

/-- The fields of an object, when each pointer is written as it should. -/
theorem fields_written {save : Saving → Option Nat → Option Saving}
    (object : ∀ fs T p, Table g T → Points g p → missing g T < n → ∃ new out,
      save ⟨fs, T⟩ p = some ⟨fs ++ out, T ++ new⟩ ∧ WrittenObject g T new p out)
    (fields : List Value) (layout : Layout) (fs : Bytes) (T : List (Option Nat))
    (fits : layout.Fits fields) (points : ∀ q, .object q ∈ fields → Points g q)
    (table : Table g T) (few : missing g T < n) :
    ∃ new out, saveFields save fields ⟨fs, T⟩ = some ⟨fs ++ out, T ++ new⟩ ∧
      WrittenFields g T new layout fields out := by
  induction fields generalizing layout fs T with
  | nil =>
      cases layout with
      | done =>
          refine ⟨[], [], by simp [saveFields], ?_⟩
          exact {
            table := by rwa [List.append_nil]
            known := fun q member => absurd member List.not_mem_nil
            closed := fun a member => absurd member List.not_mem_nil
            reads := fun _ _ F rest _ objs _ => by
              change Reads _ _ ⟨rest, objs⟩ [] ⟨rest, objs ++ []⟩
              rw [List.append_nil]
              exact .done }
      | scalar | string | object => exact fits.elim
  | cons value fields ih =>
      have points' : ∀ q, .object q ∈ fields → Points g q := fun q member =>
        points q (List.mem_cons_of_mem _ member)
      cases value with
      | scalar bytes =>
          cases layout with
          | scalar size next =>
              obtain ⟨rfl, fits⟩ := fits
              obtain ⟨new, out, run, written⟩ :=
                ih (next bytes) (fs ++ bytes) T fits points' table few
              refine ⟨new, bytes ++ out, by rw [saveFields, run, List.append_assoc], written.table,
                ?_, written.closed, ?_⟩
              · intro q member
                obtain head | member := List.mem_cons.mp member
                · cases head
                · exact written.known q member
              · intro short strings F rest longer objs size
                rw [List.append_assoc]
                exact .scalar (written.reads short (fun ch member =>
                  strings ch (List.mem_cons_of_mem _ member)) F rest longer objs size)
          | done | string | object => exact fits.elim
      | string ch =>
          cases layout with
          | string next =>
              obtain ⟨new, out, run, written⟩ :=
                ih (next ch) (fs ++ saveString ch) T fits points' table few
              refine ⟨new, saveString ch ++ out, by rw [saveFields, run, List.append_assoc],
                written.table, ?_, written.closed, ?_⟩
              · intro q member
                obtain head | member := List.mem_cons.mp member
                · cases head
                · exact written.known q member
              · intro short strings F rest longer objs size
                rw [List.append_assoc]
                exact .string (strings ch List.mem_cons_self) (written.reads short (fun ch member =>
                  strings ch (List.mem_cons_of_mem _ member)) F rest longer objs size)
          | done | scalar | object => exact fits.elim
      | object p =>
          cases layout with
          | object next =>
              obtain ⟨new, out, run, first⟩ := object fs T p table (points p List.mem_cons_self) few
              obtain ⟨new', out', run', written⟩ := ih (next p.isNone) (fs ++ out) (T ++ new) fits
                points' first.table ((missing_append g T new).trans_lt few)
              have whole : T ++ (new ++ new') = T ++ new ++ new' := (List.append_assoc ..).symm
              refine ⟨new ++ new', out ++ out', ?_, ?_⟩
              · rw [saveFields, run, Option.bind_some, run', List.append_assoc, whole]
              refine ⟨whole ▸ written.table, ?_, ?_, ?_⟩
              · intro q member
                rw [whole]
                obtain head | member := List.mem_cons.mp member
                · obtain rfl := Value.object.inj head
                  exact List.mem_append_left _ first.known
                · exact written.known q member
              · intro a member q field
                rw [whole]
                obtain early | late := List.mem_append.mp member
                · exact List.mem_append_left _ (first.closed a early q field)
                · exact written.closed a late q field
              · intro short strings F rest longer objs size
                rw [whole] at longer
                have sooner : T ++ new <+: F := (List.prefix_append ..).trans longer
                have taken := first.takes short F (out' ++ rest) sooner objs size
                have after := written.reads short (fun ch member =>
                  strings ch (List.mem_cons_of_mem _ member)) F rest longer (objs ++ copies g F new)
                  (by rw [List.length_append, length_copies, size, List.length_append])
                rw [List.append_assoc, ← copies_append] at after
                rw [List.append_assoc]
                have isNull := table.isNull ((List.prefix_append ..).trans sooner) p
                rw [← isNull] at after
                exact taken.reads after
          | done | scalar | string => exact fits.elim

theorem entry_map {α β : Type} (f : α → β) (table : List α) (i : Int32) :
    entry (table.map f) i = (entry table i).map f := by
  simp only [entry, List.getElem?_map]
  split <;> rfl

theorem entry_ofNat {α : Type} (table : List α) {i : Nat} (small : i < 2 ^ 31) :
    entry table (.ofNat i) = table[i]? := by
  have value : (Int32.ofNat i).toInt = i := Int32.toInt_ofNat_of_lt small
  have nonneg : (0 : Int32) ≤ .ofNat i := by
    rw [Int32.le_iff_toInt_le, value]
    exact Int.natCast_nonneg _
  rw [entry, if_pos nonneg, value, Int.toNat_natCast]

theorem savePersistence_met {objects : Nat → Stored} {fuel i : Nat} {fs : Bytes}
    (found : findObject T p = some i) : savePersistence objects (fuel + 1) ⟨fs, T⟩ p =
      some ⟨fs ++ (saveInt ptIndexed ++ saveInt (.ofNat i)), T⟩ := by
  simp only [savePersistence, found]

theorem savePersistence_new {objects : Nat → Stored} {fuel a : Nat} {fs : Bytes}
    (absent : findObject T (some a) = none) :
    savePersistence objects (fuel + 1) ⟨fs, T⟩ (some a) =
      saveFields (savePersistence objects fuel) (objects a).fields
        ⟨fs ++ (saveInt ptObject ++ saveInt (objects a).registerNo), T ++ [some a]⟩ := by
  simp only [savePersistence, absent]

theorem saveFields_mono {save save' : Saving → Option Nat → Option Saving}
    (le : ∀ s p s', save s p = some s' → save' s p = some s') {fields : List Value} {s s' : Saving}
    (saved : saveFields save fields s = some s') : saveFields save' fields s = some s' := by
  induction fields generalizing s with
  | nil => exact saved
  | cons value fields ih =>
      cases value with
      | scalar bytes => exact ih saved
      | string ch => exact ih saved
      | object p =>
          obtain ⟨middle, first, rest⟩ := Option.bind_eq_some_iff.mp saved
          exact Option.bind_eq_some_iff.mpr ⟨middle, le s p middle first, ih rest⟩

/-- More fuel changes nothing. -/
theorem savePersistence_mono {objects : Nat → Stored} {fuel : Nat} {s s' : Saving}
    (saved : savePersistence objects fuel s p = some s') :
    savePersistence objects (fuel + 1) s p = some s' := by
  induction fuel generalizing s p s' with
  | zero => cases saved
  | succ fuel ih =>
      obtain ⟨fs, T⟩ := s
      cases found : findObject T p with
      | some i =>
          rw [savePersistence_met found] at saved ⊢
          exact saved
      | none =>
          cases p with
          | none => simp only [savePersistence, found, reduceCtorEq] at saved
          | some a =>
              rw [savePersistence_new found] at saved ⊢
              exact saveFields_mono (fun s p s' => ih) saved

/-- With fuel for all objects that are left, a pointer is written. -/
theorem object_written (few : g.Few) (fuel : Nat) (fs : Bytes) (T : List (Option Nat))
    (p : Option Nat) (table : Table g T) (points : Points g p) (enough : missing g T < fuel) :
    ∃ new out, savePersistence g.objects fuel ⟨fs, T⟩ p = some ⟨fs ++ out, T ++ new⟩ ∧
      WrittenObject g T new p out := by
  induction fuel generalizing fs T p with
  | zero => exact absurd enough (Nat.not_lt_zero _)
  | succ fuel ih =>
      have search := findObject_eq few table p
      by_cases member : p ∈ T
      · have inside : T.idxOf p < T.length := List.idxOf_lt_length_of_mem member
        have small : T.idxOf p < 2 ^ 31 := inside.trans (table.length_le.trans_lt few)
        rw [if_pos member] at search
        refine ⟨[], saveInt ptIndexed ++ saveInt (.ofNat (T.idxOf p)),
          by rw [savePersistence_met search, List.append_nil], ?_⟩
        refine ⟨by rwa [List.append_nil], by rwa [List.append_nil],
          fun a absent => absurd absent List.not_mem_nil, ?_⟩
        intro _ F rest longer objs size
        rw [List.append_nil] at longer
        have index : some (F.idxOf p) = some (Int32.ofNat (T.idxOf p)).toInt.toNat := by
          rw [Int32.toInt_ofNat_of_lt small, Int.toNat_natCast, longer.idxOf_eq_of_mem member]
        rw [index, copies, List.map_nil, List.append_nil, List.append_assoc]
        refine .indexed rfl ?_
        rw [entry_ofNat _ small, List.getElem?_eq_getElem (by rw [size]; exact inside)]
        rfl
      · cases p with
        | none => exact absurd table.none_mem member
        | some a =>
            rw [if_neg member] at search
            have reachable := points a rfl
            obtain ⟨layout, registered, fits⟩ := g.registered a reachable
            have left : missing g (T ++ [some a]) < fuel :=
              Nat.lt_of_lt_of_le (missing_met reachable member) (Nat.le_of_lt_succ enough)
            obtain ⟨new, out, run, written⟩ := fields_written ih (g.objects a).fields layout
              (fs ++ (saveInt ptObject ++ saveInt (g.objects a).registerNo)) (T ++ [some a]) fits
              (fun q field b is => .field reachable (is ▸ field))
              (table.met_object reachable member) left
            have whole : T ++ some a :: new = T ++ [some a] ++ new := by simp
            refine ⟨some a :: new,
              saveInt ptObject ++ saveInt (g.objects a).registerNo ++ out, ?_, ?_⟩
            · rw [savePersistence_new search, run, whole, List.append_assoc fs]
            refine ⟨whole ▸ written.table, List.mem_append_right _ List.mem_cons_self, ?_, ?_⟩
            · intro b among q field
              rw [whole]
              obtain same | among := List.mem_cons.mp among
              · obtain rfl := Option.some.inj same
                exact written.known q field
              · exact written.closed b among q field
            · intro short F rest longer objs size
              rw [whole] at longer
              have first : F.idxOf (some a) = objs.length := by
                have here : T ++ [some a] <+: F := (List.prefix_append ..).trans longer
                rw [← here.idxOf_eq_of_mem (List.mem_append_right _ (List.mem_singleton_self _)),
                  List.idxOf_append_of_notMem member, List.idxOf_cons_self, Nat.add_zero, size]
              have inside := written.reads short (fun ch field => short a reachable ch field) F rest
                longer (objs ++ [some { registerNo := (g.objects a).registerNo }])
                (by rw [List.length_append, List.length_append, size]; rfl)
              have takes := @Takes.object (classes.map Layout.loads)
                ⟨saveInt ptObject ++ (saveInt (g.objects a).registerNo ++ (out ++ rest)), objs⟩
                (g.objects a).registerNo (out ++ rest) layout.loads _ _ rfl
                (by rw [entry_map, registered, Option.map_some]) inside
              rw [first, List.append_assoc, List.append_assoc]
              convert takes using 2
              simp [copies, ObjectGraph.copy]

theorem pointers_fit (roots : List (Option Nat)) :
    (Layout.pointers roots.length).Fits (roots.map .object) := by
  induction roots with
  | nil => trivial
  | cons p roots ih => exact ih

theorem table_start (g : ObjectGraph classes) : Table g [none] where
  head := ⟨[], rfl⟩
  nodup := List.nodup_singleton _
  met a member := by cases List.mem_singleton.mp member

/-- All that the roots lead to was met. -/
theorem reached {out : Bytes} {a : Nat} (written : WrittenFields g [none] new
      (Layout.pointers g.roots.length) (g.roots.map .object) out)
    (reachable : Reachable g.objects g.roots a) : some a ∈ [none] ++ new := by
  induction reachable with
  | root member => exact written.known _ (List.mem_map_of_mem member)
  | field _ member ih =>
      obtain null | late := List.mem_append.mp ih
      · cases List.mem_singleton.mp null
      · exact written.closed _ late _ member

theorem copied_of_written {out : Bytes} (written : WrittenFields g [none] new
      (Layout.pointers g.roots.length) (g.roots.map .object) out) :
    g.Copied ([none] ++ new).idxOf (copies g ([none] ++ new) ([none] ++ new)) where
  null := ⟨rfl, rfl⟩
  each a reachable := by
    rw [copies, List.getElem?_map, List.getElem?_idxOf (reached written reachable)]
    rfl
  apart a b reachable _ same :=
    Option.some.inj ((List.idxOf_inj (reached written reachable)).mp same)
  once i positive inside := by
    rw [length_copies] at inside
    have index := written.table.nodup.idxOf_getElem i inside
    cases is : ([none] ++ new)[i] with
    | none =>
        rw [is] at index
        exact absurd index.symm (Nat.ne_of_gt positive)
    | some a =>
        rw [is] at index
        exact ⟨a, written.table.met a (is ▸ List.getElem_mem inside), index⟩

theorem roundTrips_of_short (few : g.Few) (short : g.StringsShort) (asserts : Bool) :
    g.RoundTrips asserts := by
  have points : ∀ q, Value.object q ∈ g.roots.map Value.object → Points g q := by
    rintro q member a rfl
    obtain ⟨p, root, is⟩ := List.mem_map.mp member
    obtain rfl := Value.object.inj is
    exact .root root
  obtain ⟨new, out, run, written⟩ := fields_written (object_written few (missing g [none] + 1))
    (g.roots.map .object) (Layout.pointers g.roots.length) [] [none] (pointers_fit g.roots) points
    (table_start g) (Nat.lt_succ_self _)
  have strings : ∀ ch, Value.string ch ∈ g.roots.map Value.object → ch.length < 2 ^ 31 := by
    intro ch member
    obtain ⟨p, -, is⟩ := List.mem_map.mp member
    cases is
  have reads := written.reads short strings ([none] ++ new) [] (List.prefix_refl _) [none] rfl
  rw [List.append_nil, List.map_map] at reads
  exact ⟨_, ⟨out, [none] ++ new⟩, _, _, run,
    load_of_reads reads asserts out.length (Nat.le_refl _), rfl, copied_of_written written⟩

/-! ## A string that is loaded has a size -/

def ShortStrings (fields : List Value) : Prop := ∀ ch, .string ch ∈ fields → ch.length < 2 ^ 31

def ShortTable (apObj : List (Option Stored)) : Prop :=
  ∀ o, some o ∈ apObj → ShortStrings o.fields

variable {asserts : Bool} {apfnCreate : List Loads} {loads : Loads} {s s' : Source}
  {values : List Value} {fuel : Nat} {pshp : Option Nat}

theorem ShortStrings.cons {value : Value} (head : ∀ ch, value = .string ch → ch.length < 2 ^ 31)
    (tail : ShortStrings values) : ShortStrings (value :: values) := by
  intro ch member
  obtain is | member := List.mem_cons.mp member
  · exact head ch is.symm
  · exact tail ch member

theorem loadFields_short {loadObj : Source → Except Fault (Option Nat × Source)}
    (object : ∀ {s pshp s'}, ShortTable s.apObj → loadObj s = .ok (pshp, s') → ShortTable s'.apObj)
    (table : ShortTable s.apObj) (result : loadFields loadObj loads s = .ok (values, s')) :
    ShortStrings values ∧ ShortTable s'.apObj := by
  induction loads generalizing s values with
  | done =>
      obtain ⟨rfl, rfl⟩ := Prod.mk.inj (Except.ok.inj result)
      exact ⟨fun ch member => absurd member List.not_mem_nil, table⟩
  | scalar size next ih =>
      obtain ⟨⟨bytes, rest⟩, -, result⟩ := bind_eq_ok.mp result
      obtain ⟨⟨values', s''⟩, after, done⟩ := bind_eq_ok.mp result
      obtain ⟨rfl, rfl⟩ := Prod.mk.inj (Except.ok.inj done)
      obtain ⟨short, table⟩ := ih bytes (s := ⟨rest, s.apObj⟩) table after
      exact ⟨short.cons (fun ch is => nomatch is), table⟩
  | string next ih =>
      obtain ⟨⟨ch, rest⟩, read, result⟩ := bind_eq_ok.mp result
      obtain ⟨⟨values', s''⟩, after, done⟩ := bind_eq_ok.mp result
      obtain ⟨rfl, rfl⟩ := Prod.mk.inj (Except.ok.inj done)
      obtain ⟨short, table⟩ := ih ch (s := ⟨rest, s.apObj⟩) table after
      refine ⟨short.cons fun ch' is => ?_, table⟩
      obtain rfl := Value.string.inj is
      exact (eq_of_loadString (orFault_eq_ok.mp read)).1
  | object next ih =>
      obtain ⟨⟨pshp, s₁⟩, taken, result⟩ := bind_eq_ok.mp result
      obtain ⟨⟨values', s''⟩, after, done⟩ := bind_eq_ok.mp result
      obtain ⟨rfl, rfl⟩ := Prod.mk.inj (Except.ok.inj done)
      obtain ⟨short, table⟩ := ih _ (object table taken) after
      exact ⟨short.cons (fun ch is => nomatch is), table⟩

theorem loadPersistence_short (table : ShortTable s.apObj)
    (result : loadPersistence asserts apfnCreate fuel s = .ok (pshp, s')) :
    ShortTable s'.apObj := by
  induction fuel generalizing s pshp s' with
  | zero => cases result
  | succ fuel ih =>
      obtain short | ⟨iTag, i, rest, -, tagged⟩ := loadPersistence_succ result
      · cases short
      · rw [loadTagged] at tagged
        split at tagged
        · obtain ⟨pObj, -, done⟩ := bind_eq_ok.mp tagged
          obtain ⟨-, rfl⟩ := Prod.mk.inj (Except.ok.inj done)
          exact table
        · split at tagged
          · obtain ⟨create, -, tagged⟩ := bind_eq_ok.mp tagged
            obtain ⟨⟨fields, inner⟩, inside, done⟩ := bind_eq_ok.mp tagged
            obtain ⟨-, rfl⟩ := Prod.mk.inj (Except.ok.inj done)
            have more : ShortTable (s.apObj ++ [some { registerNo := i }]) := by
              intro o member
              obtain before | new := List.mem_append.mp member
              · exact table o before
              · obtain rfl := Option.some.inj (List.mem_singleton.mp new)
                exact fun ch absent => absurd absent List.not_mem_nil
            obtain ⟨short, table⟩ := loadFields_short ih more inside
            intro o member
            obtain before | is := List.mem_or_eq_of_mem_set member
            · exact table o before
            · obtain rfl := Option.some.inj is
              exact short
          · split at tagged
            · cases tagged
            · obtain ⟨-, rfl⟩ := Prod.mk.inj (Except.ok.inj tagged)
              exact table

theorem short_of_roundTrips (round : g.RoundTrips asserts) : g.StringsShort := by
  obtain ⟨fuel, saved, s, index, -, loaded, -, copied⟩ := round
  have start : ShortTable [none] := by
    intro o member
    cases List.mem_singleton.mp member
  obtain ⟨-, table⟩ := loadFields_short loadPersistence_short start loaded
  intro a reachable ch member
  have same : Value.string ch ∈ (g.copy index a).fields :=
    List.mem_map.mpr ⟨.string ch, member, rfl⟩
  exact table _ (List.mem_of_getElem? (copied.each a reachable)) ch same

/-- A graph comes back exactly when the size of each of its strings is an `int`. -/
theorem graph_roundTrips_iff (g : ObjectGraph classes) (asserts : Bool) (few : g.Few) :
    g.RoundTrips asserts ↔ g.StringsShort :=
  ⟨short_of_roundTrips, fun short => roundTrips_of_short few short asserts⟩

/-- Two objects that point to each other, the second one shared, with a null pointer. -/
def cycleObjects (name : Bytes) : Nat → Stored
  | 0 => ⟨0, [.string name, .object (some 1), .object (some 1)]⟩
  | _ => ⟨0, [.string [98], .object (some 0), .object none]⟩

theorem cycle_reachable {name : Bytes} {a : Nat}
    (reachable : Reachable (cycleObjects name) [some 0, none, some 1] a) : a < 2 := by
  induction reachable with
  | root member => simp at member; omega
  | @field a b _ member =>
      match a, member with
      | 0, member => simp [cycleObjects] at member; omega
      | a + 1, member => simp [cycleObjects] at member; omega

def cycle (name : Bytes) : ObjectGraph
    [.string fun _ => .object fun _ => .object fun _ => .done] where
  objects := cycleObjects name
  roots := [some 0, none, some 1]
  finite := (Set.finite_lt_nat 2).subset fun _ => cycle_reachable
  registered a _ := by
    match a with
    | 0 => exact ⟨_, rfl, trivial⟩
    | a + 1 => exact ⟨_, rfl, trivial⟩

theorem cycle_roundTrips : (cycle [97]).RoundTrips false := by
  have within : {a | Reachable (cycle [97]).objects (cycle [97]).roots a} ⊆
      (Finset.range 2 : Set Nat) := fun a reachable =>
    Finset.mem_coe.mpr (Finset.mem_range.mpr (cycle_reachable reachable))
  have small := Set.ncard_le_ncard within (Finset.finite_toSet _)
  rw [Set.ncard_coe_finset, Finset.card_range] at small
  refine (graph_roundTrips_iff (cycle [97]) false (by rw [ObjectGraph.Few]; omega)).mpr ?_
  intro a _ ch member
  match a, member with
  | 0, member => simp [cycle, cycleObjects] at member; simp [member]
  | a + 1, member => simp [cycle, cycleObjects] at member; simp [member]

/-- The size of a name of 2 GiB is read as a negative number. -/
theorem cycle_not_roundTrips : ¬(cycle (List.replicate (2 ^ 31) 97)).RoundTrips false := by
  intro round
  have short := short_of_roundTrips round 0 (.root List.mem_cons_self) _ List.mem_cons_self
  rw [List.length_replicate] at short
  exact absurd short (Nat.lt_irrefl _)

end Cgsf.Proof.RPC.CPstream
