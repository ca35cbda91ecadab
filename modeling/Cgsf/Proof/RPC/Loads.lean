import Cgsf.RPC.Loads

/-!
# What a load does with malformed input

A load that finds what it asks for everywhere succeeds. Where it does not, only two assertions look;
everything else is read or used as it came.
-/

namespace Cgsf.Proof.RPC.CPstream
open Cgsf.RPC Cgsf.RPC.CPstream

variable {asserts : Bool} {apfnCreate : List Loads} {loads : Loads} {s s' : Source}
  {values : List Value} {fuel : Nat} {fault : Fault}

theorem bind_eq_ok {ε α β : Type} {x : Except ε α} {f : α → Except ε β} {b : β} :
    (x >>= f) = .ok b ↔ ∃ a, x = .ok a ∧ f a = .ok b := by
  constructor
  · intro result
    cases x with
    | error e => cases result
    | ok a => exact ⟨a, rfl, result⟩
  · rintro ⟨a, rfl, result⟩
    exact result

theorem bind_eq_error {ε α β : Type} {x : Except ε α} {f : α → Except ε β} {e : ε} :
    (x >>= f) = .error e ↔ x = .error e ∨ ∃ a, x = .ok a ∧ f a = .error e := by
  constructor
  · intro stopped
    cases x with
    | error e' => exact .inl (congrArg Except.error (Except.error.inj stopped))
    | ok a => exact .inr ⟨a, rfl, stopped⟩
  · rintro (rfl | ⟨a, rfl, stopped⟩)
    · rfl
    · exact stopped

theorem orFault_eq_ok {α : Type} {o : Option α} {a : α} : orFault fault o = .ok a ↔ o = some a := by
  cases o <;> simp [orFault]

theorem orFault_eq_error {α : Type} {o : Option α} {e : Fault} :
    orFault fault o = .error e ↔ o = none ∧ fault = e := by
  cases o <;> simp [orFault]

theorem loadPersistence_head (iTag i : Int32) (rest : Bytes) (apObj : List (Option Stored)) :
    loadPersistence asserts apfnCreate (fuel + 1) ⟨saveInt iTag ++ (saveInt i ++ rest), apObj⟩ =
      loadTagged asserts apfnCreate (loadFields (loadPersistence asserts apfnCreate fuel)) iTag i
        ⟨rest, apObj⟩ := by
  rw [loadPersistence, loadInt_saveInt]
  simp only [orFault, bind, Except.bind, loadInt_saveInt]

theorem reads_shrinks (reads : Reads apfnCreate loads s values s') :
    s'.rest.length ≤ s.rest.length := by
  induction reads with
  | done => exact Nat.le_refl _
  | scalar _ ih => exact ih.trans (by simp)
  | string _ _ ih => exact ih.trans (by simp)
  | indexed _ _ ih => exact ih.trans (by simp; omega)
  | object _ _ _ inside after => exact after.trans (inside.trans (by simp; omega))

/-- What is there is loaded, with or without assertions. -/
theorem load_of_reads (reads : Reads apfnCreate loads s values s') (asserts : Bool) :
    ∀ fuel, s.rest.length ≤ fuel →
      loadFields (loadPersistence asserts apfnCreate fuel) loads s = .ok (values, s') := by
  induction reads with
  | done => exact fun _ _ => rfl
  | @scalar next bytes rest apObj values s _ ih =>
      intro fuel enough
      rw [List.length_append] at enough
      rw [loadFields, copyData_append]
      change (loadFields _ (next bytes) ⟨rest, apObj⟩ >>= _) = _
      rw [ih fuel (by simp only; omega)]
      rfl
  | @string next ch rest apObj values s short _ ih =>
      intro fuel enough
      rw [List.length_append] at enough
      rw [loadFields, loadString_saveString ch rest short]
      change (loadFields _ (next ch) ⟨rest, apObj⟩ >>= _) = _
      rw [ih fuel (by simp only; omega)]
      rfl
  | @indexed next i rest apObj values s met _ ih =>
      intro fuel enough
      obtain ⟨pObj, is⟩ := Option.isSome_iff_exists.mp met
      simp only [List.length_append, saveInt_length] at enough
      obtain ⟨fuel, rfl⟩ := Nat.exists_eq_add_of_le' (show 1 ≤ fuel by omega)
      rw [loadFields, loadPersistence_head, loadTagged, if_pos rfl, is]
      change (loadFields _ (next _) ⟨rest, apObj⟩ >>= _) = _
      rw [ih _ (by simp only; omega)]
      rfl
  | @object next no rest apObj fields values create inner s registered inside _ within after =>
      intro fuel enough
      have shrinks := reads_shrinks inside
      simp only [List.length_append, saveInt_length] at enough shrinks
      obtain ⟨fuel, rfl⟩ := Nat.exists_eq_add_of_le' (show 1 ≤ fuel by omega)
      rw [loadFields, loadPersistence_head, loadTagged, if_neg (by decide), if_pos rfl, registered]
      change ((loadFields _ create ⟨rest, apObj ++ [some { registerNo := no }]⟩ >>= _) >>= _) = _
      rw [within fuel (by simp only; omega)]
      change (loadFields _ (next _) _ >>= _) = _
      rw [after _ (by simp only; omega)]
      rfl

/-! ## Nothing else is loaded -/

/-- How an object is loaded when nothing is wrong. -/
inductive Takes (apfnCreate : List Loads) (s : Source) : Option Nat → Source → Prop where
  | indexed {i : Int32} {rest : Bytes} (bytes : s.rest = saveInt ptIndexed ++ (saveInt i ++ rest))
      (met : (entry s.apObj i).isSome) : Takes apfnCreate s (some i.toInt.toNat) { s with rest }
  | object {no : Int32} {rest : Bytes} {create : Loads} {fields : List Value} {inner : Source}
      (bytes : s.rest = saveInt ptObject ++ (saveInt no ++ rest))
      (registered : entry apfnCreate no = some create)
      (inside : Reads apfnCreate create
        ⟨rest, s.apObj ++ [some { registerNo := no }]⟩ fields inner) :
      Takes apfnCreate s (some s.apObj.length)
        { inner with apObj := inner.apObj.set s.apObj.length (some ⟨no, fields⟩) }

variable {next : Option Nat → Loads} {pshp : Option Nat} {s₁ : Source}
  {loadObj : Source → Except Fault (Option Nat × Source)}

theorem Takes.reads (takes : Takes apfnCreate s pshp s₁)
    (after : Reads apfnCreate (next pshp) s₁ values s') :
    Reads apfnCreate (.object next) s (.object pshp :: values) s' := by
  obtain ⟨rest, apObj⟩ := s
  cases takes with
  | indexed bytes met =>
      obtain rfl := bytes
      exact .indexed met after
  | object bytes registered inside =>
      obtain rfl := bytes
      exact .object registered inside after

theorem Takes.stops (takes : Takes apfnCreate s pshp s₁) (after : Stops apfnCreate (next pshp) s₁) :
    Stops apfnCreate (.object next) s := by
  obtain ⟨rest, apObj⟩ := s
  cases takes with
  | indexed bytes met =>
      obtain rfl := bytes
      exact .indexed met after
  | object bytes registered inside =>
      obtain rfl := bytes
      exact .behind registered inside after

theorem reads_of_loadFields
    (object : ∀ {s pshp s₁}, loadObj s = .ok (pshp, s₁) → Takes apfnCreate s pshp s₁)
    (result : loadFields loadObj loads s = .ok (values, s')) :
    Reads apfnCreate loads s values s' := by
  induction loads generalizing s values with
  | done =>
      obtain ⟨rfl, rfl⟩ := Prod.mk.inj (Except.ok.inj result)
      exact .done
  | scalar size next ih =>
      obtain ⟨⟨bytes, rest⟩, read, result⟩ := bind_eq_ok.mp result
      obtain ⟨⟨values', s''⟩, after, done⟩ := bind_eq_ok.mp result
      obtain ⟨rfl, rfl⟩ := Prod.mk.inj (Except.ok.inj done)
      obtain ⟨stream, apObj⟩ := s
      obtain ⟨rfl, rfl⟩ := eq_of_copyData (orFault_eq_ok.mp read)
      exact .scalar (ih _ after)
  | string next ih =>
      obtain ⟨⟨ch, rest⟩, read, result⟩ := bind_eq_ok.mp result
      obtain ⟨⟨values', s''⟩, after, done⟩ := bind_eq_ok.mp result
      obtain ⟨rfl, rfl⟩ := Prod.mk.inj (Except.ok.inj done)
      obtain ⟨stream, apObj⟩ := s
      obtain ⟨short, rfl⟩ := eq_of_loadString (orFault_eq_ok.mp read)
      exact .string short (ih _ after)
  | object next ih =>
      obtain ⟨⟨pshp, s₁⟩, taken, result⟩ := bind_eq_ok.mp result
      obtain ⟨⟨values', s''⟩, after, done⟩ := bind_eq_ok.mp result
      obtain ⟨rfl, rfl⟩ := Prod.mk.inj (Except.ok.inj done)
      exact (object taken).reads (ih _ after)

/-- Where the two numbers of an object are there. -/
theorem loadPersistence_succ {result : Except Fault (Option Nat × Source)}
    (is : loadPersistence asserts apfnCreate (fuel + 1) s = result) : result = .error .bytes ∨
      ∃ iTag i rest, s.rest = saveInt iTag ++ (saveInt i ++ rest) ∧
        loadTagged asserts apfnCreate (loadFields (loadPersistence asserts apfnCreate fuel)) iTag i
          { s with rest } = result := by
  rw [loadPersistence] at is
  cases first : loadInt s.rest with
  | none =>
      rw [first] at is
      exact .inl is.symm
  | some tagged =>
      obtain ⟨iTag, rest⟩ := tagged
      rw [first] at is
      cases second : loadInt rest with
      | none =>
          change (orFault .bytes (loadInt rest) >>= _) = _ at is
          rw [second] at is
          exact .inl is.symm
      | some numbered =>
          obtain ⟨i, rest'⟩ := numbered
          change (orFault .bytes (loadInt rest) >>= _) = _ at is
          rw [second] at is
          exact .inr ⟨iTag, i, rest', by rw [eq_of_loadInt first, eq_of_loadInt second], is⟩

theorem takes_of_loadPersistence
    (result : loadPersistence true apfnCreate fuel s = .ok (pshp, s₁)) :
    Takes apfnCreate s pshp s₁ := by
  induction fuel generalizing s pshp s₁ with
  | zero => cases result
  | succ fuel ih =>
      obtain short | ⟨iTag, i, rest, bytes, tagged⟩ := loadPersistence_succ result
      · cases short
      · rw [loadTagged] at tagged
        split at tagged
        · rename_i indexed
          subst indexed
          obtain ⟨pObj, met, done⟩ := bind_eq_ok.mp tagged
          obtain ⟨rfl, rfl⟩ := Prod.mk.inj (Except.ok.inj done)
          exact .indexed bytes (Option.isSome_iff_exists.mpr ⟨pObj, orFault_eq_ok.mp met⟩)
        · split at tagged
          · rename_i object
            subst object
            obtain ⟨create, registered, tagged⟩ := bind_eq_ok.mp tagged
            obtain ⟨⟨fields, inner⟩, inside, done⟩ := bind_eq_ok.mp tagged
            obtain ⟨rfl, rfl⟩ := Prod.mk.inj (Except.ok.inj done)
            exact .object bytes (orFault_eq_ok.mp registered) (reads_of_loadFields ih inside)
          · rw [if_pos rfl] at tagged
            cases tagged

/-! ## What the assertions see -/

theorem stops_of_loadFields
    (object : ∀ {s pshp s₁}, loadObj s = .ok (pshp, s₁) → Takes apfnCreate s pshp s₁)
    (halts : ∀ {s fault}, loadObj s = .error fault → fault.Reported true →
      ∀ next, Stops apfnCreate (.object next) s)
    (stopped : loadFields loadObj loads s = .error fault) (reported : fault.Reported true) :
    Stops apfnCreate loads s := by
  induction loads generalizing s with
  | done => cases stopped
  | scalar size next ih =>
      obtain short | ⟨⟨bytes, rest⟩, read, behind⟩ := bind_eq_error.mp stopped
      · obtain ⟨-, rfl⟩ := orFault_eq_error.mp short
        cases reported
      · obtain ⟨stream, apObj⟩ := s
        obtain ⟨rfl, rfl⟩ := eq_of_copyData (orFault_eq_ok.mp read)
        obtain after | ⟨_, _, done⟩ := bind_eq_error.mp behind
        · exact .scalar (ih _ after)
        · cases done
  | string next ih =>
      obtain short | ⟨⟨ch, rest⟩, read, behind⟩ := bind_eq_error.mp stopped
      · obtain ⟨-, rfl⟩ := orFault_eq_error.mp short
        cases reported
      · obtain ⟨stream, apObj⟩ := s
        obtain ⟨short, rfl⟩ := eq_of_loadString (orFault_eq_ok.mp read)
        obtain after | ⟨_, _, done⟩ := bind_eq_error.mp behind
        · exact .string short (ih _ after)
        · cases done
  | object next ih =>
      obtain halted | ⟨⟨pshp, s₁⟩, taken, stopped⟩ := bind_eq_error.mp stopped
      · exact halts halted reported next
      · obtain after | ⟨_, _, done⟩ := bind_eq_error.mp stopped
        · exact (object taken).stops (ih _ after)
        · cases done

theorem stops_of_loadPersistence (stopped : loadPersistence true apfnCreate fuel s = .error fault)
    (reported : fault.Reported true) (next : Option Nat → Loads) :
    Stops apfnCreate (.object next) s := by
  induction fuel generalizing s fault next with
  | zero =>
      cases stopped
      cases reported
  | succ fuel ih =>
      obtain short | ⟨iTag, i, rest, bytes, tagged⟩ := loadPersistence_succ stopped
      · cases short
        cases reported
      · obtain ⟨stream, apObj⟩ := s
        obtain rfl := bytes
        rw [loadTagged] at tagged
        split at tagged
        · obtain outside | ⟨_, _, done⟩ := bind_eq_error.mp tagged
          · obtain ⟨-, rfl⟩ := orFault_eq_error.mp outside
            cases reported
          · cases done
        · rename_i indexed
          split at tagged
          · rename_i object
            subst object
            obtain absent | ⟨create, registered, created⟩ := bind_eq_error.mp tagged
            · obtain ⟨unknown, rfl⟩ := orFault_eq_error.mp absent
              exact .registerNo reported.2 unknown
            · obtain inside | ⟨_, _, done⟩ := bind_eq_error.mp created
              · exact .inside (orFault_eq_ok.mp registered)
                  (stops_of_loadFields takes_of_loadPersistence ih inside reported)
              · cases done
          · rename_i object
            exact .tag indexed object

/-- The assertions end a load that meets such a thing first. -/
theorem load_of_stops (stops : Stops apfnCreate loads s) : ∀ fuel, s.rest.length ≤ fuel →
    ∃ fault, loadFields (loadPersistence true apfnCreate fuel) loads s = .error fault ∧
      fault.Reported true := by
  induction stops with
  | @scalar next bytes rest apObj _ ih =>
      intro fuel enough
      rw [List.length_append] at enough
      obtain ⟨fault, stopped, reported⟩ := ih fuel (by simp only; omega)
      refine ⟨fault, ?_, reported⟩
      rw [loadFields, copyData_append]
      exact bind_eq_error.mpr (.inr ⟨_, rfl, bind_eq_error.mpr (.inl stopped)⟩)
  | @string next ch rest apObj short _ ih =>
      intro fuel enough
      rw [List.length_append] at enough
      obtain ⟨fault, stopped, reported⟩ := ih fuel (by simp only; omega)
      refine ⟨fault, ?_, reported⟩
      rw [loadFields, loadString_saveString ch rest short]
      exact bind_eq_error.mpr (.inr ⟨_, rfl, bind_eq_error.mpr (.inl stopped)⟩)
  | @tag next iTag i rest apObj indexed object =>
      intro fuel enough
      simp only [List.length_append, saveInt_length] at enough
      obtain ⟨fuel, rfl⟩ := Nat.exists_eq_add_of_le' (show 1 ≤ fuel by omega)
      refine ⟨.tag iTag, ?_, rfl⟩
      rw [loadFields, loadPersistence_head, loadTagged, if_neg indexed, if_neg object]
      rfl
  | @registerNo next no rest apObj nonneg unknown =>
      intro fuel enough
      simp only [List.length_append, saveInt_length] at enough
      obtain ⟨fuel, rfl⟩ := Nat.exists_eq_add_of_le' (show 1 ≤ fuel by omega)
      refine ⟨.registerNo no, ?_, rfl, nonneg⟩
      rw [loadFields, loadPersistence_head, loadTagged, if_neg (by decide), if_pos rfl, unknown]
      rfl
  | @indexed next i rest apObj met _ ih =>
      intro fuel enough
      obtain ⟨pObj, is⟩ := Option.isSome_iff_exists.mp met
      simp only [List.length_append, saveInt_length] at enough
      obtain ⟨fuel, rfl⟩ := Nat.exists_eq_add_of_le' (show 1 ≤ fuel by omega)
      obtain ⟨fault, stopped, reported⟩ := ih (fuel + 1) (by simp only; omega)
      refine ⟨fault, ?_, reported⟩
      rw [loadFields, loadPersistence_head, loadTagged, if_pos rfl, is]
      exact bind_eq_error.mpr (.inr ⟨_, rfl, bind_eq_error.mpr (.inl stopped)⟩)
  | @inside next no rest apObj create registered _ ih =>
      intro fuel enough
      simp only [List.length_append, saveInt_length] at enough
      obtain ⟨fuel, rfl⟩ := Nat.exists_eq_add_of_le' (show 1 ≤ fuel by omega)
      obtain ⟨fault, stopped, reported⟩ := ih fuel (by simp only; omega)
      refine ⟨fault, ?_, reported⟩
      rw [loadFields, loadPersistence_head, loadTagged, if_neg (by decide), if_pos rfl, registered]
      exact bind_eq_error.mpr (.inl (bind_eq_error.mpr
        (.inr ⟨create, rfl, bind_eq_error.mpr (.inl stopped)⟩)))
  | @behind next no rest apObj fields create inner registered inside _ ih =>
      intro fuel enough
      have shrinks := reads_shrinks inside
      simp only [List.length_append, saveInt_length] at enough shrinks
      obtain ⟨fuel, rfl⟩ := Nat.exists_eq_add_of_le' (show 1 ≤ fuel by omega)
      obtain ⟨fault, stopped, reported⟩ := ih (fuel + 1) (by simp only; omega)
      refine ⟨fault, ?_, reported⟩
      rw [loadFields, loadPersistence_head, loadTagged, if_neg (by decide), if_pos rfl, registered]
      change ((loadFields _ create ⟨rest, apObj ++ [some { registerNo := no }]⟩ >>= _) >>= _) = _
      rw [load_of_reads inside true fuel (by simp only; omega)]
      exact bind_eq_error.mpr (.inr ⟨_, rfl, bind_eq_error.mpr (.inl stopped)⟩)

/-- A load does what it should with its input exactly when nothing is wrong with it, or when an
assertion is compiled in for the first thing that is. -/
theorem loadsSafely_iff (asserts : Bool) (apfnCreate : List Loads) (loads : Loads) (buf : Bytes) :
    LoadsSafely asserts apfnCreate loads buf ↔
      WellFormed apfnCreate loads buf ∨
        asserts = true ∧ Stops apfnCreate loads { rest := buf } := by
  constructor
  · intro safe
    by_cases formed : WellFormed apfnCreate loads buf
    · exact .inl formed
    · obtain ⟨fault, stopped⟩ := safe.reported formed
      have reported := safe.inside fault stopped
      cases asserts with
      | false => cases fault with
        | bytes => cases reported
        | index i => cases reported
        | registerNo i => cases reported.1
        | tag iTag => cases reported
      | true =>
          exact .inr ⟨rfl,
            stops_of_loadFields takes_of_loadPersistence stops_of_loadPersistence stopped reported⟩
  · rintro (⟨values, s, reads⟩ | ⟨rfl, stops⟩)
    · have loaded := load_of_reads reads asserts buf.length (Nat.le_refl _)
      refine ⟨fun fault stopped => ?_, fun wrong => absurd ⟨values, s, reads⟩ wrong⟩
      cases loaded.symm.trans stopped
    · obtain ⟨fault, stopped, reported⟩ := load_of_stops stops buf.length (Nat.le_refl _)
      refine ⟨fun fault' stopped' => ?_, fun _ => ⟨fault, stopped⟩⟩
      obtain rfl := Except.error.inj (stopped.symm.trans stopped')
      exact reported

/-- Four bytes are taken from two. Index 7 is used in a table that has only NULL. Without assertions
a pointer with tag 2 is passed over. -/
theorem loads_outside : ¬LoadsSafely true [] (.scalar 4 fun _ => .done) [1, 2] ∧
    ¬LoadsSafely true [] (.object fun _ => .done) [0, 0, 0, 0, 7, 0, 0, 0] ∧
    ¬LoadsSafely false [] (.object fun _ => .done) [2, 0, 0, 0, 0, 0, 0, 0] := by
  refine ⟨fun safe => safe.inside .bytes rfl, fun safe => safe.inside (.index 7) rfl, ?_⟩
  intro safe
  have formed : ¬WellFormed [] (.object fun _ => .done) [2, 0, 0, 0, 0, 0, 0, 0] := by
    rintro ⟨values, s, reads⟩
    have loaded := load_of_reads reads true 8 (Nat.le_refl _)
    have stops : loadFields (loadPersistence true [] 8) (.object fun _ => .done)
        { rest := [2, 0, 0, 0, 0, 0, 0, 0] } = .error (.tag 2) := rfl
    cases stops.symm.trans loaded
  obtain ⟨fault, stopped⟩ := safe.reported formed
  have loaded : load false [] (.object fun _ => .done) [2, 0, 0, 0, 0, 0, 0, 0] =
      .ok ([.object none], { rest := [] }) := rfl
  cases loaded.symm.trans stopped

end Cgsf.Proof.RPC.CPstream
