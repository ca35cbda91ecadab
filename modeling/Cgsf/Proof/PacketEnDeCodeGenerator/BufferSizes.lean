import Cgsf.PacketEnDeCodeGenerator.CppPacketProtocolFileParse
import Mathlib.Data.Fintype.Card
import Mathlib.Data.Set.Finite.List

/-!
# When the sizes of a protocol file are right

The count of a struct goes through its members and the structs they name. It comes to an end if no
struct contains itself, and the casts to `short` change it only where it is too large for one.
-/

namespace Cgsf.Proof.PacketEnDeCodeGenerator.BufferSizes
open Cgsf.PacketEnDeCodeGenerator CppPacketProtocolFileParse Library

variable {α β : Type} {cast : Int → Int} {nested nested' : ParsedStruct → Result Int}
  {structs : List ParsedStruct} {info inner : ParsedStruct} {total size size' : Int}
  {memberList : List MemberDataInfo} {depth depth' : Nat}

theorem bind_eq_ok {x : Result α} {f : α → Result β} {b : β} :
    x >>= f = .ok b ↔ ∃ a, x = .ok a ∧ f a = .ok b := by
  cases x with
  | error e =>
      constructor
      · intro same
        cases same
      · rintro ⟨a, same, -⟩
        cases same
  | ok a =>
      constructor
      · intro same
        exact ⟨a, rfl, same⟩
      · rintro ⟨a', same, is⟩
        cases same
        exact is

theorem bind_of_ok {x : Result α} {f : α → Result β} {a : α} (is : x = .ok a) : x >>= f = f a := by
  rw [is]
  rfl

theorem bind_of_error {x : Result α} {f : α → Result β} {e : Failure} (is : x = .error e) :
    x >>= f = .error e := by
  rw [is]
  rfl

theorem mem_of_find {type : String} (found : find structs type = some inner) : inner ∈ structs :=
  List.mem_of_find?_eq_some found

/-! ## The count of one struct -/

/-- A member whose type is a struct, before the count ends. -/
def Counts (memberList : List MemberDataInfo) (m : MemberDataInfo) : Prop :=
  m ∈ memberList.takeWhile (fun m => !(isCppBasicType m.type) || 0 < m.arrayValue) ∧
    isCppBasicType m.type = false

theorem counts_cons {m m' : MemberDataInfo}
    (goes : isCppBasicType m.type = false ∨ 0 < m.arrayValue) :
    Counts (m :: memberList) m' ↔
      m' = m ∧ isCppBasicType m.type = false ∨ Counts memberList m' := by
  unfold Counts
  rw [List.takeWhile_cons, if_pos (by simpa using goes), List.mem_cons]
  constructor
  · rintro ⟨rfl | member, struct_⟩
    · exact .inl ⟨rfl, struct_⟩
    · exact .inr ⟨member, struct_⟩
  · rintro (⟨rfl, struct_⟩ | ⟨member, struct_⟩)
    · exact ⟨.inl rfl, struct_⟩
    · exact ⟨.inr member, struct_⟩

theorem not_counts_cons {m m' : MemberDataInfo} (basic : isCppBasicType m.type = true)
    (none_ : ¬0 < m.arrayValue) : ¬Counts (m :: memberList) m' := by
  unfold Counts
  rw [List.takeWhile_cons, if_neg (by simpa [basic] using none_)]
  simp

/-- The count is there if it is there for every struct that is used. -/
theorem membersDataSize_ok : (∃ size, membersDataSize cast nested structs total memberList = .ok size) ↔
    ∀ m, Counts memberList m → ∃ inner size, find structs m.type = some inner ∧
      nested inner = .ok size := by
  induction memberList generalizing total with
  | nil => simp [membersDataSize, Counts]
  | cons m memberList ih =>
      unfold membersDataSize
      by_cases basic : isCppBasicType m.type = true
      · rw [if_pos basic]
        by_cases some_ : 0 < m.arrayValue
        · rw [if_pos some_, ih]
          simp only [counts_cons (.inr some_), basic, Bool.true_eq_false, and_false, false_or]
        · rw [if_neg some_]
          constructor
          · intro _ m' counts
            exact absurd counts (not_counts_cons basic some_)
          · exact fun _ => ⟨8, rfl⟩
      · have struct_ : isCppBasicType m.type = false := by simpa using basic
        rw [if_neg basic]
        simp only [counts_cons (.inl struct_)]
        cases found : find structs m.type with
        | none =>
            constructor
            · rintro ⟨size, same⟩
              cases same
            · intro all
              obtain ⟨inner, size, same, -⟩ := all m (.inl ⟨rfl, struct_⟩)
              rw [found] at same
              cases same
        | some inner =>
            constructor
            · rintro ⟨size, same⟩ m' (⟨rfl, -⟩ | counts)
              · obtain ⟨size', is, -⟩ := bind_eq_ok.mp same
                exact ⟨inner, size', found, is⟩
              · obtain ⟨size', -, is⟩ := bind_eq_ok.mp same
                exact ih.mp ⟨size, is⟩ m' counts
            · intro all
              obtain ⟨inner', size, same, is⟩ := all m (.inl ⟨rfl, struct_⟩)
              rw [found] at same
              cases same
              obtain ⟨size', rest⟩ := ih.mpr fun m' counts => all m' (.inr counts)
              exact ⟨size', bind_eq_ok.mpr ⟨size, is, rest⟩⟩

theorem membersDataSize_mono (le : ∀ inner size, nested inner = .ok size → nested' inner = .ok size)
    (is : membersDataSize cast nested structs total memberList = .ok size) :
    membersDataSize cast nested' structs total memberList = .ok size := by
  induction memberList generalizing total with
  | nil => exact is
  | cons m memberList ih =>
      unfold membersDataSize at is ⊢
      by_cases basic : isCppBasicType m.type = true
      · rw [if_pos basic] at is ⊢
        by_cases some_ : 0 < m.arrayValue
        · rw [if_pos some_] at is ⊢
          exact ih is
        · rw [if_neg some_] at is ⊢
          exact is
      · rw [if_neg basic] at is ⊢
        cases found : find structs m.type with
        | none =>
            rw [found] at is
            cases is
        | some inner =>
            rw [found] at is
            obtain ⟨size', one, rest⟩ := bind_eq_ok.mp is
            exact bind_eq_ok.mpr ⟨size', le _ _ one, ih rest⟩

theorem structDataSize_mono (le : depth ≤ depth')
    (is : structDataSize cast structs depth info = .ok size) :
    structDataSize cast structs depth' info = .ok size := by
  induction depth generalizing depth' info size with
  | zero => cases is
  | succ depth ih =>
      obtain ⟨depth', rfl⟩ := Nat.exists_eq_add_of_le' le
      exact membersDataSize_mono (fun inner size is => ih (Nat.le_add_left _ _) is) is

theorem structDataSize_unique (one : structDataSize cast structs depth info = .ok size)
    (two : structDataSize cast structs depth' info = .ok size') : size = size' := by
  have one' := structDataSize_mono (Nat.le_max_left depth depth') one
  have two' := structDataSize_mono (Nat.le_max_right depth depth') two
  rw [one'] at two'
  cases two'
  rfl

theorem structDataSize_ok :
    (∃ size, structDataSize cast structs (depth + 1) info = .ok size) ↔
      ∀ m, Counts info.memberList m → ∃ inner size, find structs m.type = some inner ∧
        structDataSize cast structs depth inner = .ok size :=
  membersDataSize_ok

/-! ## The casts -/

theorem toShort_add (m n : Int) : toShort (toShort m + toShort n) = toShort (m + n) := by
  unfold toShort
  rw [Int.bmod_add_bmod, Int.add_bmod_bmod]

theorem membersDataSize_toShort :
    membersDataSize toShort (fun inner => (nested inner).map toShort) structs (toShort total) memberList =
      (membersDataSize id nested structs total memberList).map toShort := by
  induction memberList generalizing total with
  | nil => rfl
  | cons m memberList ih =>
      unfold membersDataSize
      split
      · split
        · rw [toShort_add, ih]
          rfl
        · rfl
      · split
        · rfl
        · rename_i inner found
          cases is : nested inner with
          | error e => rfl
          | ok size =>
              change membersDataSize toShort _ structs (toShort (toShort total + toShort size)) _ = _
              rw [toShort_add, ih]
              rfl

theorem structDataSize_toShort : structDataSize toShort structs depth info =
    (structDataSize id structs depth info).map toShort := by
  induction depth generalizing info with
  | zero => rfl
  | succ depth ih =>
      have nested : structDataSize toShort structs depth =
          fun inner => (structDataSize id structs depth inner).map toShort := funext fun inner => ih
      unfold structDataSize
      rw [nested]
      change membersDataSize toShort _ structs (toShort 0) _ = _
      exact membersDataSize_toShort

theorem membersDataSize_nonneg (nonneg : ∀ inner size, nested inner = .ok size → 0 ≤ size)
    (start : 0 ≤ total) (is : membersDataSize id nested structs total memberList = .ok size) :
    0 ≤ size := by
  induction memberList generalizing total with
  | nil =>
      cases is
      exact start
  | cons m memberList ih =>
      unfold membersDataSize at is
      split at is
      · split at is
        · rename_i some_
          refine ih ?_ is
          change 0 ≤ total + 4 * m.arrayValue
          omega
        · cases is
          decide
      · split at is
        · cases is
        · obtain ⟨size', one, rest⟩ := bind_eq_ok.mp is
          exact ih (Int.add_nonneg start (nonneg _ _ one)) rest

theorem structDataSize_nonneg (is : structDataSize id structs depth info = .ok size) : 0 ≤ size := by
  induction depth generalizing info size with
  | zero => cases is
  | succ depth ih => exact membersDataSize_nonneg (fun inner size one => ih one) le_rfl is

/-- A count that fits into a `short` is the same with and without the casts. -/
theorem toShort_eq_self (nonneg : 0 ≤ size) : toShort size = size ↔ size < 32768 := by
  unfold toShort
  rw [Int.bmod_def]
  constructor
  · intro same
    split at same <;> omega
  · intro small
    rw [Int.emod_eq_of_lt nonneg (by omega), if_pos (by omega)]

/-! ## Structs inside structs -/

theorem contains_iff : Contains structs info inner ↔
    ∃ m, Counts info.memberList m ∧ find structs m.type = some inner := by
  constructor
  · rintro ⟨m, member, struct_, found⟩
    exact ⟨m, ⟨member, struct_⟩, found⟩
  · rintro ⟨m, ⟨member, struct_⟩, found⟩
    exact ⟨m, member, struct_, found⟩

theorem acc_of_ok (is : structDataSize cast structs depth info = .ok size) :
    Acc (fun inner info => Contains structs info inner) info := by
  induction depth generalizing info size with
  | zero => cases is
  | succ depth ih =>
      constructor
      intro inner contains
      obtain ⟨m, counts, found⟩ := contains_iff.mp contains
      obtain ⟨inner', size', same, one⟩ := structDataSize_ok.mp ⟨size, is⟩ m counts
      rw [found] at same
      cases same
      exact ih one

theorem not_transGen_of_acc {r : α → α → Prop} {a : α} (acc : Acc r a) :
    ¬Relation.TransGen r a a := by
  have trans := acc.transGen
  clear acc
  induction trans with
  | intro a _ ih => exact fun self => ih a self self

/-- Many counts that are there are there at one depth. -/
theorem exists_depth {xs : List α} {p : Nat → α → Prop}
    (mono : ∀ x depth depth', depth ≤ depth' → p depth x → p depth' x)
    (each : ∀ x ∈ xs, ∃ depth, p depth x) : ∃ depth, ∀ x ∈ xs, p depth x := by
  induction xs with
  | nil => exact ⟨0, by simp⟩
  | cons x xs ih =>
      obtain ⟨one, first⟩ := each x List.mem_cons_self
      obtain ⟨two, rest⟩ := ih fun x member => each x (List.mem_cons_of_mem _ member)
      refine ⟨max one two, ?_⟩
      intro y member
      rcases List.mem_cons.mp member with rfl | member
      · exact mono _ _ _ (Nat.le_max_left _ _) first
      · exact mono _ _ _ (Nat.le_max_right _ _) (rest y member)

theorem ok_of_acc (known : Known structs)
    (acc : Acc (fun inner info => Contains structs info inner) info) (member : info ∈ structs) :
    ∃ depth size, structDataSize cast structs depth info = .ok size := by
  induction acc with
  | intro info _ ih =>
      have each : ∀ m ∈ info.memberList, ∃ depth, Counts info.memberList m →
          ∃ inner size, find structs m.type = some inner ∧
            structDataSize cast structs depth inner = .ok size := by
        intro m _
        by_cases counts : Counts info.memberList m
        · obtain ⟨inner, found⟩ :=
            Option.isSome_iff_exists.mp (known info member m counts.1 counts.2)
          obtain ⟨depth, size, is⟩ := ih inner (contains_iff.mpr ⟨m, counts, found⟩)
            (mem_of_find found)
          exact ⟨depth, fun _ => ⟨inner, size, found, is⟩⟩
        · exact ⟨0, fun counts' => absurd counts' counts⟩
      obtain ⟨depth, all⟩ := exists_depth (fun m depth depth' le holds counts => by
        obtain ⟨inner, size, found, is⟩ := holds counts
        exact ⟨inner, size, found, structDataSize_mono le is⟩) each
      exact ⟨depth + 1, structDataSize_ok.mpr fun m counts =>
        all m ((List.takeWhile_sublist _).subset counts.1) counts⟩

theorem acc_of_acyclic (acyclic : ∀ info ∈ structs, ¬Relation.TransGen (Contains structs) info info)
    (member : info ∈ structs) : Acc (fun inner info => Contains structs info inner) info := by
  let inside (a b : { info // info ∈ structs }) : Prop := Relation.TransGen (Contains structs) b.1 a.1
  have : Finite { info // info ∈ structs } := (List.finite_toSet structs).to_subtype
  have : IsTrans _ inside := ⟨fun a b c ab bc => bc.trans ab⟩
  have : Std.Irrefl inside := ⟨fun a self => acyclic a.1 a.2 self⟩
  have wellFounded : WellFounded inside := Finite.wellFounded_of_trans_of_irrefl inside
  have all (x : { info // info ∈ structs }) : Acc (fun inner info => Contains structs info inner) x.1 := by
    induction x using wellFounded.induction with
    | h x ih =>
        constructor
        intro inner contains
        obtain ⟨m, -, found⟩ := contains_iff.mp contains
        exact ih ⟨inner, mem_of_find found⟩ (.single contains)
  exact all ⟨info, member⟩

theorem membersDataSize_ok_or_depth
    (all : ∀ m, Counts memberList m → ∃ inner, find structs m.type = some inner ∧
      ((∃ size, nested inner = .ok size) ∨ nested inner = .error .depth)) :
    (∃ size, membersDataSize cast nested structs total memberList = .ok size) ∨
      membersDataSize cast nested structs total memberList = .error .depth := by
  induction memberList generalizing total with
  | nil => exact .inl ⟨total, rfl⟩
  | cons m memberList ih =>
      unfold membersDataSize
      by_cases basic : isCppBasicType m.type = true
      · rw [if_pos basic]
        by_cases some_ : 0 < m.arrayValue
        · rw [if_pos some_]
          exact ih fun m' counts => all m' ((counts_cons (.inr some_)).mpr (.inr counts))
        · rw [if_neg some_]
          exact .inl ⟨8, rfl⟩
      · have struct_ : isCppBasicType m.type = false := by simpa using basic
        rw [if_neg basic]
        obtain ⟨inner, found, is⟩ := all m ((counts_cons (.inl struct_)).mpr (.inl ⟨rfl, struct_⟩))
        rw [found]
        rcases is with ⟨size, is⟩ | is
        · dsimp only
          rw [bind_of_ok is]
          exact ih fun m' counts => all m' ((counts_cons (.inl struct_)).mpr (.inr counts))
        · exact .inr (bind_of_error is)

theorem structDataSize_ok_or_depth (known : Known structs) (member : info ∈ structs) :
    (∃ size, structDataSize cast structs depth info = .ok size) ∨
      structDataSize cast structs depth info = .error .depth := by
  induction depth generalizing info with
  | zero => exact .inr rfl
  | succ depth ih =>
      apply membersDataSize_ok_or_depth
      intro m counts
      obtain ⟨inner, found⟩ := Option.isSome_iff_exists.mp (known info member m counts.1 counts.2)
      exact ⟨inner, found, ih (mem_of_find found)⟩

/-! ## All structs -/

theorem mapM_ok {f : α → Result β} {xs : List α} {ys : List β} :
    xs.mapM f = .ok ys ↔ List.Forall₂ (fun x y => f x = .ok y) xs ys := by
  induction xs generalizing ys with
  | nil =>
      rw [List.mapM_nil]
      constructor
      · intro same
        cases same
        exact .nil
      · intro each
        cases each
        rfl
  | cons x xs ih =>
      rw [List.mapM_cons]
      constructor
      · intro same
        obtain ⟨y, one, same⟩ := bind_eq_ok.mp same
        obtain ⟨ys', rest, same⟩ := bind_eq_ok.mp same
        cases same
        exact .cons one (ih.mp rest)
      · intro each
        cases each with
        | cons one rest => exact bind_eq_ok.mpr ⟨_, one, bind_eq_ok.mpr ⟨_, ih.mpr rest, rfl⟩⟩

theorem mapM_exists {f : α → Result β} {xs : List α} (each : ∀ x ∈ xs, ∃ y, f x = .ok y) :
    ∃ ys, xs.mapM f = .ok ys := by
  induction xs with
  | nil => exact ⟨[], rfl⟩
  | cons x xs ih =>
      obtain ⟨y, one⟩ := each x List.mem_cons_self
      obtain ⟨ys, rest⟩ := ih fun x member => each x (List.mem_cons_of_mem _ member)
      rw [List.mapM_cons]
      exact ⟨y :: ys, bind_eq_ok.mpr ⟨y, one, bind_eq_ok.mpr ⟨ys, rest, rfl⟩⟩⟩

theorem mapM_depth {f : α → Result β} {xs : List α}
    (each : ∀ x ∈ xs, (∃ y, f x = .ok y) ∨ f x = .error .depth) :
    (∃ ys, xs.mapM f = .ok ys) ∨ xs.mapM f = .error .depth := by
  induction xs with
  | nil => exact .inl ⟨[], rfl⟩
  | cons x xs ih =>
      rw [List.mapM_cons]
      rcases each x List.mem_cons_self with ⟨y, one⟩ | one
      · rw [bind_of_ok one]
        rcases ih fun x member => each x (List.mem_cons_of_mem _ member) with ⟨ys, rest⟩ | rest
        · exact .inl ⟨y :: ys, bind_eq_ok.mpr ⟨ys, rest, rfl⟩⟩
        · exact .inr (bind_of_error rest)
      · exact .inr (bind_of_error one)

section File

variable {methods : ExtensionMethods} {bytesPerChar : Nat} {maxBufferSize : Int}
  {packetDataNamePrefix : Text} {file : Option (List Text)} {d : Declarations}
  {structs' : List ParsedStruct} {out : ParsedStruct}

/-- The struct with its size. -/
def withSize (maxBufferSize packetHeaderSize : Int) (info : ParsedStruct) (size : Int) :
    ParsedStruct :=
  { info with
    defineDataBufferSize := min maxBufferSize (info.defineDataBufferSize + size + packetHeaderSize) }

theorem cutDown_addDataSize {sized : ParsedStruct} (is : addDataSize d depth info = .ok sized) :
    ∃ size, structDataSize toShort d.structs depth info = .ok size ∧
      cutDown maxBufferSize sized = withSize maxBufferSize d.packetHeaderSize info size := by
  obtain ⟨size, known, same⟩ := bind_eq_ok.mp is
  cases same
  refine ⟨size, known, ?_⟩
  unfold cutDown withSize
  dsimp only
  split
  · rename_i large
    rw [min_eq_left (by omega)]
  · rw [min_eq_right (by omega)]

theorem addDataSize_exists :
    (∃ sized, addDataSize d depth info = .ok sized) ↔
      ∃ size, structDataSize toShort d.structs depth info = .ok size := by
  constructor
  · rintro ⟨sized, is⟩
    obtain ⟨size, is, -⟩ := bind_eq_ok.mp is
    exact ⟨size, is⟩
  · rintro ⟨size, is⟩
    exact ⟨_, bind_eq_ok.mpr ⟨size, is, rfl⟩⟩

theorem parseFile_ok (read : declarations methods packetDataNamePrefix file = .ok d)
    (is : parseFile methods maxBufferSize packetDataNamePrefix depth file = .ok structs') :
    List.Forall₂ (fun info out => ∃ size, structDataSize toShort d.structs depth info = .ok size ∧
      out = withSize maxBufferSize d.packetHeaderSize info size) d.structs structs' := by
  obtain ⟨d', read', is⟩ := bind_eq_ok.mp is
  rw [read] at read'
  cases read'
  obtain ⟨sized, all, same⟩ := bind_eq_ok.mp is
  cases same
  rw [List.forall₂_map_right_iff]
  refine (mapM_ok.mp all).imp ?_
  intro info sized one
  exact cutDown_addDataSize one

theorem parseFile_exists (read : declarations methods packetDataNamePrefix file = .ok d)
    (all : ∀ info ∈ d.structs, ∃ size, structDataSize toShort d.structs depth info = .ok size) :
    ∃ structs', parseFile methods maxBufferSize packetDataNamePrefix depth file = .ok structs' := by
  obtain ⟨sized, is⟩ := mapM_exists fun info member => addDataSize_exists.mpr (all info member)
  exact ⟨_, bind_eq_ok.mpr ⟨d, read, bind_eq_ok.mpr ⟨sized, is, rfl⟩⟩⟩

theorem parseFile_ok_or_depth (read : declarations methods packetDataNamePrefix file = .ok d)
    (known : Known d.structs) :
    (∃ structs', parseFile methods maxBufferSize packetDataNamePrefix depth file = .ok structs') ∨
      parseFile methods maxBufferSize packetDataNamePrefix depth file = .error .depth := by
  have each : ∀ info ∈ d.structs, (∃ sized, addDataSize d depth info = .ok sized) ∨
      addDataSize d depth info = .error .depth := by
    intro info member
    have one : (∃ size, structDataSize toShort d.structs depth info = .ok size) ∨
        structDataSize toShort d.structs depth info = .error .depth :=
      structDataSize_ok_or_depth known member
    rcases one with is | is
    · exact .inl (addDataSize_exists.mpr is)
    · exact .inr (bind_of_error is)
  rcases mapM_depth each with ⟨sized, is⟩ | is
  · exact .inl ⟨_, bind_eq_ok.mpr ⟨d, read, bind_eq_ok.mpr ⟨sized, is, rfl⟩⟩⟩
  · right
    unfold parseFile
    rw [bind_of_ok read]
    exact bind_of_error is

end File

/-! ## The length of an array -/

theorem indexOf_nil {c : Char} {pattern : Text} : indexOf (c :: pattern) [] = -1 := rfl

theorem indexOf_cons {c x : Char} {pattern text : Text} (other : c ≠ x) :
    indexOf (c :: pattern) (x :: text) =
      if indexOf (c :: pattern) text = -1 then -1 else indexOf (c :: pattern) text + 1 := by
  unfold indexOf
  rw [List.tails_cons, List.findIdx?_cons]
  have no : (c :: pattern).isPrefixOf (x :: text) = false := by
    simp [List.isPrefixOf, other]
  rw [no]
  cases text.tails.findIdx? fun rest => (c :: pattern).isPrefixOf rest with
  | none => rfl
  | some i =>
      change ((i + 1 : Nat) : Int) = if (i : Int) = -1 then -1 else (i : Int) + 1
      rw [if_neg (by omega)]
      rfl

theorem indexOf_ge {c : Char} {pattern text : Text} : -1 ≤ indexOf (c :: pattern) text := by
  unfold indexOf
  split <;> omega

theorem indexOf_append {c : Char} {pattern text rest : Text} (away : ∀ x ∈ text, x ≠ c) :
    indexOf (c :: pattern) (text ++ rest) = if indexOf (c :: pattern) rest = -1 then -1
      else indexOf (c :: pattern) rest + text.length := by
  induction text with
  | nil => simp
  | cons x text ih =>
      rw [List.cons_append, indexOf_cons (away x List.mem_cons_self).symm,
        ih fun y member => away y (List.mem_cons_of_mem _ member), List.length_cons]
      by_cases none_ : indexOf (c :: pattern) rest = -1
      · rw [if_pos none_, if_pos rfl, if_pos none_]
      · have found : -1 ≤ indexOf (c :: pattern) rest := indexOf_ge
        rw [if_neg none_, if_neg none_, if_neg (by omega)]
        omega

theorem indexOf_self {c : Char} {text : Text} : indexOf [c] (c :: text) = 0 := by
  unfold indexOf
  rw [List.tails_cons, List.findIdx?_cons]
  simp [List.isPrefixOf]

theorem trim_eq_self {text : Text} (solid : ∀ c ∈ text, isWhiteSpace c = false) : trim text = text := by
  have keep (t : Text) (solid : ∀ c ∈ t, isWhiteSpace c = false) : t.dropWhile isWhiteSpace = t := by
    cases t with
    | nil => rfl
    | cons c t => rw [List.dropWhile_cons, if_neg (by simp [solid c List.mem_cons_self])]
  unfold trim
  rw [keep text solid, keep text.reverse fun c member => solid c (List.mem_reverse.mp member),
    List.reverse_reverse]

theorem substring_middle (before middle after : Text) :
    substring (before ++ middle ++ after) before.length middle.length = .ok middle := by
  unfold substring
  rw [if_pos ⟨by omega, by omega, by simp⟩, Int.toNat_natCast, Int.toNat_natCast, List.append_assoc,
    List.drop_left, List.take_left]

section Lengths

variable {methods : ExtensionMethods} {constants : Constants} {name length rest line : Text}
  {m : MemberDataInfo}

/-- The four places in `name[length]rest`. -/
theorem brackets (plain : ∀ c ∈ name, c ≠ '[' ∧ c ≠ ']' ∧ c ≠ '/') (closed : ∀ c ∈ length, c ≠ ']')
    (rest : Text) :
    let code := name ++ '[' :: length ++ ']' :: rest
    indexOf "[".toList code = name.length ∧
      indexOf "]".toList code = name.length + 1 + length.length ∧
      ¬(0 ≤ indexOf "//".toList code ∧ indexOf "//".toList code ≤ name.length) := by
  intro code
  have shape : code = name ++ ('[' :: length ++ ']' :: rest) := by simp [code]
  refine ⟨?_, ?_, ?_⟩
  · change indexOf ['['] code = _
    rw [shape, indexOf_append fun c member => (plain c member).1, List.cons_append, indexOf_self,
      if_neg (by decide), zero_add]
  · change indexOf [']'] code = _
    rw [indexOf_append, indexOf_self, if_neg (by decide), zero_add]
    · simp
      omega
    · intro c member
      rcases List.mem_append.mp member with member | member
      · exact (plain c member).2.1
      · rcases List.mem_cons.mp member with rfl | member
        · decide
        · exact closed c member
  · change ¬(0 ≤ indexOf ['/', '/'] code ∧ indexOf ['/', '/'] code ≤ name.length)
    have apart : code = (name ++ ['[']) ++ (length ++ ']' :: rest) := by simp [code]
    rw [apart, indexOf_append]
    · have found : -1 ≤ indexOf ['/', '/'] (length ++ ']' :: rest) := indexOf_ge
      split
      · omega
      · rw [List.length_append, List.length_singleton]
        omega
    · intro c member
      rcases List.mem_append.mp member with member | member
      · exact (plain c member).2.2
      · cases List.mem_singleton.mp member
        decide

theorem splitNameAndLength_array (some_ : name ≠ [])
    (plain : ∀ c ∈ name, c ≠ '[' ∧ c ≠ ']' ∧ c ≠ '/')
    (solid : ∀ c ∈ length, c ≠ ']' ∧ isWhiteSpace c = false) {result : Text × Int × Text}
    (is : splitNameAndLength methods constants (name ++ '[' :: length ++ ']' :: rest) = .ok result) :
    if methods.isNumeric length then result.2.1 = 1
    else (constants.lookup length).bind methods.toInt32 = some result.2.1 := by
  have places := brackets plain fun c member => (solid c member).1
  obtain ⟨start, stop, comment⟩ := places rest
  have long := List.length_pos_iff.mpr some_
  have inner : substring (name ++ '[' :: length ++ ']' :: rest) (name.length + 1)
      (name.length + 1 + length.length - name.length - 1) = .ok length := by
    have middle := substring_middle (name ++ ['[']) length (']' :: rest)
    have size : (name.length : Int) + 1 + length.length - name.length - 1 = length.length := by omega
    rw [size]
    simpa using middle
  unfold splitNameAndLength at is
  dsimp only at is
  rw [start, stop, if_pos (by omega), if_neg comment] at is
  obtain ⟨⟨value, defineName⟩, first, is⟩ := bind_eq_ok.mp is
  obtain ⟨short, -, same⟩ := bind_eq_ok.mp is
  cases same
  rw [bind_of_ok inner, trim_eq_self fun c member => (solid c member).2] at first
  split at first
  · rename_i numeric
    cases first
    rw [if_pos numeric]
  · rename_i name_
    rw [if_neg name_]
    split at first
    · rename_i value' found
      cases first
      exact found
    · cases first

/-- What is recorded of an array: 1 for a number, and for a name what its constant says. -/
theorem splitMember_array (numeric : ∀ t ≠ [], methods.isNumeric t = true ↔ IsLiteral t)
    (declares : DeclaresArray line length)
    (is : splitMember methods constants (tokensOf line) = .ok m) :
    (IsLiteral length → m.arrayValue = 1) ∧
      (¬IsLiteral length → (constants.lookup length).bind methods.toInt32 = some m.arrayValue) := by
  obtain ⟨type, name, rest, more, tokens, types, some_, plain, full, solid⟩ := declares
  have code : ∃ result, splitNameAndLength methods constants (name ++ '[' :: length ++ ']' :: rest) =
      .ok result ∧ result.2.1 = m.arrayValue := by
    rw [tokens] at is
    obtain ⟨first, one, is⟩ := bind_eq_ok.mp is
    obtain ⟨second, two, is⟩ := bind_eq_ok.mp is
    obtain ⟨⟨type', code⟩, which, is⟩ := bind_eq_ok.mp is
    obtain ⟨⟨name', arrayValue, defineName⟩, split, same⟩ := bind_eq_ok.mp is
    cases same
    suffices code = name ++ '[' :: length ++ ']' :: rest by
      subst this
      exact ⟨_, split, rfl⟩
    rcases types with ⟨size, other⟩ | ⟨size, unsigned⟩
    · obtain ⟨t, rfl⟩ := List.length_eq_one_iff.mp size
      cases one
      cases two
      rw [if_neg fun same => other (congrArg some same)] at which
      cases which
      rfl
    · obtain ⟨t, t', rfl⟩ := List.length_eq_two.mp size
      cases one
      cases two
      cases unsigned
      rw [if_pos rfl] at which
      cases which
      rfl
  obtain ⟨result, split, same⟩ := code
  have recorded := splitNameAndLength_array some_ plain solid split
  rw [same] at recorded
  constructor
  · intro literal
    rwa [if_pos ((numeric length full).mpr literal)] at recorded
  · intro other
    rwa [if_neg fun yes => other ((numeric length full).mp yes)] at recorded

/-! ## The lines of the structs -/

variable {packetDataNamePrefix : Text} {structs' : List ParsedStruct} {lines : List Text}

theorem getLast?_split {xs : List α} {x : α} (last : xs.getLast? = some x) : xs = xs.dropLast ++ [x] := by
  obtain ⟨ys, rfl⟩ := List.getLast?_eq_some_iff.mp last
  simp

/-- A line of a struct adds at most one member, and the lines of the members add one each. -/
theorem structLine_members
    (is : structLine methods constants packetDataNamePrefix structs line = .ok structs') :
    ∃ ms, structs'.flatMap ParsedStruct.memberList = structs.flatMap ParsedStruct.memberList ++ ms ∧
      List.Forall₂ (fun line m => splitMember methods constants (tokensOf line) = .ok m)
        (memberLines [line]) ms := by
  unfold structLine at is
  split at is
  · rename_i empty
    cases is
    exact ⟨[], by simp, by simp [memberLines, empty]⟩
  · rename_i some_
    split at is
    · rename_i first second rest tokens
      split at is
      · rename_i struct_
        dsimp only at is
        split at is
        · cases is
        · cases is
          exact ⟨[], by simp, by simp [memberLines, tokens, struct_]⟩
      · rename_i other
        obtain ⟨m, one, is⟩ := bind_eq_ok.mp is
        split at is
        · cases is
        · rename_i info last
          cases is
          refine ⟨[m], ?_, ?_⟩
          · conv_rhs => rw [getLast?_split last]
            simp
          · have isMember : memberLines [line] = [line] := by
              simp [memberLines, some_, tokens]
              exact other
            rw [isMember]
            refine .cons ?_ .nil
            rw [tokens]
            exact one
    · cases is

theorem memberLines_cons : memberLines (line :: lines) = memberLines [line] ++ memberLines lines :=
  List.filter_append [line] lines

theorem structLines_members
    (is : lines.foldlM (structLine methods constants packetDataNamePrefix) structs = .ok structs') :
    ∃ ms, structs'.flatMap ParsedStruct.memberList = structs.flatMap ParsedStruct.memberList ++ ms ∧
      List.Forall₂ (fun line m => splitMember methods constants (tokensOf line) = .ok m)
        (memberLines lines) ms := by
  induction lines generalizing structs with
  | nil =>
      cases is
      exact ⟨[], by simp, .nil⟩
  | cons line lines ih =>
      rw [List.foldlM_cons] at is
      obtain ⟨between, one, rest⟩ := bind_eq_ok.mp is
      obtain ⟨ms, same, first⟩ := structLine_members one
      obtain ⟨ms', same', others⟩ := ih rest
      refine ⟨ms ++ ms', by rw [same', same, List.append_assoc], ?_⟩
      rw [memberLines_cons]
      exact List.rel_append first others

theorem structLine_unsized
    (is : structLine methods constants packetDataNamePrefix structs line = .ok structs')
    (unsized : ∀ info ∈ structs, info.defineDataBufferSize = 0) :
    ∀ info ∈ structs', info.defineDataBufferSize = 0 := by
  unfold structLine at is
  split at is
  · cases is
    exact unsized
  · split at is
    · split at is
      · dsimp only at is
        split at is
        · cases is
        · cases is
          intro info member
          rcases List.mem_append.mp member with member | member
          · exact unsized info member
          · cases List.mem_singleton.mp member
            rfl
      · obtain ⟨m, -, is⟩ := bind_eq_ok.mp is
        split at is
        · cases is
        · rename_i last found
          cases is
          intro info member
          rcases List.mem_append.mp member with member | member
          · exact unsized info (List.mem_of_mem_dropLast member)
          · cases List.mem_singleton.mp member
            exact unsized last (List.mem_of_getLast? found)
    · cases is

/-- No struct has a size before it is counted. -/
theorem structLines_unsized
    (is : lines.foldlM (structLine methods constants packetDataNamePrefix) structs = .ok structs')
    (unsized : ∀ info ∈ structs, info.defineDataBufferSize = 0) :
    ∀ info ∈ structs', info.defineDataBufferSize = 0 := by
  induction lines generalizing structs with
  | nil =>
      cases is
      exact unsized
  | cons line lines ih =>
      rw [List.foldlM_cons] at is
      obtain ⟨between, one, rest⟩ := bind_eq_ok.mp is
      exact ih rest (structLine_unsized one unsized)

theorem declarations_read {file : Option (List Text)} {d : Declarations}
    (read : declarations methods packetDataNamePrefix file = .ok d) :
    d.structLines.foldlM (structLine methods d.constants packetDataNamePrefix) [] = .ok d.structs := by
  unfold declarations at read
  split at read
  · cases read
  · obtain ⟨sorted, -, read⟩ := bind_eq_ok.mp read
    obtain ⟨structs, is, read⟩ := bind_eq_ok.mp read
    split at read
    · cases read
    · split at read
      · cases read
      · cases read
        exact is

end Lengths

/-! ## What `Encode` writes -/

theorem isGreatest_lineExtent (bytesPerChar : Nat) (m : MemberDataInfo) :
    IsGreatest {e | LineWrites bytesPerChar m e} (lineExtent bytesPerChar m) := by
  unfold lineExtent LineWrites
  by_cases number : isCppNumberType m.type = true
  · by_cases array : 1 < m.arrayValue
    · simp only [number, array, if_true]
      constructor
      · exact ⟨m.arrayValue.toNat, m.arrayValue.toNat, by omega, by omega, rfl, by rw [max_self]⟩
      · rintro e ⟨copied, counted, le, le', moved, reach⟩
        refine Extent.le_def.mpr ⟨?_, ?_⟩
        · rw [moved]
          exact Nat.mul_le_mul_left _ (by omega)
        · rw [reach]
          exact Nat.mul_le_mul_left _ (by omega)
    · simp only [number, array, if_true, if_false, mul_one]
      constructor
      · exact ⟨rfl, rfl⟩
      · rintro e ⟨moved, reach⟩
        exact Extent.le_def.mpr ⟨le_of_eq moved, le_of_eq reach⟩
  · simp only [number, Bool.false_eq_true, if_false]
    constructor
    · exact ⟨_, le_rfl, .inl rfl, rfl⟩
    · rintro e ⟨length, le, moved, reach⟩
      refine Extent.le_def.mpr ⟨?_, ?_⟩ <;> dsimp only <;> omega

/-- The sizes change nothing that `Encode` reads. -/
def Alike (info out : ParsedStruct) : Prop :=
  out.name = info.name ∧ out.memberList = info.memberList

section Alike

variable {structs' : List ParsedStruct} {out : ParsedStruct}

theorem find_alike (alike : List.Forall₂ Alike structs structs') (type : String) :
    find structs type = none ∧ find structs' type = none ∨
      ∃ info out, find structs type = some info ∧ find structs' type = some out ∧ Alike info out := by
  induction alike with
  | nil => exact .inl ⟨rfl, rfl⟩
  | @cons info out structs structs' one rest ih =>
      unfold find
      rw [List.find?_cons, List.find?_cons, one.1]
      by_cases same : info.name = type
      · simp only [same, decide_true]
        exact .inr ⟨info, out, rfl, rfl, one⟩
      · simp only [same, decide_false]
        exact ih

theorem encodeMembers_alike {nested nested' : ParsedStruct → Option (Block MemberDataInfo Nat)}
    (alike : List.Forall₂ Alike structs structs')
    (same : ∀ info out, Alike info out → nested info = nested' out) (prev : Option MemberDataInfo) :
    encodeMembers structs nested prev memberList = encodeMembers structs' nested' prev memberList := by
  induction memberList generalizing prev with
  | nil => rfl
  | cons m memberList ih =>
      have one : encodeMember structs nested prev m = encodeMember structs' nested' prev m := by
        unfold encodeMember
        rcases find_alike alike m.type with ⟨is, is'⟩ | ⟨info, out, is, is', pair⟩
        · rw [is, is']
          rfl
        · rw [is, is', Option.bind_some, Option.bind_some, same info out pair]
      unfold encodeMembers
      rw [one]
      simp only [ih]

theorem encodeStruct_alike (alike : List.Forall₂ Alike structs structs') (pair : Alike info out) :
    encodeStruct structs depth info = encodeStruct structs' depth out := by
  induction depth generalizing info out with
  | zero => rfl
  | succ depth ih =>
      unfold encodeStruct
      rw [pair.2]
      exact encodeMembers_alike alike (fun info out pair => ih pair) none

theorem members_alike (alike : List.Forall₂ Alike structs structs') :
    structs'.flatMap ParsedStruct.memberList = structs.flatMap ParsedStruct.memberList := by
  induction alike with
  | nil => rfl
  | cons one _ ih => rw [List.flatMap_cons, List.flatMap_cons, one.2, ih]

end Alike

/-! ## The sizes of a file -/

theorem forall₂_left {r : α → β → Prop} {xs : List α} {ys : List β} (each : List.Forall₂ r xs ys)
    {x : α} (member : x ∈ xs) : ∃ y ∈ ys, r x y := by
  induction each with
  | nil => cases member
  | cons one _ ih =>
      cases member with
      | head => exact ⟨_, List.mem_cons_self, one⟩
      | tail _ member =>
          obtain ⟨y, member, is⟩ := ih member
          exact ⟨y, List.mem_cons_of_mem _ member, is⟩

theorem forall₂_and {r r' : α → β → Prop} {xs : List α} {ys : List β} (one : List.Forall₂ r xs ys)
    (two : List.Forall₂ r' xs ys) : List.Forall₂ (fun x y => r x y ∧ r' x y) xs ys := by
  induction one with
  | nil => exact .nil
  | cons first _ ih =>
      cases two with
      | cons second rest => exact .cons ⟨first, second⟩ (ih rest)

section Claim

variable {methods : ExtensionMethods} {bytesPerChar : Nat} {maxBufferSize : Int}
  {packetDataNamePrefix : Text} {file : Option (List Text)} {d : Declarations}
  {structs' : List ParsedStruct}

theorem known_of_ok
    (all : ∀ info ∈ structs, ∃ size, structDataSize cast structs depth info = .ok size) :
    Known structs := by
  intro info member m counted struct_
  obtain ⟨size, is⟩ := all info member
  cases depth with
  | zero => cases is
  | succ depth =>
      obtain ⟨inner, -, found, -⟩ := structDataSize_ok.mp ⟨size, is⟩ m ⟨counted, struct_⟩
      rw [found]
      rfl

theorem acyclic_of_ok (is : structDataSize cast structs depth info = .ok size) :
    ¬Relation.TransGen (Contains structs) info info := by
  intro self
  exact not_transGen_of_acc (acc_of_ok is) (Relation.transGen_swap.mpr self)

theorem sizes_exist (known : Known structs)
    (acyclic : ∀ info ∈ structs, ¬Relation.TransGen (Contains structs) info info) :
    ∃ depth, ∀ info ∈ structs, ∃ size, structDataSize cast structs depth info = .ok size := by
  apply exists_depth
  · rintro info depth depth' le ⟨size, is⟩
    exact ⟨size, structDataSize_mono le is⟩
  · exact fun info member => ok_of_acc known (acc_of_acyclic acyclic member) member

theorem alike_withSize
    (each : List.Forall₂ (fun info out => ∃ size, structDataSize toShort d.structs depth info = .ok size ∧
      out = withSize maxBufferSize d.packetHeaderSize info size) d.structs structs') :
    List.Forall₂ Alike d.structs structs' := by
  refine each.imp ?_
  rintro info out ⟨size, -, rfl⟩
  exact ⟨rfl, rfl⟩

/-- Every member with the line that declares it. -/
theorem parseFile_members (read : declarations methods packetDataNamePrefix file = .ok d)
    (is : parseFile methods maxBufferSize packetDataNamePrefix depth file = .ok structs') :
    List.Forall₂ (fun line m => splitMember methods d.constants (tokensOf line) = .ok m)
      (memberLines d.structLines) (structs'.flatMap ParsedStruct.memberList) := by
  obtain ⟨ms, same, each⟩ := structLines_members (declarations_read read)
  rw [members_alike (alike_withSize (parseFile_ok read is)), same]
  exact each

theorem sized_of_fits (numeric : ∀ t ≠ [], methods.isNumeric t = true ↔ IsLiteral t)
    (fits : ∀ d, declarations methods packetDataNamePrefix file = .ok d → Known d.structs →
      Fits bytesPerChar maxBufferSize d) :
    Sized methods bytesPerChar maxBufferSize packetDataNamePrefix file := by
  have accepted {d : Declarations} {depth structs'}
      (read : declarations methods packetDataNamePrefix file = .ok d)
      (is : parseFile methods maxBufferSize packetDataNamePrefix depth file = .ok structs') :
      Fits bytesPerChar maxBufferSize d := by
    have all (info) (member : info ∈ d.structs) :
        ∃ size, structDataSize toShort d.structs depth info = .ok size := by
      obtain ⟨out, -, size, is, -⟩ := forall₂_left (parseFile_ok read is) member
      exact ⟨size, is⟩
    exact fits d read (known_of_ok all)
  constructor
  · intro d read known
    obtain ⟨depth, all⟩ := sizes_exist known (fits d read known).acyclic
    obtain ⟨structs', is⟩ := parseFile_exists read all
    refine ⟨depth, ?_⟩
    intro same
    rw [is] at same
    cases same
  · intro d read depth structs' is
    have literals := (accepted read is).literals
    have each := parseFile_members read is
    clear is
    generalize structs'.flatMap ParsedStruct.memberList = ms at each
    generalize memberLines d.structLines = lines at each literals
    induction each with
    | nil => exact .nil
    | @cons line m lines ms split _ ih =>
        refine .cons ?_ (ih fun line member => literals line (List.mem_cons_of_mem _ member))
        rintro length declares n (⟨literal, rfl⟩ | ⟨name, value⟩)
        · have recorded := (splitMember_array numeric declares split).1 literal
          have one := literals line List.mem_cons_self length declares literal
          omega
        · have recorded := (splitMember_array numeric declares split).2 name
          rw [value] at recorded
          cases recorded
          rfl
  · intro d read depth structs' is info member
    obtain ⟨out, -, size, short, -⟩ := forall₂_left (parseFile_ok read is) member
    rw [structDataSize_toShort] at short ⊢
    cases long : structDataSize id d.structs depth info with
    | error e =>
        rw [long] at short
        cases short
    | ok size' =>
        have small := (accepted read is).small info member depth size' long
        change Except.ok (toShort size') = Except.ok size'
        rw [(toShort_eq_self (structDataSize_nonneg long)).mpr small]
  · intro d read depth structs' is out outMember generated depth' code emitted e writes
    have each := parseFile_ok read is
    obtain ⟨info, member, size, short, rfl⟩ := forall₂_left each.flip outMember
    have pair : Alike info (withSize maxBufferSize d.packetHeaderSize info size) := ⟨rfl, rfl⟩
    rw [← encodeStruct_alike (alike_withSize each) pair] at emitted
    rw [structDataSize_toShort] at short
    cases long : structDataSize id d.structs depth info with
    | error e =>
        rw [long] at short
        cases short
    | ok size' =>
        have fit := accepted read is
        have small := fit.small info member depth size' long
        have same : size = size' := by
          rw [long] at short
          change Except.ok (toShort size') = Except.ok size at short
          rw [(toShort_eq_self (structDataSize_nonneg long)).mpr small] at short
          exact (Except.ok.inj short).symm
        subst same
        have room := fit.room info member generated depth size long depth' code emitted
        have most := (Block.isGreatest_extent (isGreatest_lineExtent bytesPerChar) code).2 writes
        have zero := structLines_unsized (declarations_read read) (by simp) info member
        have le : bytes d.packetHeaderSize e ≤
            bytes d.packetHeaderSize (code.extent (lineExtent bytesPerChar)) := by
          have := (Extent.le_def.mp most).2
          unfold bytes
          omega
        unfold withSize
        dsimp only
        omega

theorem fits_of_sized (numeric : ∀ t ≠ [], methods.isNumeric t = true ↔ IsLiteral t)
    (sized : Sized methods bytesPerChar maxBufferSize packetDataNamePrefix file)
    (read : declarations methods packetDataNamePrefix file = .ok d) (known : Known d.structs) :
    Fits bytesPerChar maxBufferSize d := by
  obtain ⟨depth, ends⟩ := sized.ends d read known
  obtain ⟨structs', is⟩ := (parseFile_ok_or_depth read known).resolve_right ends
  have each := parseFile_ok read is
  have exact_ (info) (member : info ∈ d.structs) :
      ∃ out ∈ structs', ∃ size, structDataSize id d.structs depth info = .ok size ∧
        toShort size = size ∧ out = withSize maxBufferSize d.packetHeaderSize info size := by
    obtain ⟨out, outMember, size, short, same⟩ := forall₂_left each member
    have long := sized.exact d read depth structs' is info member
    rw [short] at long
    refine ⟨out, outMember, size, long.symm, ?_, same⟩
    rw [structDataSize_toShort, ← long] at short
    exact Except.ok.inj short
  constructor
  · intro info member
    obtain ⟨out, -, size, long, -⟩ := exact_ info member
    exact acyclic_of_ok long
  · intro line member length declares literal
    obtain ⟨m, -, split, recorded⟩ :=
      forall₂_left (forall₂_and (parseFile_members read is) (sized.lengths d read depth structs' is))
        member
    have one := (splitMember_array numeric declares split).1 literal
    have same := recorded length declares (literalValue length) (.inl ⟨literal, rfl⟩)
    omega
  · intro info member depth' size long'
    obtain ⟨out, -, size', long, short, -⟩ := exact_ info member
    cases structDataSize_unique long long'
    exact (toShort_eq_self (structDataSize_nonneg long)).mp short
  · intro info member generated depth' size long' depth'' code emitted
    obtain ⟨out, outMember, size', long, short, rfl⟩ := exact_ info member
    cases structDataSize_unique long long'
    have pair : Alike info (withSize maxBufferSize d.packetHeaderSize info size) := ⟨rfl, rfl⟩
    have code' := (encodeStruct_alike (alike_withSize each) pair).symm.trans emitted
    have room := sized.room d read depth structs' is _ outMember generated depth'' code code' _
      (Block.isGreatest_extent (isGreatest_lineExtent bytesPerChar) code).1
    have zero := structLines_unsized (declarations_read read) (by simp) info member
    unfold withSize at room
    dsimp only at room
    omega

/-- The lengths and the sizes of a protocol file are right if and only if every length that is a
number is 1, no struct contains itself, every count fits into a `short`, and what a packet needs is
not more than what is counted for it. -/
theorem sized_iff (numeric : ∀ t ≠ [], methods.isNumeric t = true ↔ IsLiteral t) :
    Sized methods bytesPerChar maxBufferSize packetDataNamePrefix file ↔
      ∀ d, declarations methods packetDataNamePrefix file = .ok d → Known d.structs →
        Fits bytesPerChar maxBufferSize d := by
  constructor
  · intro sized d read known
    exact fits_of_sized numeric sized read known
  · exact sized_of_fits numeric

end Claim

/-! ## Two packets of the sample -/

def decimal (text : Text) : Option Int :=
  if text ≠ [] ∧ text.all Char.isDigit then
    some (text.foldl (fun n c => n * 10 + (c.toNat - '0'.toNat)) 0 : Nat)
  else none

def decimalMethods : ExtensionMethods where
  split text separator := (text.splitOnP fun c => [c] = separator).filter fun t => t ≠ []
  replaceByEmpty text old := text.filter fun c => [c] ≠ old
  isNumeric text := text.all Char.isDigit
  toInt16 := decimal
  toInt32 := decimal

def sampleHeader : Text := "const int PACKET_HEADER_SIZE = 6; // 패킷 헤더 크기 ".toList

def reqCharacterInfo : List Text :=
  [sampleHeader, "struct PKTReqCharacterInfo \x7b".toList, "\tint CharacterIndex;".toList, "\x7d;".toList]

def reqTest1 : List Text :=
  [sampleHeader, "struct PKTReqTest1 \x7b".toList, "\t__int64 CharCode;".toList, "\x7d;".toList]

def characterInfo : ParsedStruct where
  isPassEnDecodeGenerate := false
  name := "PKTReqCharacterInfo"
  defineDataBufferSize := 0
  memberList := [{
    type := "int"
    name := "CharacterIndex"
    arrayDefineName := none
    arrayValue := 1 }]

theorem reqCharacterInfo_read : declarations decimalMethods "PKT".toList (some reqCharacterInfo) = .ok {
    constants := [("PACKET_HEADER_SIZE".toList, "6".toList)]
    structLines := ["struct PKTReqCharacterInfo \x7b".toList, "int CharacterIndex;".toList]
    structs := [characterInfo]
    packetHeaderSize := 6 } := by
  rfl

theorem characterInfo_size {depth : Nat} {size : Int}
    (is : structDataSize id [characterInfo] depth characterInfo = .ok size) : size = 4 := by
  have one : structDataSize id [characterInfo] 1 characterInfo = .ok 4 := by rfl
  exact structDataSize_unique is one

theorem characterInfo_code {depth : Nat} {code : Block MemberDataInfo Nat}
    (is : encodeStruct [characterInfo] depth characterInfo = some code) (bytesPerChar : Nat) :
    code.extent (lineExtent bytesPerChar) = ⟨4, 4, le_rfl⟩ := by
  cases depth with
  | zero => cases is
  | succ depth =>
      cases is
      rfl

theorem decimal_isNumeric (t : Text) : decimalMethods.isNumeric t = true ↔ IsLiteral t :=
  List.all_eq_true

theorem reqCharacterInfo_sized :
    Sized decimalMethods 2 4096 "PKT".toList (some reqCharacterInfo) := by
  rw [sized_iff fun t _ => decimal_isNumeric t]
  intro d read _
  rw [reqCharacterInfo_read] at read
  cases read
  refine ⟨?_, ?_, ?_, ?_⟩
  · intro info member
    cases List.mem_singleton.mp member
    have one : structDataSize id [characterInfo] 1 characterInfo = .ok 4 := by rfl
    exact acyclic_of_ok one
  · rintro line member length ⟨type, name, rest, more, tokens, -⟩ -
    have bracket : ∃ t ∈ tokensOf line, '[' ∈ t := by
      rw [tokens]
      exact ⟨name ++ '[' :: length ++ ']' :: rest, by simp, by simp⟩
    have isMember : line = "int CharacterIndex;".toList := by
      have only : memberLines ["struct PKTReqCharacterInfo \x7b".toList, "int CharacterIndex;".toList] =
        ["int CharacterIndex;".toList] := by rfl
      rw [only] at member
      exact List.mem_singleton.mp member
    subst isMember
    have none_ : ¬∃ t ∈ tokensOf "int CharacterIndex;".toList, '[' ∈ t := by decide
    exact absurd bracket none_
  · intro info member depth size is
    cases List.mem_singleton.mp member
    rw [characterInfo_size is]
    decide
  · intro info member _ depth size is depth' code emitted
    cases List.mem_singleton.mp member
    rw [characterInfo_size is, characterInfo_code emitted]
    decide

/-- `__int64` is counted with four bytes: the buffer of ten bytes is too small for the fourteen that
are written. -/
theorem reqTest1_not_sized : ¬Sized decimalMethods 2 4096 "PKT".toList (some reqTest1) := by
  intro sized
  let charCode : MemberDataInfo := {
    type := "__int64"
    name := "CharCode"
    arrayDefineName := none
    arrayValue := 1 }
  let code : Block MemberDataInfo Nat := .seq (.line charCode) .skip
  have writes : code.Writes (LineWrites 2) ⟨8, 8, le_rfl⟩ :=
    ⟨⟨8, 8, le_rfl⟩, 1, ⟨by rfl, by rfl⟩, rfl, (mul_one _).symm⟩
  have room := sized.room _ (by rfl) 1 _ (by rfl) _ List.mem_cons_self (by decide) 1 code (by rfl) _
    writes
  revert room
  decide

end Cgsf.Proof.PacketEnDeCodeGenerator.BufferSizes
