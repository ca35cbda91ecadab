import Cgsf.PacketEnDeCodeGenerator.CppEnDecoder

/-!
# The members that both functions visit

`Decode` never gets a number out: the line that should do so names the cursor of `Encode`. What is
left for a packet are its texts, told here from the structs alone.
-/

namespace Cgsf.Proof.PacketEnDeCodeGenerator
open Cgsf.PacketEnDeCodeGenerator Library

/-- The array of wide characters that both functions can name. -/
def wideText (file : ProtocolFile) (root : StructInfo) (inLoop : Bool) (packetDataName : Expr)
    (m : MemberDataInfo) : Option Visit :=
  if isCppUnicodeCharacterType m.type then
    match file.resolve root (packetDataName.member m.name) with
    | some (place, .array .wchar size) =>
        if file.define .decode inLoop m.arrayDefineName = some (.define size) then
          some (.text place size)
        else none
    | _ => none
  else none

/-- The integer that a name stands for in both functions. -/
def sharedInteger (file : ProtocolFile) (name : String) : Option Ref :=
  if file.integer .encode true name = file.integer .decode true name then
    file.integer .encode true name
  else none

section Walk

variable (file : ProtocolFile) (root : StructInfo)
  (nested : Bool → Expr → StructInfo → Option (Block Visit Ref))

/-- The texts of one member of a struct. -/
def memberTexts (inLoop : Bool) (packetDataName : Expr) (prev : Option MemberDataInfo)
    (m : MemberDataInfo) : Option (Block Visit Ref) :=
  if isCppBasicType m.type then (wideText file root inLoop packetDataName m).map .line
  else
    (file.find m.type).bind fun info =>
      if m.arrayValue ≤ 1 then nested inLoop (packetDataName.member m.name) info
      else prev.bind fun prev => (sharedInteger file prev.name).bind fun count =>
        (nested true (packetDataName.member m.name).element info).map (.loop count)

def listTexts (inLoop : Bool) (packetDataName : Expr) :
    Option MemberDataInfo → List MemberDataInfo → Option (Block Visit Ref)
  | _, [] => some .skip
  | prev, m :: ms =>
      (memberTexts file root nested inLoop packetDataName prev m).bind fun texts =>
      (listTexts inLoop packetDataName (some m) ms).map (.seq texts)

/-- The texts of a struct, if it has nothing but texts and structs. -/
def structTexts : Nat → Bool → Expr → StructInfo → Option (Block Visit Ref)
  | 0, _, _, _ => none
  | depth + 1, inLoop, packetDataName, info =>
      listTexts file root (structTexts depth) inLoop packetDataName none info.memberList

end Walk

/-! ## Names -/

theorem integer_maxBufferSize (file : ProtocolFile) (codec : Codec) (inLoop : Bool) :
    file.integer codec inLoop "MaxBufferSize" = some .maxBufferSize := by
  cases codec <;> cases inLoop <;> rfl

theorem unicode_not_number {type : String} (wide : isCppUnicodeCharacterType type = true) :
    isCppNumberType type = false := by
  obtain rfl : type = "wchar_t" := by simpa [isCppUnicodeCharacterType] using wide
  decide

variable {file : ProtocolFile} {root info : StructInfo} {packetDataName : Expr} {m : MemberDataInfo}
  {place : Place} {type : CppType} {inLoop : Bool}

theorem resolve_member_iff {base : Expr} {name : String} :
    file.resolve root (.member base name) = some (place, type) ↔ ∃ inner info m,
      file.resolve root base = some (inner, .struct info) ∧
        (info.memberList.find? fun m => m.name = name) = some m ∧ file.memberType m = some type ∧
          inner ++ [.field name] = place := by
  constructor
  · intro named
    rw [ProtocolFile.resolve] at named
    split at named
    · obtain ⟨m, first, more⟩ := Option.bind_eq_some_iff.mp named
      obtain ⟨t, is, same⟩ := Option.map_eq_some_iff.mp more
      cases same
      exact ⟨_, _, m, ‹_›, first, is, rfl⟩
    · contradiction
  · rintro ⟨inner, info, m, found, first, is, rfl⟩
    rw [ProtocolFile.resolve, found]
    dsimp only
    rw [first, Option.bind_some, is]
    rfl

theorem resolve_element_iff {base : Expr} :
    file.resolve root (.element base) = some (place, type) ↔ ∃ inner size,
      file.resolve root base = some (inner, .array type size) ∧ inner ++ [.element size] = place := by
  constructor
  · intro named
    rw [ProtocolFile.resolve] at named
    split at named
    · cases named
      exact ⟨_, _, ‹_›, rfl⟩
    · contradiction
  · rintro ⟨inner, size, found, rfl⟩
    rw [ProtocolFile.resolve, found]

theorem find_member (member : m ∈ info.memberList) :
    info.memberList.find? (fun other => other.name = m.name) = some m := by
  cases found : info.memberList.find? fun other => other.name = m.name with
  | none =>
      have absent := List.find?_eq_none.mp found m member
      simp at absent
  | some other =>
      have same : other.name = m.name := by simpa using List.find?_some found
      have other_mem := List.mem_of_find?_eq_some found
      rw [List.inj_on_of_nodup_map info.distinct other_mem member same]

/-- The expression for the struct that the walk is in names this struct, if it names one. -/
def Walks (file : ProtocolFile) (root : StructInfo) (packetDataName : Expr) (info : StructInfo) : Prop :=
  ∀ place info', file.resolve root packetDataName = some (place, .struct info') → info' = info

theorem walks_root : Walks file root .packetData root := by
  intro place info' named
  cases named
  rfl

theorem resolve_member (walks : Walks file root packetDataName info) (member : m ∈ info.memberList)
    (named : file.resolve root (packetDataName.member m.name) = some (place, type)) :
    file.memberType m = some type := by
  obtain ⟨inner, info', other, found, first, is, -⟩ := resolve_member_iff.mp named
  obtain rfl := walks _ _ found
  rw [find_member member] at first
  cases first
  exact is

theorem elementType_struct (basic : isCppBasicType m.type = false) :
    file.elementType m.type = (file.find m.type).map .struct := by
  rw [isCppBasicType, Bool.or_eq_false_iff] at basic
  unfold ProtocolFile.elementType
  rw [if_neg (by simp [basic.1]), if_neg (by simp [basic.2])]

theorem elementType_number {number : String}
    (is : file.elementType m.type = some (.number number)) : isCppNumberType m.type = true := by
  by_contra no
  unfold ProtocolFile.elementType at is
  rw [if_neg no] at is
  split at is
  · cases is
  · cases found : file.find m.type <;> simp [found] at is

theorem memberType_single {element : CppType} (is : file.memberType m = some element)
    (single : ∀ of size, element ≠ .array of size) : file.elementType m.type = some element := by
  unfold ProtocolFile.memberType at is
  obtain ⟨of, known, same⟩ := Option.map_eq_some_iff.mp is
  cases brackets : m.arrayDefineName with
  | none =>
      rw [brackets] at same
      rw [known, ← same]
  | some size =>
      rw [brackets] at same
      exact absurd same.symm (single of size)

theorem memberType_array {element : CppType} {size : ArrayDefine}
    (is : file.memberType m = some (.array element size))
    (single : ∀ of size, file.elementType m.type ≠ some (.array of size)) :
    file.elementType m.type = some element := by
  unfold ProtocolFile.memberType at is
  obtain ⟨of, known, same⟩ := Option.map_eq_some_iff.mp is
  cases brackets : m.arrayDefineName with
  | none =>
      rw [brackets] at same
      dsimp only at same
      exact absurd (same ▸ known) (single element size)
  | some size =>
      rw [brackets] at same
      cases same
      exact known

theorem Walks.member {info' : StructInfo} (walks : Walks file root packetDataName info)
    (member : m ∈ info.memberList) (basic : isCppBasicType m.type = false)
    (found : file.find m.type = some info') :
    Walks file root (packetDataName.member m.name) info' := by
  intro place info'' named
  have is := memberType_single (resolve_member walks member named) (by simp)
  rw [elementType_struct basic, found] at is
  cases is
  rfl

theorem Walks.element {info' : StructInfo} (walks : Walks file root packetDataName info)
    (member : m ∈ info.memberList) (basic : isCppBasicType m.type = false)
    (found : file.find m.type = some info') :
    Walks file root (packetDataName.member m.name).element info' := by
  intro place info'' named
  obtain ⟨inner, size, array, -⟩ := resolve_element_iff.mp named
  have is := memberType_array (resolve_member walks member array) (by
    rw [elementType_struct basic, found]
    simp)
  rw [elementType_struct basic, found] at is
  cases is
  rfl

/-! ## One member -/

/-- The two lines for a number: `WritePos` is not the cursor of `Decode`. -/
theorem decodeNumber_none : visit file root .decode inLoop (decodeNumber packetDataName m) = none := by
  unfold decodeNumber
  rw [visit, if_neg]
  rintro ⟨-, pos, -⟩
  exact absurd pos (by decide)

/-- An array of numbers is counted by the member before it, which has to be a number. -/
theorem encodeNumberArray_counted {prev : MemberDataInfo} {v : Visit}
    (walks : Walks file root packetDataName info) (member : prev ∈ info.memberList)
    (visited : visit file root .encode inLoop (encodeNumberArray packetDataName prev m) = some v) :
    isCppNumberType prev.type = true := by
  unfold encodeNumberArray at visited
  rw [visit, if_pos ⟨rfl, rfl, rfl⟩] at visited
  split at visited
  · simp only [Option.bind_eq_some_iff, Option.map_eq_some_iff] at visited
    obtain ⟨copied, -, counted, is, -⟩ := visited
    rw [countOf] at is
    split at is
    · rename_i named
      exact elementType_number (memberType_single (resolve_member walks member named) (by simp))
    · contradiction
  · contradiction

theorem string_iff (wide : isCppUnicodeCharacterType m.type = true) (v : Visit) :
    (visit file root .encode inLoop (encodeString packetDataName m) = some v ∧
      visit file root .decode inLoop (decodeString packetDataName m) = some v) ↔
      wideText file root inLoop packetDataName m = some v := by
  unfold encodeString decodeString wideText
  rw [visit, visit, if_pos ⟨⟨rfl, rfl, rfl⟩, by rw [integer_maxBufferSize]; rfl⟩, if_pos ⟨⟨rfl, rfl, rfl⟩, rfl⟩,
    if_pos wide]
  cases named : file.resolve root (packetDataName.member m.name) with
  | none => simp
  | some found =>
      obtain ⟨place, type⟩ := found
      cases type with
      | number => simp
      | wchar => simp
      | struct => simp
      | array element size =>
          cases element with
          | number => simp
          | struct => simp
          | array => simp
          | wchar =>
              cases file.define .decode inLoop m.arrayDefineName with
              | none => simp
              | some r =>
                  cases r with
                  | define d =>
                      simp only [Option.some.injEq, Ref.define.injEq]
                      constructor
                      · rintro ⟨rfl, same⟩
                        cases same
                        simp
                      · intro same
                        split at same
                        · rename_i eq
                          cases same
                          simp [eq]
                        · contradiction
                  | maxBufferSize => simp
                  | ofFunction => simp
                  | index => simp

/-! ## The whole walk -/

/-- The two pieces of code compile and visit the same, and this is `texts`. -/
def Both (file : ProtocolFile) (root : StructInfo) (inLoop : Bool) (encode decode : Code)
    (texts : Option (Block Visit Ref)) : Prop :=
  ∀ v, (encode.replace (visit file root .encode) (file.integer .encode true) inLoop = some v ∧
    decode.replace (visit file root .decode) (file.integer .decode true) inLoop = some v) ↔
      texts = some v

variable {encode encode' decode decode' : Code} {texts texts' : Option (Block Visit Ref)}

theorem Both.seq (first : Both file root inLoop encode decode texts)
    (rest : Both file root inLoop encode' decode' texts') :
    Both file root inLoop (.seq encode encode') (.seq decode decode')
      (texts.bind fun t => texts'.map (.seq t)) := by
  intro v
  simp only [Block.replace_seq, Option.bind_eq_some_iff, Option.map_eq_some_iff]
  constructor
  · rintro ⟨⟨v₁, v₂, one, two, rfl⟩, w₁, w₂, one', two', same⟩
    cases same
    exact ⟨v₁, (first v₁).mp ⟨one, one'⟩, v₂, (rest v₂).mp ⟨two, two'⟩, rfl⟩
  · rintro ⟨v₁, one, v₂, two, rfl⟩
    have both := (first v₁).mpr one
    have both' := (rest v₂).mpr two
    exact ⟨⟨v₁, v₂, both.1, both'.1, rfl⟩, v₁, v₂, both.2, both'.2, rfl⟩

theorem Both.seq_none (first : Both file root inLoop encode decode none) :
    Both file root inLoop (.seq encode encode') (.seq decode decode') none := by
  intro v
  simp only [Block.replace_seq]
  constructor
  · rintro ⟨⟨v₁, v₂, one, two, rfl⟩, w₁, w₂, one', two', same⟩
    cases same
    exact absurd ((first v₁).mp ⟨one, one'⟩) (by simp)
  · intro none
    contradiction

theorem Both.loop {name : String} (body : Both file root true encode decode texts) :
    Both file root inLoop (.loop name encode) (.loop name decode)
      ((sharedInteger file name).bind fun count => texts.map (.loop count)) := by
  intro v
  simp only [Block.replace_loop, Option.bind_eq_some_iff, Option.map_eq_some_iff]
  unfold sharedInteger
  constructor
  · rintro ⟨⟨n, b, one, two, rfl⟩, n', b', one', two', same⟩
    cases same
    refine ⟨n, ?_, b, (body b).mp ⟨two, two'⟩, rfl⟩
    rw [if_pos (one.trans one'.symm), one]
  · rintro ⟨n, shared, b, two, rfl⟩
    have both := (body b).mpr two
    split at shared
    · rename_i same
      exact ⟨⟨n, b, shared, both.1, rfl⟩, n, b, same ▸ shared, both.2, rfl⟩
    · contradiction

theorem Both.line {l l' : Line} {t : Option Visit}
    (visited : ∀ v, (visit file root .encode inLoop l = some v ∧
      visit file root .decode inLoop l' = some v) ↔ t = some v) :
    Both file root inLoop (.line l) (.line l') (t.map .line) := by
  intro v
  simp only [Block.replace_line, Option.map_eq_some_iff]
  constructor
  · rintro ⟨⟨v₁, one, rfl⟩, w₁, one', same⟩
    cases same
    exact ⟨v₁, (visited v₁).mp ⟨one, one'⟩, rfl⟩
  · rintro ⟨v₁, one, rfl⟩
    have both := (visited v₁).mpr one
    exact ⟨⟨v₁, both.1, rfl⟩, v₁, both.2, rfl⟩

/-- The member before is one of the same struct, and no number. -/
def Before (info : StructInfo) (prev : Option MemberDataInfo) : Prop :=
  ∀ p, prev = some p → p ∈ info.memberList ∧ isCppNumberType p.type = false

theorem basic_both {prev : Option MemberDataInfo} {l l' : Line}
    (walks : Walks file root packetDataName info) (before : Before info prev)
    (basic : isCppBasicType m.type = true)
    (encoded : encodeMemberData packetDataName prev m = some l)
    (decoded : decodeMemberData packetDataName prev m = some l') :
    Both file root inLoop (.line l) (.line l')
      ((wideText file root inLoop packetDataName m).map .line) := by
  apply Both.line
  unfold encodeMemberData at encoded
  unfold decodeMemberData at decoded
  cases number : isCppNumberType m.type with
  | false =>
      have wide : isCppUnicodeCharacterType m.type = true := by
        rw [isCppBasicType, number, Bool.false_or] at basic
        exact basic
      rw [number] at encoded decoded
      cases encoded
      cases decoded
      exact string_iff wide
  | true =>
      have narrow : ¬isCppUnicodeCharacterType m.type = true := by
        intro wide
        rw [unicode_not_number wide] at number
        contradiction
      rw [if_pos number] at encoded decoded
      intro v
      unfold wideText
      rw [if_neg narrow]
      constructor
      · rintro ⟨written, read⟩
        split at encoded
        · obtain ⟨p, is, rfl⟩ := Option.map_eq_some_iff.mp encoded
          obtain ⟨member, no⟩ := before p is
          rw [encodeNumberArray_counted walks member written] at no
          contradiction
        · rename_i single
          rw [if_neg single] at decoded
          cases decoded
          rw [decodeNumber_none] at read
          contradiction
      · intro none
        contradiction

section Nested

variable {nestedE nestedD : Expr → StructInfo → Option Code}
  {nestedT : Bool → Expr → StructInfo → Option (Block Visit Ref)}

/-- What has been shown of the structs one level deeper. -/
def Deeper (file : ProtocolFile) (root : StructInfo) (nestedE nestedD : Expr → StructInfo → Option Code)
    (nestedT : Bool → Expr → StructInfo → Option (Block Visit Ref)) : Prop :=
  ∀ inLoop packetDataName info encode decode, Walks file root packetDataName info →
    nestedE packetDataName info = some encode → nestedD packetDataName info = some decode →
    Both file root inLoop encode decode (nestedT inLoop packetDataName info)

theorem memberData_both (inLoop : Bool) (deeper : Deeper file root nestedE nestedD nestedT)
    (walks : Walks file root packetDataName info) (member : m ∈ info.memberList)
    {prev : Option MemberDataInfo} (before : Before info prev)
    (encoded : memberData encodeMemberData nestedE file packetDataName prev m = some encode)
    (decoded : memberData decodeMemberData nestedD file packetDataName prev m = some decode) :
    Both file root inLoop encode decode (memberTexts file root nestedT inLoop packetDataName prev m) := by
  unfold memberData at encoded decoded
  unfold memberTexts
  cases basic : isCppBasicType m.type with
  | true =>
      rw [if_pos basic] at encoded decoded
      obtain ⟨l, one, rfl⟩ := Option.map_eq_some_iff.mp encoded
      obtain ⟨l', two, rfl⟩ := Option.map_eq_some_iff.mp decoded
      exact basic_both walks before basic one two
  | false =>
      rw [if_neg (by simp [basic])] at encoded decoded
      rw [if_neg (by simp)]
      obtain ⟨info', found, encoded⟩ := Option.bind_eq_some_iff.mp encoded
      rw [found, Option.bind_some] at decoded ⊢
      dsimp only at encoded decoded ⊢
      by_cases single : m.arrayValue ≤ 1
      · rw [if_pos single] at encoded decoded ⊢
        exact deeper _ _ _ _ _ (walks.member member basic found) encoded decoded
      · rw [if_neg single] at encoded decoded ⊢
        obtain ⟨p, is, encoded⟩ := Option.bind_eq_some_iff.mp encoded
        rw [is, Option.bind_some] at decoded ⊢
        obtain ⟨body, one, rfl⟩ := Option.map_eq_some_iff.mp encoded
        obtain ⟨body', two, rfl⟩ := Option.map_eq_some_iff.mp decoded
        exact Both.loop (deeper _ _ _ _ _ (walks.element member basic found) one two)

theorem memberTexts_number (number : isCppNumberType m.type = true) (prev : Option MemberDataInfo) :
    memberTexts file root nestedT inLoop packetDataName prev m = none := by
  have narrow : ¬isCppUnicodeCharacterType m.type = true := by
    intro wide
    rw [unicode_not_number wide] at number
    contradiction
  unfold memberTexts wideText
  rw [if_pos (by rw [isCppBasicType, number, Bool.true_or]), if_neg narrow]
  rfl

theorem memberDataList_both (deeper : Deeper file root nestedE nestedD nestedT)
    (walks : Walks file root packetDataName info) (ms : List MemberDataInfo)
    (members : ∀ m ∈ ms, m ∈ info.memberList) {prev : Option MemberDataInfo}
    (before : Before info prev)
    (encoded : memberDataList encodeMemberData nestedE file packetDataName prev ms = some encode)
    (decoded : memberDataList decodeMemberData nestedD file packetDataName prev ms = some decode) :
    Both file root inLoop encode decode (listTexts file root nestedT inLoop packetDataName prev ms) := by
  induction ms generalizing prev encode decode with
  | nil =>
      cases encoded
      cases decoded
      intro v
      exact and_self_iff
  | cons m ms ih =>
      rw [memberDataList] at encoded decoded
      obtain ⟨here, one, encoded⟩ := Option.bind_eq_some_iff.mp encoded
      obtain ⟨here', two, decoded⟩ := Option.bind_eq_some_iff.mp decoded
      obtain ⟨later, rest, rfl⟩ := Option.map_eq_some_iff.mp encoded
      obtain ⟨later', rest', rfl⟩ := Option.map_eq_some_iff.mp decoded
      have first := memberData_both inLoop deeper walks (members m List.mem_cons_self) before one two
      rw [listTexts]
      cases number : isCppNumberType m.type with
      | true =>
          rw [memberTexts_number number] at first ⊢
          exact first.seq_none
      | false =>
          apply first.seq
          apply ih (fun other member => members other (List.mem_cons_of_mem _ member)) _ rest rest'
          rintro p same
          cases same
          exact ⟨members m List.mem_cons_self, number⟩

end Nested

/-- Two functions that compile and visit the same visit the texts of a struct without numbers. -/
theorem memberDataStruct_both (file : ProtocolFile) (root : StructInfo) (depth : Nat) :
    Deeper file root (encodeMemberDataStruct file depth) (decodeMemberDataStruct file depth)
      (structTexts file root depth) := by
  induction depth with
  | zero =>
      intro inLoop packetDataName info encode decode walks encoded
      contradiction
  | succ depth ih =>
      intro inLoop packetDataName info encode decode walks encoded decoded
      apply memberDataList_both ih walks info.memberList (fun m member => member) _ encoded decoded
      rintro p none
      contradiction

/-! ## A place has one type -/

def forget {ι : Type} : Step ι → Step Unit
  | .field name => .field name
  | .element _ => .element ()

/-- The sizes of the arrays on the way do not tell two places apart. -/
theorem resolve_unique {e e' : Expr} {place place' : Place} {type type' : CppType}
    (named : file.resolve root e = some (place, type))
    (named' : file.resolve root e' = some (place', type'))
    (same : place.map forget = place'.map forget) : type = type' := by
  induction e generalizing e' place place' type type' with
  | packetData =>
      cases named
      cases e' with
      | packetData =>
          cases named'
          rfl
      | member base name =>
          obtain ⟨inner, info, m, -, -, -, rfl⟩ := resolve_member_iff.mp named'
          simp at same
      | element base =>
          obtain ⟨inner, size, -, rfl⟩ := resolve_element_iff.mp named'
          simp at same
  | member base name ih =>
      obtain ⟨inner, info, m, found, first, is, rfl⟩ := resolve_member_iff.mp named
      cases e' with
      | packetData =>
          cases named'
          simp at same
      | member base' name' =>
          obtain ⟨inner', info', m', found', first', is', rfl⟩ := resolve_member_iff.mp named'
          simp only [List.map_append, List.map_cons, List.map_nil] at same
          obtain ⟨front, last⟩ := List.append_inj' same rfl
          cases last
          cases ih found found' front
          rw [first] at first'
          cases first'
          exact Option.some.inj (is.symm.trans is')
      | element base' =>
          obtain ⟨inner', size', -, rfl⟩ := resolve_element_iff.mp named'
          simp [forget] at same
  | element base ih =>
      obtain ⟨inner, size, found, rfl⟩ := resolve_element_iff.mp named
      cases e' with
      | packetData =>
          cases named'
          simp at same
      | member base' name' =>
          obtain ⟨inner', info', m', -, -, -, rfl⟩ := resolve_member_iff.mp named'
          simp [forget] at same
      | element base' =>
          obtain ⟨inner', size', found', rfl⟩ := resolve_element_iff.mp named'
          simp only [List.map_append, List.map_cons, List.map_nil] at same
          obtain ⟨front, last⟩ := List.append_inj' same rfl
          cases ih found found' front
          rfl

theorem address_forget {i : Nat} {a : Address} (found : address file i place = some a) :
    a.map forget = place.map forget := by
  induction place generalizing a with
  | nil =>
      cases found
      rfl
  | cons step place ih =>
      cases step with
      | field name =>
          obtain ⟨rest, is, rfl⟩ := Option.map_eq_some_iff.mp found
          rw [List.map_cons, List.map_cons, ih is]
          rfl
      | element size =>
          unfold address at found
          split at found
          · split at found
            · obtain ⟨rest, is, rfl⟩ := Option.map_eq_some_iff.mp found
              rw [List.map_cons, List.map_cons, ih is]
              rfl
            · contradiction
          · contradiction

/-- A text that is visited is a named array of wide characters. -/
def IsText (file : ProtocolFile) (root : StructInfo) (v : Visit) : Prop :=
  ∃ place size e, v = .text place size ∧ file.resolve root e = some (place, .array .wchar size)

theorem wideText_isText {v : Visit} (is : wideText file root inLoop packetDataName m = some v) :
    IsText file root v := by
  unfold wideText at is
  split at is
  · split at is
    · split at is
      · cases is
        exact ⟨_, _, _, rfl, ‹_›⟩
      · contradiction
    · contradiction
  · contradiction

theorem structTexts_lines (depth : Nat) {b : Block Visit Ref}
    (is : structTexts file root depth inLoop packetDataName info = some b) :
    b.Lines (IsText file root) := by
  induction depth generalizing inLoop packetDataName info b with
  | zero => contradiction
  | succ depth ih =>
      rw [structTexts] at is
      generalize none = prev, info.memberList = ms at is
      induction ms generalizing prev b with
      | nil =>
          cases is
          trivial
      | cons m ms later =>
          rw [listTexts] at is
          obtain ⟨here, one, more⟩ := Option.bind_eq_some_iff.mp is
          obtain ⟨rest, two, rfl⟩ := Option.map_eq_some_iff.mp more
          refine ⟨?_, later _ two⟩
          unfold memberTexts at one
          split at one
          · obtain ⟨v, text, rfl⟩ := Option.map_eq_some_iff.mp one
            exact wideText_isText text
          · obtain ⟨info', -, one⟩ := Option.bind_eq_some_iff.mp one
            split at one
            · exact ih one
            · obtain ⟨p, -, one⟩ := Option.bind_eq_some_iff.mp one
              obtain ⟨count, -, one⟩ := Option.bind_eq_some_iff.mp one
              obtain ⟨body, inner, rfl⟩ := Option.map_eq_some_iff.mp one
              show body.Lines _
              exact ih inner

end Cgsf.Proof.PacketEnDeCodeGenerator
