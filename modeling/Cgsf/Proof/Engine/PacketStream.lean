import Cgsf.Engine.PacketStream
import Cgsf.Proof.Engine.PacketIOBuffer

/-!
# Reading back what was written to a packet

`bytes` is what a value takes in the stream as `operator>>` reads it, `written` what `operator<<`
puts there. The two differ on the empty string alone: it is read as its terminator and written as
nothing, so that everything behind it is read one byte too early.
-/

namespace Cgsf.Proof.Engine
open Cgsf.Engine Library

theorem getElem?_of_sublist {α : Type*} {xs ys : List α} (sub : xs.Sublist ys) {i : Nat} {b : α}
    (here : xs[i]? = some b) : ∃ j, i ≤ j ∧ ys[j]? = some b := by
  induction sub generalizing i with
  | slnil => simp at here
  | cons a _ ih =>
      obtain ⟨j, le, there⟩ := ih here
      exact ⟨j + 1, by omega, there⟩
  | cons_cons a _ ih =>
      cases i with
      | zero => exact ⟨0, le_rfl, here⟩
      | succ i =>
          obtain ⟨j, le, there⟩ := ih here
          exact ⟨j + 1, by omega, there⟩

/-- What is shifted by one and still the same, up to a tail of the one element, is that element
throughout. The induction starts at the end of the list. -/
theorem eq_of_shifted_prefix {α : Type*} {z : α} {xs ys : List α} {k : Nat}
    (sub : xs.Sublist ys) (front : z :: ys <+: xs ++ List.replicate k z) : ∀ b ∈ ys, b = z := by
  have behind (d : Nat) : ∀ i b, ys.length ≤ i + d → ys[i]? = some b → b = z := by
    induction d with
    | zero =>
        intro i b le here
        rw [List.getElem?_eq_none (by omega)] at here
        cases here
    | succ d ih =>
        intro i b le here
        have shifted : (xs ++ List.replicate k z)[i + 1]? = some b := by
          obtain ⟨rest, split⟩ := front
          rw [← split, List.cons_append, List.getElem?_cons_succ]
          rw [List.getElem?_append_left (List.getElem?_eq_some_iff.mp here).1]
          exact here
        by_cases inside : i + 1 < xs.length
        · rw [List.getElem?_append_left inside] at shifted
          obtain ⟨j, le', there⟩ := getElem?_of_sublist sub shifted
          exact ih j b (by omega) there
        · rw [List.getElem?_append_right (by omega)] at shifted
          exact List.eq_of_mem_replicate (List.mem_of_getElem? shifted)
  intro b member
  obtain ⟨i, here⟩ := List.mem_iff_getElem?.mp member
  exact behind ys.length i b (by omega) here

namespace StreamValue
open Cgsf.Engine.StreamValue

/-- The bytes of the stream that stand for a value. -/
def bytes : StreamValue → List UInt8
  | byte data => leBytes 1 data.toNat
  | char data => leBytes 1 data.toUInt8.toNat
  | short data => leBytes 2 data.toUInt16.toNat
  | ushort data => leBytes 2 data.toNat
  | int data => leBytes 4 data.toUInt32.toNat
  | dword data => leBytes 4 data.toNat
  | float data => leBytes 4 data.toNat
  | string szStr => szStr.bytes ++ [0]
  | block buffer => buffer

def emptyString : StreamValue := .string ⟨[], List.not_mem_nil⟩

/-- What `operator<<` puts into a packet with enough room. -/
def written (v : StreamValue) : List UInt8 := if v = emptyString then [] else bytes v

theorem written_sublist (values : List StreamValue) :
    (values.flatMap written).Sublist (values.flatMap bytes) := by
  induction values with
  | nil => exact .slnil
  | cons v values ih =>
      rw [List.flatMap_cons, List.flatMap_cons]
      refine .append ?_ ih
      rw [written]
      split
      · exact List.nil_sublist _
      · exact .refl _

/-- No value behind an empty string has a byte other than zero. -/
def NothingBehindEmpty (values : List StreamValue) : Prop :=
  ∀ front rest, values = front ++ emptyString :: rest → ∀ v ∈ rest, ∀ b ∈ bytes v, b = 0

theorem nothingBehindEmpty_cons {v : StreamValue} {values : List StreamValue}
    (other : v ≠ emptyString) : NothingBehindEmpty (v :: values) ↔ NothingBehindEmpty values := by
  constructor
  · intro nothing front rest split
    exact nothing (v :: front) rest (by rw [split, List.cons_append])
  · intro nothing front rest split
    cases front with
    | nil => exact absurd (List.cons.inj split).1 other
    | cons w front => exact nothing front rest (List.cons.inj split).2

theorem nothingBehindEmpty_empty {values : List StreamValue} :
    NothingBehindEmpty (emptyString :: values) ↔ ∀ b ∈ values.flatMap bytes, b = 0 := by
  constructor
  · intro nothing b member
    obtain ⟨v, here, inside⟩ := List.mem_flatMap.mp member
    exact nothing [] values rfl v here b inside
  · intro zero front rest split v member b inside
    refine zero b (List.mem_flatMap.mpr ⟨v, ?_, inside⟩)
    cases front with
    | nil => exact (List.cons.inj split).2 ▸ member
    | cons w front =>
        rw [(List.cons.inj split).2]
        exact List.mem_append_right _ (List.mem_cons_of_mem _ member)

instance decidableNothingBehindEmpty : (values : List StreamValue) →
    Decidable (NothingBehindEmpty values)
  | [] => isTrue fun front rest split => by simp at split
  | v :: values =>
      if empty : v = emptyString then
        decidable_of_iff (∀ b ∈ values.flatMap bytes, b = 0)
          (by rw [empty, nothingBehindEmpty_empty])
      else
        have := decidableNothingBehindEmpty values
        decidable_of_iff _ (nothingBehindEmpty_cons empty).symm

/-- What was written begins, with the zero bytes behind it, as it is going to be read. -/
theorem prefix_written_iff (values : List StreamValue) (k : Nat)
    (room : (values.flatMap bytes).length ≤ (values.flatMap written).length + k) :
    values.flatMap bytes <+: values.flatMap written ++ List.replicate k 0 ↔
      NothingBehindEmpty values := by
  induction values with
  | nil => exact iff_of_true List.nil_prefix fun front rest split => by simp at split
  | cons v values ih =>
      rw [List.flatMap_cons, List.flatMap_cons] at room ⊢
      by_cases empty : v = emptyString
      · subst empty
        rw [nothingBehindEmpty_empty]
        have one : bytes emptyString = [0] := rfl
        have none : written emptyString = [] := if_pos rfl
        rw [one, none, List.nil_append, List.singleton_append] at room ⊢
        constructor
        · exact eq_of_shifted_prefix (written_sublist values)
        · intro zero
          have all : values.flatMap bytes = List.replicate (values.flatMap bytes).length 0 :=
            List.eq_replicate_iff.mpr ⟨rfl, zero⟩
          have rest : values.flatMap written = List.replicate (values.flatMap written).length 0 :=
            List.eq_replicate_iff.mpr
              ⟨rfl, fun b member => zero b ((written_sublist values).subset member)⟩
          rw [List.length_cons] at room
          rw [all, rest, ← List.replicate_succ, List.replicate_append_replicate]
          exact List.prefix_replicate_iff.mpr ⟨by simpa using room, by simp⟩
      · have same : written v = bytes v := if_neg empty
        rw [same, List.append_assoc, List.prefix_append_right_inj, nothingBehindEmpty_cons empty]
        rw [same, List.length_append, List.length_append] at room
        exact ih (by omega)

end StreamValue

namespace SFPacket
open Cgsf.Engine.SFPacket StreamValue

def advance (p : SFPacket) (size : Nat) : SFPacket :=
  { p with usCurrentReadPosition := p.usCurrentReadPosition + size }

/-- What lies before the read position of the packet. -/
def unread (p : SFPacket) : List UInt8 := p.packetBuffer.drop p.usCurrentReadPosition

/-- The read position and a number of bytes behind it lie in the packet buffer. -/
def Holds (p : SFPacket) (size : Nat) : Prop :=
  p.packetBuffer.length = maxPacketSize ∧ p.usCurrentReadPosition + size ≤ maxPacketSize

theorem Holds.advance {p : SFPacket} {m n : Nat} (holds : Holds p (m + n)) :
    Holds (advance p m) n :=
  ⟨holds.1, by have := holds.2; simp only [SFPacket.advance]; omega⟩

theorem unread_advance (p : SFPacket) (size : Nat) :
    unread (advance p size) = (unread p).drop size := by
  rw [unread, unread, List.drop_drop]
  rfl

theorem read_eq {p : SFPacket} {n : Nat} (holds : Holds p n) (buffer : List UInt8) :
    p.read buffer n = some (advance p n, (unread p).take n) := by
  obtain ⟨size, fits⟩ := holds
  rw [SFPacket.read, if_neg (by omega), read?, if_pos (by omega)]
  rfl

theorem getWord_eq {p : SFPacket} {width : Nat} (holds : Holds p width) (image : Nat) :
    p.getWord width image = some (advance p width, leValue ((unread p).take width)) := by
  rw [getWord, read_eq holds]
  rfl

/-- What an operator makes of the bytes before the read position. -/
def extract (rest : List UInt8) : StreamType → StreamValue
  | .byte => .byte (.ofNat (leValue (rest.take 1)))
  | .char => .char (UInt8.ofNat (leValue (rest.take 1))).toInt8
  | .short => .short (UInt16.ofNat (leValue (rest.take 2))).toInt16
  | .ushort => .ushort (.ofNat (leValue (rest.take 2)))
  | .int => .int (UInt32.ofNat (leValue (rest.take 4))).toInt32
  | .dword => .dword (.ofNat (leValue (rest.take 4)))
  | .float => .float (.ofNat (leValue (rest.take 4)))
  | .string => .string ⟨rest.takeWhile (· ≠ 0), fun terminator => by
      simpa using List.mem_takeWhile_imp terminator⟩
  | .block bufferSize => .block (rest.take bufferSize)

theorem word_prefix_iff {rest : List UInt8} {width n : Nat} (small : n < 256 ^ width)
    (long : width ≤ rest.length) :
    leBytes width n <+: rest ↔ leValue (rest.take width) = n := by
  rw [List.prefix_iff_eq_take, leBytes_length]
  constructor
  · intro front
    rw [← front, leValue_leBytes_of_lt width n small]
  · rintro rfl
    exact leBytes_leValue_word _ width (List.length_take_of_le long)

theorem word8_iff {rest : List UInt8} (long : 1 ≤ rest.length) (data : UInt8) :
    UInt8.ofNat (leValue (rest.take 1)) = data ↔ leBytes 1 data.toNat <+: rest := by
  have small : leValue (rest.take 1) < 256 := by
    simpa [List.length_take_of_le long] using leValue_lt (rest.take 1)
  rw [word_prefix_iff data.toNat_lt long]
  constructor
  · rintro rfl
    exact (UInt8.toNat_ofNat_of_lt small).symm
  · intro value
    rw [value, UInt8.ofNat_toNat]

theorem word16_iff {rest : List UInt8} (long : 2 ≤ rest.length) (data : UInt16) :
    UInt16.ofNat (leValue (rest.take 2)) = data ↔ leBytes 2 data.toNat <+: rest := by
  have small : leValue (rest.take 2) < 2 ^ 16 := by
    simpa [List.length_take_of_le long] using leValue_lt (rest.take 2)
  rw [word_prefix_iff data.toNat_lt long]
  constructor
  · rintro rfl
    exact (UInt16.toNat_ofNat_of_lt small).symm
  · intro value
    rw [value, UInt16.ofNat_toNat]

theorem word32_iff {rest : List UInt8} (long : 4 ≤ rest.length) (data : UInt32) :
    UInt32.ofNat (leValue (rest.take 4)) = data ↔ leBytes 4 data.toNat <+: rest := by
  have small : leValue (rest.take 4) < 2 ^ 32 := by
    simpa [List.length_take_of_le long] using leValue_lt (rest.take 4)
  rw [word_prefix_iff data.toNat_lt long]
  constructor
  · rintro rfl
    exact (UInt32.toNat_ofNat_of_lt small).symm
  · intro value
    rw [value, UInt32.ofNat_toNat]

theorem text_iff {rest : List UInt8} {szStr : CString} (long : szStr.bytes.length < rest.length) :
    rest.takeWhile (· ≠ 0) = szStr.bytes ↔ szStr.bytes ++ [0] <+: rest := by
  constructor
  · intro text
    have split :=
      List.takeWhile_append_dropWhile (p := fun b : UInt8 => decide (b ≠ 0)) (l := rest)
    rw [text] at split
    have more : rest.dropWhile (· ≠ 0) ≠ [] := by
      intro none
      rw [none, List.append_nil] at split
      rw [split] at long
      exact absurd long (Nat.lt_irrefl _)
    obtain ⟨b, behind, tail⟩ := List.exists_cons_of_ne_nil more
    have zero : b = 0 := by
      have head := List.head?_dropWhile_not (fun b : UInt8 => decide (b ≠ 0)) rest
      rw [tail] at head
      simpa using head
    rw [tail, zero] at split
    exact ⟨behind, by rw [List.append_assoc, List.singleton_append, split]⟩
  · rintro ⟨behind, rfl⟩
    have text : ∀ b ∈ szStr.bytes, decide (b ≠ 0) = true := fun b member =>
      decide_eq_true fun zero => szStr.noTerminator (zero ▸ member)
    rw [List.append_assoc, List.takeWhile_append_of_pos text]
    simp

theorem extract_eq_iff {rest : List UInt8} {v : StreamValue}
    (long : (bytes v).length ≤ rest.length) :
    extract rest v.type = v ↔ bytes v <+: rest := by
  cases v with
  | byte data =>
      rw [StreamValue.type, extract, StreamValue.byte.injEq]
      exact word8_iff (by simpa [bytes] using long) data
  | char data =>
      rw [StreamValue.type, extract, StreamValue.char.injEq, bytes,
        ← word8_iff (by simpa [bytes] using long)]
      exact ⟨fun same => by rw [← same, UInt8.toUInt8_toInt8],
        fun same => by rw [same, Int8.toInt8_toUInt8]⟩
  | short data =>
      rw [StreamValue.type, extract, StreamValue.short.injEq, bytes,
        ← word16_iff (by simpa [bytes] using long)]
      exact ⟨fun same => by rw [← same, UInt16.toUInt16_toInt16],
        fun same => by rw [same, Int16.toInt16_toUInt16]⟩
  | ushort data =>
      rw [StreamValue.type, extract, StreamValue.ushort.injEq]
      exact word16_iff (by simpa [bytes] using long) data
  | int data =>
      rw [StreamValue.type, extract, StreamValue.int.injEq, bytes,
        ← word32_iff (by simpa [bytes] using long)]
      exact ⟨fun same => by rw [← same, UInt32.toUInt32_toInt32],
        fun same => by rw [same, Int32.toInt32_toUInt32]⟩
  | dword data =>
      rw [StreamValue.type, extract, StreamValue.dword.injEq]
      exact word32_iff (by simpa [bytes] using long) data
  | float data =>
      rw [StreamValue.type, extract, StreamValue.float.injEq]
      exact word32_iff (by simpa [bytes] using long) data
  | string szStr =>
      rw [StreamValue.type, extract, StreamValue.string.injEq, bytes, ← text_iff]
      · exact ⟨fun same => by rw [← same], fun same => by cases szStr; simpa using same⟩
      · simp only [bytes, List.length_append, List.length_singleton] at long
        omega
  | block buffer =>
      rw [StreamValue.type, extract, StreamValue.block.injEq, bytes, List.prefix_iff_eq_take]
      exact eq_comm

theorem getString_text {p : SFPacket} {szStr : CString} (holds : Holds p (szStr.bytes.length + 1))
    (front : szStr.bytes ++ [0] <+: unread p) (target : CString) :
    p.getString target = some (advance p (szStr.bytes.length + 1), szStr) := by
  have long : szStr.bytes.length < (p.packetBuffer.drop p.usCurrentReadPosition).length := by
    have := front.length_le
    simp only [List.length_append, List.length_singleton, unread] at this
    omega
  have text : (p.packetBuffer.drop p.usCurrentReadPosition).takeWhile (· ≠ 0) = szStr.bytes :=
    (text_iff long).mpr front
  have fits := holds.2
  simp only [getString, text]
  rw [if_neg (by omega), if_neg (by omega)]
  rfl

theorem prefix_of_getString {p p' : SFPacket} {target szStr : CString}
    (size : p.packetBuffer.length = maxPacketSize) (got : p.getString target = some (p', szStr)) :
    szStr.bytes ++ [0] <+: unread p := by
  simp only [getString] at got
  split at got
  · cases got
  · rename_i terminated
    have shorter := (List.takeWhile_prefix (l := p.packetBuffer.drop p.usCurrentReadPosition)
      fun b : UInt8 => decide (b ≠ 0)).length_le
    split at got
    · rw [List.length_drop] at shorter terminated
      omega
    · obtain ⟨-, rfl⟩ := Prod.mk.inj (Option.some.inj got)
      exact (text_iff (by simp only [unread]; omega)).mp rfl

/-- The operators for everything but strings take a fixed number of bytes. -/
theorem get_fixed {p : SFPacket} {target v : StreamValue} (type : target.type = v.type)
    (fixed : v.type ≠ .string) (holds : Holds p (bytes v).length) :
    p.get target = some (advance p (bytes v).length, extract (unread p) v.type) := by
  cases v with
  | string => exact absurd rfl fixed
  | byte data | char data | short data | ushort data | int data | dword data | float data =>
      simp only [bytes, leBytes_length] at holds
      cases target <;> cases type
      simp only [SFPacket.get, getByte, getChar, getShort, getUshort, getInt, getDword, getFloat,
        getWord_eq holds, Option.map_some, bytes, leBytes_length, StreamValue.type, extract]
  | block buffer =>
      cases target with
      | block old =>
          have length : old.length = buffer.length := by
            simpa [StreamValue.type] using type
          change Holds p buffer.length at holds
          rw [SFPacket.get, length, read_eq holds]
          rfl
      | _ => cases type

theorem get_eq {p : SFPacket} {target v : StreamValue} (type : target.type = v.type)
    (holds : Holds p (bytes v).length) (front : bytes v <+: unread p) :
    p.get target = some (advance p (bytes v).length, v) := by
  by_cases fixed : v.type = .string
  · cases v with
    | string szStr =>
        cases target with
        | string old =>
            have length : (bytes (.string szStr)).length = szStr.bytes.length + 1 := by
              simp [bytes]
            rw [length] at holds ⊢
            rw [SFPacket.get, getString_text holds front, Option.map_some]
        | _ => cases type
    | _ => cases fixed
  · rw [get_fixed type fixed holds, (extract_eq_iff front.length_le).mpr front]

theorem prefix_of_get {p p' : SFPacket} {target v : StreamValue} (type : target.type = v.type)
    (holds : Holds p (bytes v).length) (got : p.get target = some (p', v)) :
    bytes v <+: unread p := by
  by_cases fixed : v.type = .string
  · cases v with
    | string szStr =>
        cases target with
        | string old =>
            obtain ⟨⟨q, text⟩, run, same⟩ := Option.map_eq_some_iff.mp got
            cases same
            exact prefix_of_getString holds.1 run
        | _ => cases type
    | _ => cases fixed
  · rw [get_fixed type fixed holds] at got
    obtain ⟨-, same⟩ := Prod.mk.inj (Option.some.inj got)
    refine (extract_eq_iff ?_).mp same
    have fits := holds.2
    rw [unread, List.length_drop, holds.1]
    omega

/-- The values come back exactly if the stream begins with them. -/
theorem getAll_iff {p : SFPacket} {targets values : List StreamValue}
    (types : targets.map StreamValue.type = values.map StreamValue.type)
    (holds : Holds p (values.flatMap bytes).length) :
    (∃ r, p.getAll targets = some (r, values)) ↔ values.flatMap bytes <+: unread p := by
  induction values generalizing p targets with
  | nil =>
      obtain rfl : targets = [] := List.map_eq_nil_iff.mp types
      exact iff_of_true ⟨p, rfl⟩ List.nil_prefix
  | cons v values ih =>
      cases targets with
      | nil => cases types
      | cons target targets =>
          obtain ⟨type, others⟩ := List.cons.inj types
          rw [List.flatMap_cons, List.length_append] at holds
          have here : Holds p (bytes v).length := ⟨holds.1, by have := holds.2; omega⟩
          rw [List.flatMap_cons]
          constructor
          · rintro ⟨r, run⟩
            obtain ⟨⟨p', w⟩, got, run⟩ := Option.bind_eq_some_iff.mp run
            obtain ⟨⟨q, ws⟩, rest, run⟩ := Option.bind_eq_some_iff.mp run
            obtain ⟨rfl, same⟩ := Prod.mk.inj (Option.some.inj run)
            obtain ⟨rfl, rfl⟩ := List.cons.inj same
            have front := prefix_of_get type here got
            rw [get_eq type here front] at got
            obtain ⟨rfl, -⟩ := Prod.mk.inj (Option.some.inj got)
            have behind := (ih others holds.advance).mp ⟨_, rest⟩
            obtain ⟨tail, split⟩ := front
            rw [unread_advance, ← split, List.drop_left] at behind
            rw [← split]
            exact (List.prefix_append_right_inj _).mpr behind
          · intro front
            have first : bytes v <+: unread p := (List.prefix_append _ _).trans front
            obtain ⟨tail, split⟩ := first
            have behind : values.flatMap bytes <+: unread (advance p (bytes v).length) := by
              rw [unread_advance, ← split, List.drop_left]
              rw [← split] at front
              exact (List.prefix_append_right_inj _).mp front
            obtain ⟨r, rest⟩ := (ih others holds.advance).mpr behind
            refine ⟨r, ?_⟩
            rw [getAll, get_eq type here ⟨tail, split⟩]
            simp only [Option.bind_eq_bind, Option.bind_some, rest, Option.pure_def]

/-! ## Writing -/

/-- Behind its data the packet buffer is still as it was cleared. -/
structure Clear (p : SFPacket) : Prop where
  size : p.data.length = p.getDataSize
  fits : p.data.length ≤ dataCapacity

/-- The packet with its data extended. -/
def extend (p : SFPacket) (bs : List UInt8) : SFPacket :=
  { p with data := p.data ++ bs }.setDataSize (p.data.length + bs.length)

theorem extend_getDataSize {p : SFPacket} {bs : List UInt8}
    (fits : p.data.length + bs.length ≤ dataCapacity) :
    (extend p bs).getDataSize = p.data.length + bs.length := by
  rw [dataCapacity, maxPacketSize, headerSize] at fits
  exact UInt16.toNat_ofNat_of_lt (lt_of_le_of_lt fits (by decide))

theorem Clear.extend {p : SFPacket} {bs : List UInt8}
    (fits : p.data.length + bs.length ≤ dataCapacity) : Clear (extend p bs) where
  size := by rw [extend_getDataSize fits]; exact List.length_append
  fits := le_of_eq_of_le List.length_append fits

theorem extend_append {p : SFPacket} {bs cs : List UInt8} :
    SFPacket.extend (SFPacket.extend p bs) cs = SFPacket.extend p (bs ++ cs) := by
  simp [SFPacket.extend, setDataSize, Nat.add_assoc]

theorem putData_end {p : SFPacket} {bs : List UInt8} (clear : Clear p)
    (fits : p.data.length + bs.length ≤ dataCapacity) :
    p.putData p.getDataSize bs = some { p with data := p.data ++ bs } := by
  rw [putData, ← clear.size, if_pos fits]
  simp [splice]

theorem write_end {p : SFPacket} {bs : List UInt8} (clear : Clear p)
    (fits : p.data.length + bs.length ≤ dataCapacity) : p.write bs = some (extend p bs) := by
  have room : headerSize + p.getDataSize + bs.length ≤ maxPacketSize := by
    rw [← clear.size]
    rw [dataCapacity] at fits
    have : headerSize ≤ maxPacketSize := by decide
    omega
  rw [write, if_neg (by rw [getPacketSize]; omega), putData_end clear fits, ← clear.size]
  rfl

theorem putString_end {p : SFPacket} {szStr : CString} (clear : Clear p) (text : szStr.bytes ≠ [])
    (fits : p.data.length + (szStr.bytes.length + 1) ≤ dataCapacity) :
    p.putString szStr = some (extend p (szStr.bytes ++ [0])) := by
  have positive := List.length_pos_iff.mpr text
  have here : p.data.length + szStr.bytes.length ≤ dataCapacity := by omega
  have room : headerSize + p.getDataSize + szStr.bytes.length + 1 ≤ maxPacketSize := by
    rw [← clear.size]
    rw [dataCapacity] at fits
    have : headerSize ≤ maxPacketSize := by decide
    omega
  have first : ({ p with data := p.data ++ szStr.bytes } : SFPacket).setDataSize
      (p.getDataSize + szStr.bytes.length) = extend p szStr.bytes := by
    rw [← clear.size]
    rfl
  have clear' : Clear (extend p szStr.bytes) := .extend here
  have length : (extend p szStr.bytes).data.length = p.data.length + szStr.bytes.length :=
    List.length_append
  rw [putString]
  dsimp only
  rw [if_neg (by rw [getPacketSize]; omega), putData_end clear here]
  simp only [Option.bind_eq_bind, Option.bind_some, first]
  rw [putData_end clear' (by simp only [length, List.length_singleton]; omega), Option.bind_some,
    ← clear'.size, ← extend_append]
  rfl

theorem put_scalar (p : SFPacket) {v : StreamValue} (fixed : v.type ≠ .string) :
    p.put v = p.write (bytes v) := by
  cases v with
  | string => exact absurd rfl fixed
  | _ => rfl

theorem put_refused (p : SFPacket) (v : StreamValue)
    (large : maxPacketSize < p.getPacketSize + (bytes v).length) : p.put v = some p := by
  by_cases fixed : v.type = .string
  · cases v with
    | string szStr =>
        have length : (bytes (.string szStr)).length = szStr.bytes.length + 1 := by simp [bytes]
        rw [length] at large
        exact if_pos (.inr (by omega))
    | _ => cases fixed
  · rw [put_scalar p fixed]
    exact if_pos large

theorem put_end {p : SFPacket} (clear : Clear p) (v : StreamValue)
    (fits : p.data.length + (bytes v).length ≤ dataCapacity) :
    p.put v = some (extend p (written v)) := by
  by_cases fixed : v.type = .string
  · cases v with
    | string szStr =>
        have length : (bytes (.string szStr)).length = szStr.bytes.length + 1 := by simp [bytes]
        rw [length] at fits
        by_cases empty : szStr.bytes = []
        · have same : StreamValue.string szStr = emptyString := by
            cases szStr
            cases empty
            rfl
          have nothing : written (.string szStr) = [] := if_pos same
          have unchanged : extend p [] = p := by
            rw [extend, List.append_nil, List.length_nil, Nat.add_zero, clear.size, setDataSize,
              getDataSize, UInt16.ofNat_toNat]
          rw [nothing, unchanged]
          exact if_pos (.inl (by rw [empty]; exact le_rfl))
        · have whole : written (.string szStr) = szStr.bytes ++ [0] := by
            refine if_neg fun same => empty ?_
            cases same
            rfl
          rw [whole]
          exact putString_end clear empty fits
    | _ => cases fixed
  · have whole : written v = bytes v := by
      refine if_neg fun same => fixed ?_
      rw [same]
      rfl
    rw [put_scalar p fixed, whole]
    exact write_end clear fits

theorem putAll_end {p : SFPacket} (clear : Clear p) (values : List StreamValue)
    (fits : p.data.length + (values.flatMap bytes).length ≤ dataCapacity) :
    p.putAll values = some (extend p (values.flatMap written)) := by
  induction values generalizing p with
  | nil =>
      rw [putAll, List.foldlM_nil, List.flatMap_nil, extend, List.append_nil, List.length_nil,
        Nat.add_zero, clear.size, setDataSize, getDataSize, UInt16.ofNat_toNat]
      rfl
  | cons v values ih =>
      rw [List.flatMap_cons, List.length_append] at fits
      have shorter : (written v).length ≤ (bytes v).length := by
        simpa using (written_sublist [v]).length_le
      have room : p.data.length + (written v).length ≤ dataCapacity := by omega
      have length : (extend p (written v)).data.length = p.data.length + (written v).length :=
        List.length_append
      have rest := ih (p := extend p (written v)) (.extend room) (by omega)
      rw [putAll, List.foldlM_cons, put_end clear v (by omega), Option.bind_eq_bind,
        Option.bind_some]
      rw [putAll] at rest
      rw [rest, extend_append, List.flatMap_cons]

theorem initPacket_clear (p : SFPacket) : Clear p.initPacket := ⟨rfl, Nat.zero_le _⟩

/-- Writing the values to an initialized packet and reading them into variables of their types, in
the same order, gives the values. -/
def Restored (p : SFPacket) (values : List StreamValue) : Prop :=
  ∃ q, p.initPacket.putAll values = some q ∧
    ∀ targets : List StreamValue, targets.map StreamValue.type = values.map StreamValue.type →
      ∃ r, q.getAll targets = some (r, values)

theorem restored_iff (p : SFPacket) (values : List StreamValue)
    (fits : (values.flatMap bytes).length ≤ dataCapacity) :
    Restored p values ↔ NothingBehindEmpty values := by
  have shorter := (written_sublist values).length_le
  let q := extend p.initPacket (values.flatMap written)
  have run : p.initPacket.putAll values = some q :=
    putAll_end (initPacket_clear p) values
      (by rw [(initPacket_clear p).size]; exact (Nat.zero_add _).trans_le fits)
  have data : q.data = values.flatMap written := List.nil_append _
  have buffer : q.packetBuffer = q.header.bytes ++ (values.flatMap written ++
      List.replicate (dataCapacity - (values.flatMap written).length) 0) := by
    rw [packetBuffer, data, List.append_assoc]
  have image : q.header.bytes.length = headerSize := SFPacketHeader.length_bytes _
  have behind : unread q = values.flatMap written ++
      List.replicate (dataCapacity - (values.flatMap written).length) 0 := by
    rw [unread, buffer]
    exact List.drop_left' image
  have holds : Holds q (values.flatMap bytes).length := by
    refine ⟨?_, ?_⟩
    · rw [buffer, List.length_append, List.length_append, List.length_replicate, image]
      rw [dataCapacity] at *
      have : headerSize ≤ maxPacketSize := by decide
      omega
    · change headerSize + _ ≤ _
      rw [dataCapacity] at fits
      have : headerSize ≤ maxPacketSize := by decide
      omega
  rw [← prefix_written_iff values (dataCapacity - (values.flatMap written).length) (by omega),
    ← behind]
  constructor
  · rintro ⟨q', run', back⟩
    obtain rfl := Option.some.inj (run.symm.trans run')
    exact (getAll_iff rfl holds).mp (back values rfl)
  · intro front
    exact ⟨q, run, fun targets types => (getAll_iff types holds).mpr front⟩

theorem stream_restored_iff (p : SFPacket) (values : List StreamValue)
    (fits : (values.flatMap bytes).length ≤ dataCapacity) :
    (Restored p values ↔ NothingBehindEmpty values) ∧
      ∀ v, maxPacketSize < p.getPacketSize + (bytes v).length → p.put v = some p :=
  ⟨restored_iff p values fits, put_refused p⟩

/-- A value of each type, the empty string last. -/
def sampleValues : List StreamValue :=
  [.byte 255, .char (-1), .short (-2), .ushort 513, .int (-70000), .dword 4000000000,
    .float 0x3FC00000, .string ⟨[104, 105], by decide⟩, .block [0, 1, 2], emptyString]

theorem sampleValues_restored :
    let full : SFPacket := { header := { dataSize := 8178 } }
    Restored full sampleValues ∧ full.put (.int 5) = some full := by
  have both := stream_restored_iff { header := { dataSize := 8178 } } sampleValues (by decide)
  exact ⟨both.1.mpr (by decide +kernel), both.2 (.int 5) (by decide)⟩

/-- The number 7 behind an empty string is read back as 0. -/
theorem emptyString_notRestored :
    let values := [emptyString, .byte 7]
    (values.flatMap bytes).length ≤ dataCapacity ∧ ¬ Restored {} values := by
  refine ⟨by decide, fun restored => ?_⟩
  exact absurd ((restored_iff {} _ (by decide)).mp restored) (by decide)

end SFPacket

end Cgsf.Proof.Engine
