import Cgsf.Proof.PacketEnDeCodeGenerator.Visits
import Mathlib.Data.List.TakeWhile

/-!
# When `Decode` gives back what `Encode` wrote

The texts are written one behind the other. `Decode` is at the same place of the buffer as `Encode`
was as long as every text had bytes and found room.
-/

namespace Cgsf.Proof.PacketEnDeCodeGenerator
open Cgsf.PacketEnDeCodeGenerator Library

variable {file : ProtocolFile} {root : StructInfo} {codePage : CodePage} {packet s after : Packet}
  {c c' d d' w r : Cursor} {tempSize : Int} {items : List (Nat × Visit)}

theorem shortBytes_length (n : Int) : (shortBytes n).length = 2 :=
  leBytes_length 2 _

theorem shortValue_shortBytes {n : Nat} (small : n < 32768) : shortValue (shortBytes n) = n := by
  have same : ((n : Int) % 65536).toNat = n := by omega
  have value : leValue (shortBytes n) = n := by
    rw [shortBytes, same]
    exact leValue_leBytes_of_lt 2 n (by omega)
  rw [shortValue, value, if_pos small]

theorem cString_terminated {cs : List UInt16} (open_ : (0 : UInt16) ∉ cs) : cString (cs ++ [0]) = cs := by
  unfold cString
  induction cs with
  | nil => rfl
  | cons x xs ih =>
      have head : x ≠ 0 := fun zero => open_ (zero ▸ List.mem_cons_self)
      rw [List.cons_append, List.takeWhile_cons, if_pos (by simpa using head),
        ih fun member => open_ (List.mem_cons_of_mem _ member)]

theorem shortened_open (text : List UInt16) (szSize : Int) : (0 : UInt16) ∉ shortened text szSize := by
  intro member
  have inside := List.mem_takeWhile_imp (List.mem_of_mem_take member)
  simp at inside

/-! ## One text -/

/-- The cursor has moved, and what lies before it is as it was. -/
structure Moved (c c' : Cursor) (step : Nat) : Prop where
  length : c'.buffer.length = c.buffer.length
  before : ∀ j < c.pos, c'.buffer[j]? = c.buffer[j]?
  pos : c'.pos = c.pos + step
  steps : c'.steps = c.steps ++ [step]

/-- The text lies in the buffer behind its length. -/
structure Put (c c' : Cursor) (bs : List UInt8) : Prop extends Moved c c' (bs.length + 2) where
  count : read? c'.buffer c.pos 2 = some (shortBytes bs.length)
  bytes : read? c'.buffer (c.pos + 2) bs.length = some bs

theorem moved_of_write {buffer : List UInt8} {xs : List UInt8} {step : Nat}
    (inside : c.pos + xs.length ≤ c.buffer.length) (is : splice c.buffer c.pos xs = buffer) :
    Moved c ({ c with buffer }.advance step) step := by
  subst is
  refine ⟨splice_length _ _ _ inside, ?_, rfl, rfl⟩
  intro j lt
  exact splice_getElem?_outside _ _ _ _ inside (.inl lt)

theorem writeWChar_put {text : List UInt16} {bs : List UInt8} (narrow : codePage.narrow text = some bs)
    (room : c.pos + 2 + bs.length < c.buffer.length) :
    ∃ c', writeWChar codePage text c = some c' ∧ Put c c' bs := by
  have fits : bs.length ≤ c.buffer.length - (c.pos + 2) - 1 := by omega
  have inside : c.pos + 2 + (bs ++ [0]).length ≤ c.buffer.length := by
    rw [List.length_append, List.length_singleton]
    omega
  have size := splice_length c.buffer (c.pos + 2) (bs ++ [0]) inside
  have inside' : c.pos + (shortBytes bs.length).length ≤
      (splice c.buffer (c.pos + 2) (bs ++ [0])).length := by
    rw [shortBytes_length, size]
    omega
  unfold writeWChar
  rw [if_pos (by omega), narrow]
  dsimp only
  rw [List.take_of_length_le fits, write?_eq_some.mpr ⟨inside, rfl⟩, Option.bind_some, if_pos fits,
    write?_eq_some.mpr ⟨inside', rfl⟩]
  refine ⟨_, rfl, ⟨(splice_length _ _ _ inside').trans size, ?_, ?_, ?_⟩, ?_, ?_⟩
  · intro j lt
    exact (splice_getElem?_outside _ _ _ _ inside' (.inl lt)).trans
      (splice_getElem?_outside _ _ _ _ inside (.inl (by omega)))
  · simp [Cursor.advance]
    omega
  · simp [Cursor.advance]
    omega
  · have self := read?_splice_self _ _ _ inside'
    rw [shortBytes_length] at self
    exact self
  · have self := read?_splice_self _ _ _ inside
    rw [List.length_append, List.length_singleton] at self
    have whole := read?_take self bs.length (Nat.le_succ _)
    rw [List.take_left] at whole
    rw [← whole]
    apply read?_congr (splice_length _ _ _ inside')
    intro j le lt
    apply splice_getElem?_outside _ _ _ _ inside' (.inr _)
    rw [shortBytes_length]
    exact le

/-- A text without bytes or without room moves the cursor by one. -/
theorem writeWChar_cases {text : List UInt16} (written : writeWChar codePage text c = some c') :
    Moved c c' 1 ∨ ∃ bs, codePage.narrow text = some bs ∧ c.pos + 2 + bs.length < c.buffer.length ∧
      Put c c' bs := by
  cases narrow : codePage.narrow text with
  | none =>
      left
      unfold writeWChar at written
      rw [narrow] at written
      split at written
      · obtain ⟨buffer, put, rfl⟩ := Option.map_eq_some_iff.mp written
        obtain ⟨inside, is⟩ := write?_eq_some.mp put
        exact moved_of_write inside is
      · contradiction
  | some bs =>
      by_cases room : c.pos + 2 + bs.length < c.buffer.length
      · right
        obtain ⟨c'', same, put⟩ := writeWChar_put narrow room
        rw [written] at same
        cases same
        exact ⟨bs, rfl, room, put⟩
      · left
        unfold writeWChar at written
        rw [narrow] at written
        split at written
        · rename_i start
          obtain ⟨buffer, one, written⟩ := Option.bind_eq_some_iff.mp written
          obtain ⟨buffer', two, same⟩ := Option.map_eq_some_iff.mp written
          obtain ⟨inside, rfl⟩ := write?_eq_some.mp one
          obtain ⟨inside', rfl⟩ := write?_eq_some.mp two
          have long : ¬bs.length ≤ c.buffer.length - (c.pos + 2) - 1 := by omega
          rw [if_neg long] at same inside'
          subst same
          have first := splice_length _ _ _ inside
          refine ⟨(splice_length _ _ _ inside').trans first, ?_, rfl, rfl⟩
          intro j lt
          exact (splice_getElem?_outside _ _ _ _ inside' (.inl lt)).trans
            (splice_getElem?_outside _ _ _ _ inside (.inl (by omega)))
        · contradiction

/-- `Decode` at the place of a text. -/
theorem readWChar_put (codePage : CodePage) (tempSize : Int) {bs : List UInt8} {n : Int} (positive : 0 < n) (small : bs.length < 32768)
    (count : read? d.buffer d.pos 2 = some (shortBytes bs.length))
    (bytes : read? d.buffer (d.pos + 2) bs.length = some bs) :
    readWChar codePage n tempSize d =
      if (bs.length : Int) < tempSize then
        some (shortened (codePage.widen (cString bs)) n ++ [0], d.advance (bs.length + 2))
      else none := by
  unfold readWChar
  rw [count, Option.bind_some]
  dsimp only
  rw [shortValue_shortBytes small]
  by_cases room : (bs.length : Int) < tempSize
  · rw [if_pos ⟨Int.natCast_nonneg _, room, positive⟩, if_pos room, Int.toNat_natCast, bytes]
    rfl
  · rw [if_neg fun all => room all.2.1, if_neg room]

theorem readWChar_step {n : Int} {text : List UInt16}
    (run : readWChar codePage n tempSize d = some (text, d')) :
    ∃ step, 2 ≤ step ∧ d' = d.advance step := by
  unfold readWChar at run
  obtain ⟨length, -, run⟩ := Option.bind_eq_some_iff.mp run
  dsimp only at run
  split at run
  · rename_i facts
    obtain ⟨temp, -, same⟩ := Option.map_eq_some_iff.mp run
    cases same
    exact ⟨_, by omega, rfl⟩
  · contradiction

/-! ## All texts -/

/-- Every text has an end in its array and bytes, and these find room in the buffer of `Encode` and
in the temporary one of `Decode`. -/
def Fits (file : ProtocolFile) (codePage : CodePage) (packet : Packet) (bufferSize : Nat) (tempSize : Int) :
    Nat → List (Nat × Visit) → Prop
  | _, [] => True
  | pos, (i, .text place size) :: items => ∃ a n text bs, address file i place = some a ∧
      file.size size = some n ∧ arrayText (packet.texts a) n = some text ∧
      codePage.narrow text = some bs ∧ pos + 2 + bs.length < bufferSize ∧ (bs.length : Int) < tempSize ∧
      Fits file codePage packet bufferSize tempSize (pos + 2 + bs.length) items
  | _, (_, .number _ _) :: _ | _, (_, .numbers _ _ _ _) :: _ => False

/-- What `Decode` leaves in an array that it visits. -/
def Stored (file : ProtocolFile) (codePage : CodePage) (packet after : Packet) : Nat × Visit → Prop
  | (i, .text place size) => ∀ a n bs, address file i place = some a → file.size size = some n →
      codePage.narrow (cString (packet.texts a)) = some bs →
      after.texts a = shortened (codePage.widen (cString bs)) n ++ [0]
  | (_, .number _ _) | (_, .numbers _ _ _ _) => False

theorem arrayText_eq_some {content text : List UInt16} {n : Int} :
    arrayText content n = some text ↔ 0 ∈ content.take n.toNat ∧ cString content = text := by
  unfold arrayText
  split
  · simp [*]
  · simp [*]

theorem size_pos {content : List UInt16} {n : Int} (ends : (0 : UInt16) ∈ content.take n.toNat) :
    0 < n := by
  by_contra no
  have none : n.toNat = 0 := by omega
  rw [none, List.take_zero] at ends
  contradiction

theorem writeVisit_text {i : Nat} {place : Place} {size : ArrayDefine} :
    writeVisit file codePage packet c (i, .text place size) = some c' ↔ ∃ a n,
      address file i place = some a ∧ file.size size = some n ∧
      (0 : UInt16) ∈ (packet.texts a).take n.toNat ∧
      writeWChar codePage (cString (packet.texts a)) c = some c' := by
  simp only [writeVisit, Option.bind_eq_some_iff, arrayText_eq_some]
  constructor
  · rintro ⟨a, at_, n, is, text, ⟨ends, rfl⟩, written⟩
    exact ⟨a, n, at_, is, ends, written⟩
  · rintro ⟨a, n, at_, is, ends, written⟩
    exact ⟨a, at_, n, is, _, ⟨ends, rfl⟩, written⟩

theorem readVisit_text {i : Nat} {place : Place} {size : ArrayDefine} {s' : Packet} :
    readVisit file codePage tempSize (s, d) (i, .text place size) = some (s', d') ↔ ∃ a n text,
      address file i place = some a ∧ file.size size = some n ∧
      readWChar codePage n tempSize d = some (text, d') ∧ s.setText a text = s' := by
  simp only [readVisit, Option.bind_eq_some_iff, Option.map_eq_some_iff]
  constructor
  · rintro ⟨a, at_, n, is, ⟨text, d''⟩, read, same⟩
    cases same
    exact ⟨a, n, text, at_, is, read, rfl⟩
  · rintro ⟨a, n, text, at_, is, read, rfl⟩
    exact ⟨a, at_, n, is, (text, d'), read, rfl⟩

/-- A run of `Encode` leaves alone what lies before its cursor. -/
theorem writes_moved (texts : ∀ item ∈ items, IsText file root item.2)
    (encoded : items.foldlM (writeVisit file codePage packet) c = some w) :
    w.buffer.length = c.buffer.length ∧ c.pos ≤ w.pos ∧
      (∀ j < c.pos, w.buffer[j]? = c.buffer[j]?) ∧ c.steps <+: w.steps := by
  induction items generalizing c with
  | nil =>
      cases encoded
      exact ⟨rfl, le_rfl, fun j lt => rfl, List.prefix_rfl⟩
  | cons item items ih =>
      obtain ⟨i, v⟩ := item
      obtain ⟨place, size, e, rfl, -⟩ := texts (i, v) List.mem_cons_self
      rw [List.foldlM_cons] at encoded
      obtain ⟨c', head, rest⟩ := Option.bind_eq_some_iff.mp encoded
      obtain ⟨a, n, -, -, -, written⟩ := writeVisit_text.mp head
      have moved : ∃ step, Moved c c' step := by
        rcases writeWChar_cases written with one | ⟨bs, -, -, put⟩
        · exact ⟨_, one⟩
        · exact ⟨_, put.toMoved⟩
      obtain ⟨step, moved⟩ := moved
      obtain ⟨length, le, before, steps⟩ :=
        ih (fun other member => texts other (List.mem_cons_of_mem _ member)) rest
      have pos := moved.pos
      refine ⟨length.trans moved.length, by omega, ?_, ?_⟩
      · intro j lt
        exact (before j (by omega)).trans (moved.before j lt)
      · rw [moved.steps] at steps
        exact (List.prefix_append _ _).trans steps

theorem reads_steps (texts : ∀ item ∈ items, IsText file root item.2)
    (decoded : items.foldlM (readVisit file codePage tempSize) (s, d) = some (after, r)) :
    d.steps <+: r.steps := by
  induction items generalizing s d with
  | nil =>
      cases decoded
      exact List.prefix_rfl
  | cons item items ih =>
      obtain ⟨i, v⟩ := item
      obtain ⟨place, size, e, rfl, -⟩ := texts (i, v) List.mem_cons_self
      rw [List.foldlM_cons] at decoded
      obtain ⟨⟨s', d'⟩, head, rest⟩ := Option.bind_eq_some_iff.mp decoded
      obtain ⟨a, n, text, -, -, read, -⟩ := readVisit_text.mp head
      obtain ⟨step, -, rfl⟩ := readWChar_step read
      have steps := ih (fun other member => texts other (List.mem_cons_of_mem _ member)) rest
      exact (List.prefix_append _ _).trans steps

/-- A text that `Decode` does not visit stays as it was. -/
theorem reads_frame (texts : ∀ item ∈ items, IsText file root item.2) {a : Address}
    (away : ∀ i place size, (i, Visit.text place size) ∈ items → address file i place ≠ some a)
    (decoded : items.foldlM (readVisit file codePage tempSize) (s, d) = some (after, r)) :
    after.texts a = s.texts a := by
  induction items generalizing s d with
  | nil =>
      cases decoded
      rfl
  | cons item items ih =>
      obtain ⟨i, v⟩ := item
      obtain ⟨place, size, e, rfl, -⟩ := texts (i, v) List.mem_cons_self
      rw [List.foldlM_cons] at decoded
      obtain ⟨⟨s', d'⟩, head, rest⟩ := Option.bind_eq_some_iff.mp decoded
      obtain ⟨a', n, text, at_, -, -, rfl⟩ := readVisit_text.mp head
      have other : a ≠ a' := by
        rintro rfl
        exact away i place size List.mem_cons_self at_
      rw [ih (fun other member => texts other (List.mem_cons_of_mem _ member))
        (fun i place size member => away i place size (List.mem_cons_of_mem _ member)) rest]
      exact if_neg other

theorem size_unique {i i' : Nat} {place place' : Place} {size size' : ArrayDefine}
    {a : Address} (text : IsText file root (.text place size))
    (text' : IsText file root (.text place' size')) (found : address file i place = some a)
    (found' : address file i' place' = some a) : size = size' := by
  obtain ⟨_, _, e, same, named⟩ := text
  cases same
  obtain ⟨_, _, e', same, named'⟩ := text'
  cases same
  have paths := (address_forget found).symm.trans (address_forget found')
  cases resolve_unique named named' paths
  rfl

/-- What is left of the first text after the others have been read. -/
theorem stored_cons {i : Nat} {place : Place} {size : ArrayDefine} {a : Address} {n : Int}
    {bs : List UInt8} (texts : ∀ item ∈ (i, Visit.text place size) :: items, IsText file root item.2)
    (found : address file i place = some a) (is : file.size size = some n)
    (narrow : codePage.narrow (cString (packet.texts a)) = some bs)
    (decoded : items.foldlM (readVisit file codePage tempSize)
      (s.setText a (shortened (codePage.widen (cString bs)) n ++ [0]), d) = some (after, r))
    (stored : ∀ item ∈ items, Stored file codePage packet after item) :
    ∀ item ∈ (i, Visit.text place size) :: items, Stored file codePage packet after item := by
  intro item member
  cases member with
  | tail _ member => exact stored item member
  | head =>
      intro a' n' bs' found' is' narrow'
      rw [found] at found'
      cases found'
      rw [is] at is'
      cases is'
      rw [narrow] at narrow'
      cases narrow'
      by_cases again : ∃ i' place' size', (i', Visit.text place' size') ∈ items ∧
          address file i' place' = some a
      · obtain ⟨i', place', size', mem, found'⟩ := again
        cases size_unique (texts _ List.mem_cons_self) (texts _ (List.mem_cons_of_mem _ mem)) found found'
        exact stored _ mem a n bs found' is narrow
      · rw [reads_frame (fun other mem => texts other (List.mem_cons_of_mem _ mem)) _ decoded]
        · exact if_pos rfl
        · intro i' place' size' mem found'
          exact again ⟨i', place', size', mem, found'⟩

/-- The buffer of `Decode` has what `Encode` wrote, from the cursors on. -/
structure Follows (c d w : Cursor) : Prop where
  pos : d.pos = c.pos
  length : d.buffer.length = w.buffer.length
  holds : ∀ j, c.pos ≤ j → j < w.pos → d.buffer[j]? = w.buffer[j]?

theorem Follows.put {bs : List UInt8} (follows : Follows c d w) (put : Put c c' bs)
    (length : w.buffer.length = c'.buffer.length) (le : c'.pos ≤ w.pos)
    (before : ∀ j < c'.pos, w.buffer[j]? = c'.buffer[j]?) :
    read? d.buffer d.pos 2 = some (shortBytes bs.length) ∧
      read? d.buffer (d.pos + 2) bs.length = some bs ∧ Follows c' (d.advance (bs.length + 2)) w := by
  have pos := put.pos
  have same (j : Nat) (low : c.pos ≤ j) (high : j < c'.pos) : d.buffer[j]? = c'.buffer[j]? :=
    (follows.holds j low (by omega)).trans (before j high)
  refine ⟨?_, ?_, ?_, follows.length, ?_⟩
  · rw [follows.pos, ← put.count]
    apply read?_congr (follows.length.trans length)
    intro j le lt
    exact same j le (by omega)
  · rw [follows.pos, ← put.bytes]
    apply read?_congr (follows.length.trans length)
    intro j le lt
    exact same j (by omega) (by omega)
  · rw [Cursor.advance, follows.pos, pos]
  · intro j low high
    exact follows.holds j (by omega) high

/-- Two runs whose cursors move alike. -/
theorem fits_of_runs (texts : ∀ item ∈ items, IsText file root item.2)
    (encoded : items.foldlM (writeVisit file codePage packet) c = some w)
    (decoded : items.foldlM (readVisit file codePage tempSize) (s, d) = some (after, r))
    (follows : Follows c d w) (steps : c.steps = d.steps) (same : w.steps = r.steps)
    (small : c.buffer.length ≤ 32768) :
    Fits file codePage packet c.buffer.length tempSize c.pos items ∧
      ∀ item ∈ items, Stored file codePage packet after item := by
  induction items generalizing c s d with
  | nil => exact ⟨trivial, by simp⟩
  | cons item items ih =>
      obtain ⟨i, v⟩ := item
      obtain ⟨place, size, e, rfl, -⟩ := texts (i, v) List.mem_cons_self
      have rest (other : Nat × Visit) (member : other ∈ items) : IsText file root other.2 :=
        texts other (List.mem_cons_of_mem _ member)
      rw [List.foldlM_cons] at encoded decoded
      obtain ⟨c', head, encoded⟩ := Option.bind_eq_some_iff.mp encoded
      obtain ⟨⟨s', d'⟩, head', decoded⟩ := Option.bind_eq_some_iff.mp decoded
      obtain ⟨a, n, found, is, ends, written⟩ := writeVisit_text.mp head
      obtain ⟨a', n', text, found', is', read, rfl⟩ := readVisit_text.mp head'
      rw [found] at found'
      cases found'
      rw [is] at is'
      cases is'
      obtain ⟨step, two, moved⟩ := readWChar_step read
      have grown := (writes_moved rest encoded).2.2.2
      have grown' := reads_steps rest decoded
      rw [same] at grown
      rcases writeWChar_cases written with one | ⟨bs, narrow, room, put⟩
      · rw [one.steps, steps] at grown
        rw [moved] at grown'
        have eq := List.prefix_of_prefix_length_le grown grown' (by simp [Cursor.advance])
        have last := List.append_cancel_left (eq.eq_of_length (by simp [Cursor.advance]))
        cases last
        omega
      · obtain ⟨length, le, before, -⟩ := writes_moved rest encoded
        obtain ⟨count, bytes, later⟩ := follows.put put length le before
        rw [readWChar_put _ _ (size_pos ends) (by omega) count bytes] at read
        split at read
        · rename_i temp
          cases read
          obtain ⟨fits, stored⟩ := ih rest encoded decoded later
            (by rw [put.steps, steps]; rfl) (put.length.le.trans small)
          rw [put.length, put.pos] at fits
          refine ⟨⟨a, n, _, bs, found, is, arrayText_eq_some.mpr ⟨ends, rfl⟩, narrow, room, temp, ?_⟩,
            stored_cons texts found is narrow decoded stored⟩
          rwa [show c.pos + (bs.length + 2) = c.pos + 2 + bs.length by omega] at fits
        · contradiction

theorem runs_of_fits (texts : ∀ item ∈ items, IsText file root item.2) {bufferSize : Nat}
    (fits : Fits file codePage packet bufferSize tempSize c.pos items)
    (length : c.buffer.length = bufferSize) (small : bufferSize ≤ 32768) :
    ∃ w, items.foldlM (writeVisit file codePage packet) c = some w ∧
      ∀ s d, Follows c d w → c.steps = d.steps → ∃ after r,
        items.foldlM (readVisit file codePage tempSize) (s, d) = some (after, r) ∧
        w.steps = r.steps ∧ ∀ item ∈ items, Stored file codePage packet after item := by
  induction items generalizing c with
  | nil => exact ⟨c, rfl, fun s d follows steps => ⟨s, d, rfl, steps, by simp⟩⟩
  | cons item items ih =>
      obtain ⟨i, v⟩ := item
      obtain ⟨place, size, e, rfl, -⟩ := texts (i, v) List.mem_cons_self
      have rest (other : Nat × Visit) (member : other ∈ items) : IsText file root other.2 :=
        texts other (List.mem_cons_of_mem _ member)
      obtain ⟨a, n, text, bs, found, is, array, narrow, room, temp, fits⟩ := fits
      obtain ⟨ends, rfl⟩ := arrayText_eq_some.mp array
      obtain ⟨c', written, put⟩ := writeWChar_put narrow (by rw [length]; exact room)
      rw [show c.pos + 2 + bs.length = c'.pos by rw [put.pos]; omega] at fits
      obtain ⟨w, encoded, reads⟩ := ih rest fits (put.length.trans length)
      have head := writeVisit_text.mpr ⟨a, n, found, is, ends, written⟩
      refine ⟨w, by rw [List.foldlM_cons, head]; exact encoded, ?_⟩
      intro s d follows steps
      obtain ⟨size', le, before, -⟩ := writes_moved rest encoded
      obtain ⟨count, bytes, later⟩ := follows.put put size' le before
      have read := readWChar_put codePage tempSize (size_pos ends) (by omega) count bytes
      rw [if_pos temp] at read
      have head' := readVisit_text (s := s) |>.mpr ⟨a, n, _, found, is, read, rfl⟩
      obtain ⟨after, r, decoded, same, stored⟩ := reads _ _ later (by rw [put.steps, steps]; rfl)
      exact ⟨after, r, by rw [List.foldlM_cons, head']; exact decoded, same,
        stored_cons texts found is narrow decoded stored⟩

/-! ## The header -/

theorem writeHeader_spec {regionID packetID bodySize : Int} {buffer buffer' : List UInt8}
    (written : writeHeader regionID packetID bodySize buffer = some buffer') :
    6 ≤ buffer.length ∧ buffer'.length = buffer.length ∧ ∀ j, 6 ≤ j → buffer'[j]? = buffer[j]? := by
  unfold writeHeader at written
  obtain ⟨one, is, written⟩ := Option.bind_eq_some_iff.mp written
  obtain ⟨two, is', written⟩ := Option.bind_eq_some_iff.mp written
  obtain ⟨inside₁, rfl⟩ := write?_eq_some.mp is
  obtain ⟨inside₂, rfl⟩ := write?_eq_some.mp is'
  obtain ⟨inside₃, rfl⟩ := write?_eq_some.mp written
  have length₁ := splice_length _ _ _ inside₁
  have length₂ := splice_length _ _ _ inside₂
  have length₃ := splice_length _ _ _ inside₃
  have room := inside₃
  rw [shortBytes_length] at room
  refine ⟨by omega, by omega, fun j le => ?_⟩
  rw [splice_getElem?_outside _ _ _ _ inside₃ (.inr (by rw [shortBytes_length]; omega)),
    splice_getElem?_outside _ _ _ _ inside₂ (.inr (by rw [shortBytes_length]; omega)),
    splice_getElem?_outside _ _ _ _ inside₁ (.inr (by rw [shortBytes_length]; omega))]

theorem writeHeader_room (regionID packetID bodySize : Int) (buffer : List UInt8)
    (room : 6 ≤ buffer.length) : ∃ buffer', writeHeader regionID packetID bodySize buffer = some buffer' := by
  have inside₁ : 0 + (shortBytes regionID).length ≤ buffer.length := by
    rw [shortBytes_length]
    omega
  obtain ⟨one, is, length₁⟩ := write?_fits _ _ _ inside₁
  have inside₂ : 2 + (shortBytes packetID).length ≤ one.length := by
    rw [shortBytes_length]
    omega
  obtain ⟨two, is', length₂⟩ := write?_fits _ _ _ inside₂
  have inside₃ : 4 + (shortBytes bodySize).length ≤ two.length := by
    rw [shortBytes_length]
    omega
  obtain ⟨three, is'', -⟩ := write?_fits _ _ _ inside₃
  refine ⟨three, ?_⟩
  rw [writeHeader, is, Option.bind_some, is', Option.bind_some, is'']

/-- What the two functions are called with, and the `MaxBufferSize` of the object that decodes. -/
structure Transfer where
  packet : Packet
  before : Packet
  regionID : Int
  packetID : Int
  outPutBufferSize : Option Int
  maxBufferSize : Int

variable {t : Transfer}

/-- The parts of the packet that a visit has encoded are again what they were. -/
def Restored (file : ProtocolFile) (packet after : Packet) : Nat × Visit → Prop
  | (i, .number place type) => ∀ a, address file i place = some a →
      numberBytes after a (cppSizeof type) = numberBytes packet a (cppSizeof type)
  | (i, .numbers place type copied _) => ∀ a n, address file i place = some a →
      count file packet i copied = some n →
      numberBytes after a (cppSizeof type * n.toNat) = numberBytes packet a (cppSizeof type * n.toNat)
  | (i, .text place _) => ∀ a, address file i place = some a →
      cString (after.texts a) = cString (packet.texts a)

/-- Both functions compile and visit the same members in the same order, each of them moves both
cursors by as much, and every member that was encoded is restored. -/
def Agrees (file : ProtocolFile) (codePage : CodePage) (codec : EnDecode) (t : Transfer) : Prop :=
  let bufferSize := codec.structInfo.defineDataBufferSize
  let maxBufferSize := encodeInit bufferSize t.outPutBufferSize
  0 < bufferSize ∧ ∃ members items w after r,
    visits file codec.structInfo .encode codec.encode = some members ∧
    visits file codec.structInfo .decode codec.decode = some members ∧
    members.unroll (turns file maxBufferSize) 0 = some items ∧
    members.unroll (turns file t.maxBufferSize) 0 = some items ∧
    runEncode file codePage t.packet t.regionID t.packetID maxBufferSize items = some w ∧
    runDecode file codePage bufferSize w.buffer t.before items = some (after, r) ∧
    w.steps = r.steps ∧ ∀ item ∈ items, Restored file t.packet after item

/-- The bytes of a text are the bytes of this text for `Decode` too. -/
def ReadsBack (file : ProtocolFile) (codePage : CodePage) (packet : Packet) : Nat × Visit → Prop
  | (i, .text place size) => ∀ a n bs, address file i place = some a → file.size size = some n →
      codePage.narrow (cString (packet.texts a)) = some bs →
      shortened (codePage.widen (cString bs)) n = cString (packet.texts a)
  | (_, .number _ _) | (_, .numbers _ _ _ _) => False

/-- The struct has nothing but texts, in itself and in its structs, and they fit. -/
def OnlyTexts (file : ProtocolFile) (codePage : CodePage) (depth : Nat) (info : StructInfo) (t : Transfer) :
    Prop :=
  let maxBufferSize := encodeInit info.defineDataBufferSize t.outPutBufferSize
  0 < info.defineDataBufferSize ∧ 6 ≤ maxBufferSize ∧ ∃ members items,
    structTexts file info depth false .packetData info = some members ∧
    members.unroll (turns file maxBufferSize) 0 = some items ∧
    members.unroll (turns file t.maxBufferSize) 0 = some items ∧
    Fits file codePage t.packet maxBufferSize.toNat info.defineDataBufferSize file.packetHeaderSize items ∧
    ∀ item ∈ items, ReadsBack file codePage t.packet item

theorem fits_item {bufferSize pos i : Nat} {place : Place} {size : ArrayDefine}
    (fits : Fits file codePage packet bufferSize tempSize pos items)
    (member : (i, Visit.text place size) ∈ items) : ∃ a n bs, address file i place = some a ∧
      file.size size = some n ∧ codePage.narrow (cString (packet.texts a)) = some bs := by
  induction items generalizing pos with
  | nil => contradiction
  | cons item items ih =>
      obtain ⟨j, v⟩ := item
      cases v with
      | number => contradiction
      | numbers => contradiction
      | text =>
          obtain ⟨a, n, text, bs, found, is, array, narrow, -, -, fits⟩ := fits
          cases member with
          | tail _ member => exact ih fits member
          | head =>
              obtain ⟨-, rfl⟩ := arrayText_eq_some.mp array
              exact ⟨a, n, bs, found, is, narrow⟩

/-- What is stored is the text itself. -/
theorem restored_iff {bufferSize pos : Nat} (texts : ∀ item ∈ items, IsText file root item.2)
    (fits : Fits file codePage packet bufferSize tempSize pos items)
    (stored : ∀ item ∈ items, Stored file codePage packet after item) :
    (∀ item ∈ items, Restored file packet after item) ↔
      ∀ item ∈ items, ReadsBack file codePage packet item := by
  constructor
  · rintro restored ⟨i, v⟩ member
    obtain ⟨place, size, e, rfl, -⟩ := texts _ member
    intro a n bs found is narrow
    have kept := stored _ member a n bs found is narrow
    rw [← restored _ member a found, kept, cString_terminated (shortened_open _ _)]
  · rintro back ⟨i, v⟩ member
    obtain ⟨place, size, e, rfl, -⟩ := texts _ member
    intro a found
    obtain ⟨a', n, bs, found', is, narrow⟩ := fits_item fits member
    rw [found] at found'
    cases found'
    rw [stored _ member a n bs found is narrow, cString_terminated (shortened_open _ _)]
    exact back _ member a n bs found is narrow

theorem encodeInit_lt (defineDataBufferSize : Int) (outPutBufferSize : Option Int) :
    encodeInit defineDataBufferSize outPutBufferSize < 32768 :=
  Int.bmod_lt (by decide)

theorem mem_generated {depth : Nat} {codecs : List EnDecode} {codec : EnDecode}
    (accepted : generateEnDecoderClass depth file = some codecs) (member : codec ∈ codecs) :
    encodeMemberDataStruct file depth .packetData codec.structInfo = some codec.encode ∧
      decodeMemberDataStruct file depth .packetData codec.structInfo = some codec.decode := by
  obtain ⟨info, -, made⟩ := mem_of_mapM_eq_some accepted member
  obtain ⟨encode, one, made⟩ := Option.bind_eq_some_iff.mp made
  obtain ⟨decode, two, rfl⟩ := Option.map_eq_some_iff.mp made
  exact ⟨one, two⟩

/-- `PKTReqCharacterInfo` of the sample protocol. -/
def characterInfo : StructInfo where
  isPassEnDecodeGenerate := false
  name := "PKTReqCharacterInfo"
  defineDataBufferSize := 10
  memberList := [⟨"int", "CharacterIndex", none, 1⟩]
  distinct := by decide

def characterFile : ProtocolFile where
  constants := [("PACKET_HEADER_SIZE", 6)]
  packetHeaderSize := 6
  structs := [characterInfo]
  distinct := by decide
  header := by decide
  headerRoom := by decide

/-- The code page of the first 128 characters. -/
def ascii : CodePage where
  narrow text := if text.all (· < 128) then some (text.map UInt16.toUInt8) else none
  widen bs := bs.map UInt8.toUInt16

/-- The packet has no text but `szText`. -/
def greeting : Packet where
  numbers _ _ := 0
  texts a := if a = [.field "szText"] then [72, 105, 0] else [0]

def exchange : Transfer where
  packet := greeting
  before := { numbers := fun _ _ => 0, texts := fun _ => [] }
  regionID := 1
  packetID := 1001
  outPutBufferSize := none
  maxBufferSize := 10

def sender : StructInfo where
  isPassEnDecodeGenerate := true
  name := "Sender"
  defineDataBufferSize := 74
  memberList := [⟨"wchar_t", "szID", some (.constant "MAX_ID_LENGTH"), 17⟩]
  distinct := by decide

def chat : StructInfo where
  isPassEnDecodeGenerate := false
  name := "PKTNtfChat"
  defineDataBufferSize := 142
  memberList := [⟨"Sender", "From", none, 1⟩,
    ⟨"wchar_t", "szText", some (.constant "MAX_ID_LENGTH"), 17⟩]
  distinct := by decide

def chatFile : ProtocolFile where
  constants := [("PACKET_HEADER_SIZE", 6), ("MAX_ID_LENGTH", 17)]
  packetHeaderSize := 6
  structs := [sender, chat]
  distinct := by decide
  header := by decide
  headerRoom := by decide

def chatItems : List (Nat × Visit) :=
  [(0, .text [.field "From", .field "szID"] (.constant "MAX_ID_LENGTH")),
    (0, .text [.field "szText"] (.constant "MAX_ID_LENGTH"))]

end Cgsf.Proof.PacketEnDeCodeGenerator
