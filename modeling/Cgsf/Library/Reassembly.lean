import Mathlib.Algebra.GroupWithZero.Nat
import Mathlib.Data.List.Basic
import Mathlib.Data.List.Flatten
import Mathlib.Data.List.Infix
import Mathlib.Data.List.TakeDrop

/-!
# Stream reassembly

A deframer looks at the bytes received so far and finds one frame at their front, waits for more,
or gives up. What it finds never depends on the bytes that follow, so draining a stream chunk by
chunk is draining all of it at once, as long as the receiver has room for every chunk.
-/

namespace Cgsf.Library

variable {α φ : Type*}

inductive Next (φ : Type*) where
  | incomplete
  | frame (found : φ)
  | malformed
  deriving DecidableEq, Repr

structure Deframer (α φ : Type*) where
  next : List α → Next φ
  encode : φ → List α
  Accepts : φ → Prop
  next_frame : ∀ bytes found, next bytes = .frame found ↔ Accepts found ∧ encode found <+: bytes
  encode_ne_nil : ∀ found, Accepts found → encode found ≠ []
  next_nil : next [] = .incomplete
  malformed_append : ∀ bytes more, next bytes = .malformed → next (bytes ++ more) = .malformed

structure Drained (α φ : Type*) where
  frames : List φ
  rest : List α
  sound : Bool

namespace Drained

def after (frames : List φ) (later : Drained α φ) : Drained α φ :=
  { later with frames := frames ++ later.frames }

end Drained

/-- How many of the first `n` bytes of a stream of frames of the given sizes belong to a frame
that is not complete yet. -/
def unfinished : List Nat → Nat → Nat
  | [], n => n
  | size :: sizes, n => if size ≤ n then unfinished sizes (n - size) else n

/-- Every chunk finds room next to the unfinished frame that precedes it. -/
def Roomy (sizes : List Nat) (capacity : Nat) : Nat → List (List α) → Prop
  | _, [] => True
  | received, chunk :: chunks =>
      unfinished sizes received + chunk.length < capacity ∧
        Roomy sizes capacity (received + chunk.length) chunks

instance decidableRoomy (sizes : List Nat) (capacity : Nat) :
    (received : Nat) → (chunks : List (List α)) → Decidable (Roomy sizes capacity received chunks)
  | _, [] => isTrue trivial
  | received, chunk :: chunks =>
      have := decidableRoomy sizes capacity (received + chunk.length) chunks
      inferInstanceAs (Decidable (_ ∧ _))

theorem unfinished_append (sizes later : List Nat) (n : Nat) :
    unfinished (sizes ++ later) (sizes.sum + n) = unfinished later n := by
  induction sizes with
  | nil => simp
  | cons size sizes ih =>
      rw [List.cons_append, List.sum_cons, unfinished, if_pos (by omega), ← ih]
      congr 1
      omega

theorem roomy_append (sizes later : List Nat) (capacity n : Nat) (chunks : List (List α)) :
    Roomy (sizes ++ later) capacity (sizes.sum + n) chunks ↔ Roomy later capacity n chunks := by
  induction chunks generalizing n with
  | nil => rfl
  | cons chunk chunks ih => rw [Roomy, Roomy, unfinished_append, Nat.add_assoc, ih]

theorem unfinished_lt (sizes : List Nat) (bound n : Nat) (positive : 0 < bound)
    (bounded : ∀ size ∈ sizes, size ≤ bound) (within : n ≤ sizes.sum) :
    unfinished sizes n < bound := by
  induction sizes generalizing n with
  | nil =>
      obtain rfl : n = 0 := Nat.le_zero.mp within
      exact positive
  | cons size sizes ih =>
      have first := bounded size List.mem_cons_self
      rw [List.sum_cons] at within
      rw [unfinished]
      split
      · exact ih _ (fun size member => bounded size (List.mem_cons_of_mem _ member)) (by omega)
      · omega

/-- A ring that holds a largest frame and a largest chunk always has room. -/
theorem roomy_of_bound (sizes : List Nat) (bound largest capacity received : Nat)
    (chunks : List (List α)) (positive : 0 < bound) (bounded : ∀ size ∈ sizes, size ≤ bound)
    (small : ∀ chunk ∈ chunks, chunk.length ≤ largest) (enough : bound + largest ≤ capacity)
    (within : received + chunks.flatten.length ≤ sizes.sum) :
    Roomy sizes capacity received chunks := by
  induction chunks generalizing received with
  | nil => trivial
  | cons chunk chunks ih =>
      have first := small chunk List.mem_cons_self
      rw [List.flatten_cons, List.length_append] at within
      have waiting := unfinished_lt sizes bound received positive bounded (by omega)
      exact ⟨by omega, ih _ (fun other member => small other (List.mem_cons_of_mem _ member))
        (by omega)⟩

namespace Deframer

variable (deframer : Deframer α φ)

theorem frame_prefix {bytes : List α} {found : φ} (action : deframer.next bytes = .frame found) :
    ∃ rest, bytes = deframer.encode found ++ rest := by
  obtain ⟨rest, eq⟩ := ((deframer.next_frame _ _).mp action).2
  exact ⟨rest, eq.symm⟩

theorem frame_append {bytes : List α} (more : List α) {found : φ}
    (action : deframer.next bytes = .frame found) :
    deframer.next (bytes ++ more) = .frame found := by
  obtain ⟨accepts, front⟩ := (deframer.next_frame _ _).mp action
  exact (deframer.next_frame _ _).mpr ⟨accepts, front.trans (List.prefix_append _ _)⟩

theorem drop_shorter {bytes : List α} {found : φ} (action : deframer.next bytes = .frame found) :
    (bytes.drop (deframer.encode found).length).length < bytes.length := by
  obtain ⟨accepts, front⟩ := (deframer.next_frame _ _).mp action
  have positive := List.length_pos_iff.mpr (deframer.encode_ne_nil _ accepts)
  have inside := front.length_le
  rw [List.length_drop]
  omega

def drain (bytes : List α) : Drained α φ :=
  match _action : deframer.next bytes with
  | .incomplete => ⟨[], bytes, true⟩
  | .malformed => ⟨[], bytes, false⟩
  | .frame found => (drain (bytes.drop (deframer.encode found).length)).after [found]
termination_by bytes.length
decreasing_by exact deframer.drop_shorter _action

theorem drain_incomplete {bytes : List α} (action : deframer.next bytes = .incomplete) :
    deframer.drain bytes = ⟨[], bytes, true⟩ := by
  rw [drain]
  split <;> simp_all

theorem drain_malformed {bytes : List α} (action : deframer.next bytes = .malformed) :
    deframer.drain bytes = ⟨[], bytes, false⟩ := by
  rw [drain]
  split <;> simp_all

theorem drain_frame {found : φ} {rest : List α}
    (action : deframer.next (deframer.encode found ++ rest) = .frame found) :
    deframer.drain (deframer.encode found ++ rest) = (deframer.drain rest).after [found] := by
  rw [drain]
  split <;> simp_all

/-- Induction along the frames that `drain` takes off the front. -/
theorem drain_induction {motive : List α → Prop}
    (incomplete : ∀ bytes, deframer.next bytes = .incomplete → motive bytes)
    (malformed : ∀ bytes, deframer.next bytes = .malformed → motive bytes)
    (frame : ∀ found rest, deframer.next (deframer.encode found ++ rest) = .frame found →
      motive rest → motive (deframer.encode found ++ rest)) (bytes : List α) : motive bytes := by
  induction long : bytes.length using Nat.strongRecOn generalizing bytes with
  | ind n ih =>
      cases action : deframer.next bytes with
      | incomplete => exact incomplete bytes action
      | malformed => exact malformed bytes action
      | frame found =>
          obtain ⟨rest, rfl⟩ := deframer.frame_prefix action
          have shorter := deframer.drop_shorter action
          rw [List.drop_left] at shorter
          exact frame found rest action (ih _ (long ▸ shorter) rest rfl)

theorem drain_bytes (bytes : List α) :
    (deframer.drain bytes).frames.flatMap deframer.encode ++ (deframer.drain bytes).rest = bytes := by
  induction bytes using deframer.drain_induction with
  | incomplete bytes action => simp [deframer.drain_incomplete action]
  | malformed bytes action => simp [deframer.drain_malformed action]
  | frame found rest action ih => simp [deframer.drain_frame action, Drained.after, ih]

theorem drain_accepts (bytes : List α) :
    ∀ found ∈ (deframer.drain bytes).frames, deframer.Accepts found := by
  induction bytes using deframer.drain_induction with
  | incomplete bytes action => simp [deframer.drain_incomplete action]
  | malformed bytes action => simp [deframer.drain_malformed action]
  | frame found rest action ih =>
      have accepts := ((deframer.next_frame _ _).mp action).1
      simpa [deframer.drain_frame action, Drained.after, accepts] using ih

theorem drain_idle (bytes : List α) (sound : (deframer.drain bytes).sound = true) :
    deframer.next (deframer.drain bytes).rest = .incomplete := by
  induction bytes using deframer.drain_induction with
  | incomplete bytes action => simpa [deframer.drain_incomplete action] using action
  | malformed bytes action => simp [deframer.drain_malformed action] at sound
  | frame found rest action ih =>
      rw [deframer.drain_frame action] at sound ⊢
      exact ih sound

theorem next_of_front {found : φ} (rest : List α) (accepts : deframer.Accepts found) :
    deframer.next (deframer.encode found ++ rest) = .frame found :=
  (deframer.next_frame _ _).mpr ⟨accepts, List.prefix_append _ _⟩

theorem next_of_cut {found : φ} {bytes more : List α} (accepts : deframer.Accepts found)
    (cut : bytes ++ more = deframer.encode found) (short : more ≠ []) :
    deframer.next bytes = .incomplete := by
  have whole : deframer.next (bytes ++ more) = .frame found :=
    (deframer.next_frame _ _).mpr ⟨accepts, cut ▸ List.prefix_rfl⟩
  cases action : deframer.next bytes with
  | incomplete => rfl
  | malformed => simp [deframer.malformed_append _ more action] at whole
  | frame other =>
      obtain rfl : other = found := by simpa [deframer.frame_append more action] using whole
      have front := ((deframer.next_frame _ _).mp action).2.length_le
      have positive := List.length_pos_iff.mpr short
      rw [← cut, List.length_append] at front
      omega

/-- A prefix of a stream of accepted frames drains to the complete frames in it. -/
theorem drain_prefix (frames : List φ) (bytes more : List α)
    (accepts : ∀ found ∈ frames, deframer.Accepts found)
    (whole : bytes ++ more = frames.flatMap deframer.encode) :
    (deframer.drain bytes).sound = true ∧
      (deframer.drain bytes).rest.length =
        unfinished (frames.map fun found => (deframer.encode found).length) bytes.length ∧
      ∃ later, frames = (deframer.drain bytes).frames ++ later := by
  induction frames generalizing bytes with
  | nil =>
      obtain ⟨rfl, rfl⟩ := List.append_eq_nil_iff.mp whole
      simp [deframer.drain_incomplete deframer.next_nil, unfinished]
  | cons found frames ih =>
      have first := accepts found List.mem_cons_self
      rw [List.flatMap_cons] at whole
      have left : deframer.encode found <+: bytes ++ more := ⟨_, whole.symm⟩
      have right : bytes <+: bytes ++ more := List.prefix_append _ _
      by_cases le : (deframer.encode found).length ≤ bytes.length
      · obtain ⟨later, rfl⟩ := List.prefix_of_prefix_length_le left right le
        rw [List.append_assoc, List.append_cancel_left_eq] at whole
        obtain ⟨sound, length, rest, eq⟩ := ih later
          (fun other member => accepts other (List.mem_cons_of_mem _ member)) whole
        rw [deframer.drain_frame (deframer.next_of_front later first)]
        refine ⟨sound, ?_, rest, by rw [eq]; rfl⟩
        rw [List.map_cons, unfinished, if_pos (by simp), List.length_append,
          Nat.add_sub_cancel_left]
        exact length
      · obtain ⟨tail, cut⟩ := List.prefix_of_prefix_length_le right left (by omega)
        have short : tail ≠ [] := by
          rintro rfl
          rw [List.append_nil] at cut
          exact le (by rw [cut])
        rw [deframer.drain_incomplete (deframer.next_of_cut first cut short)]
        refine ⟨rfl, ?_, found :: frames, rfl⟩
        rw [List.map_cons, unfinished, if_neg (by omega)]

def buffer (capacity : Nat) (pending chunk : List α) : List α :=
  if pending.length + chunk.length < capacity then pending ++ chunk else pending

/-- A receiver that keeps fewer than `capacity` bytes: a chunk that does not fit is dropped, and
the receiver stops at a malformed frame. -/
def receive (capacity : Nat) : List α → List (List α) → Drained α φ
  | pending, [] => ⟨[], pending, true⟩
  | pending, chunk :: chunks =>
      let now := deframer.drain (buffer capacity pending chunk)
      if now.sound then (receive capacity now.rest chunks).after now.frames else now

theorem receive_length (capacity : Nat) (pending : List α) (chunks : List (List α)) :
    ((deframer.receive capacity pending chunks).frames.flatMap deframer.encode).length ≤
      pending.length + chunks.flatten.length := by
  induction chunks generalizing pending with
  | nil => simp [receive]
  | cons chunk chunks ih =>
      have bound : (buffer capacity pending chunk).length ≤ pending.length + chunk.length := by
        rw [buffer]
        split <;> simp
      have whole := congrArg List.length
        (deframer.drain_bytes (buffer capacity pending chunk))
      have later := ih (deframer.drain (buffer capacity pending chunk)).rest
      rw [List.length_append] at whole
      rw [receive]
      split
      · simp only [Drained.after, List.flatMap_append, List.length_append, List.flatten_cons]
        omega
      · simp only [List.flatten_cons, List.length_append]
        omega

theorem receive_accepts (capacity : Nat) (pending : List α) (chunks : List (List α)) :
    ∀ found ∈ (deframer.receive capacity pending chunks).frames, deframer.Accepts found := by
  induction chunks generalizing pending with
  | nil => simp [receive]
  | cons chunk chunks ih =>
      intro found member
      rw [receive] at member
      split at member
      · rcases List.mem_append.mp member with now | later
        · exact deframer.drain_accepts _ _ now
        · exact ih _ _ later
      · exact deframer.drain_accepts _ _ member

def sizes (frames : List φ) : List Nat := frames.map fun found => (deframer.encode found).length

theorem stream_end (frames : List φ) (pending : List α)
    (accepts : ∀ found ∈ frames, deframer.Accepts found)
    (idle : deframer.next pending = .incomplete)
    (whole : pending = frames.flatMap deframer.encode) : frames = [] := by
  cases frames with
  | nil => rfl
  | cons found frames =>
      rw [whole, List.flatMap_cons, deframer.next_of_front _ (accepts found List.mem_cons_self)] at idle
      contradiction

/-- What one chunk does to the rest of a stream: some frames are complete now, the others and their
first bytes remain. -/
theorem advance (capacity : Nat) (frames : List φ) (pending chunk : List α)
    (chunks : List (List α)) (accepts : ∀ found ∈ frames, deframer.Accepts found)
    (idle : deframer.next pending = .incomplete)
    (whole : pending ++ (chunk :: chunks).flatten = frames.flatMap deframer.encode) :
    ∃ later, frames = (deframer.drain (pending ++ chunk)).frames ++ later ∧
      (deframer.drain (pending ++ chunk)).sound = true ∧
      deframer.next (deframer.drain (pending ++ chunk)).rest = .incomplete ∧
      (deframer.drain (pending ++ chunk)).rest ++ chunks.flatten = later.flatMap deframer.encode ∧
      (Roomy (deframer.sizes frames) capacity pending.length (chunk :: chunks) ↔
        pending.length + chunk.length < capacity ∧ Roomy (deframer.sizes later) capacity
          (deframer.drain (pending ++ chunk)).rest.length chunks) := by
  have kept := (deframer.drain_prefix frames pending _ accepts whole).2.1
  rw [deframer.drain_incomplete idle] at kept
  rw [List.flatten_cons, ← List.append_assoc] at whole
  obtain ⟨sound, -, later, rfl⟩ := deframer.drain_prefix frames _ _ accepts whole
  have now := deframer.drain_bytes (pending ++ chunk)
  have waiting := deframer.drain_idle _ sound
  generalize deframer.drain (pending ++ chunk) = drained at *
  rw [← now, List.flatMap_append, List.append_assoc, List.append_cancel_left_eq] at whole
  have received : pending.length + chunk.length =
      (deframer.sizes drained.frames).sum + drained.rest.length := by
    rw [sizes, ← List.length_append, ← now, List.length_append, List.length_flatMap]
  refine ⟨later, rfl, sound, waiting, whole, ?_⟩
  rw [Roomy, sizes, ← kept, received, List.map_append, ← sizes, ← sizes, roomy_append]

theorem receive_iff_roomy (capacity : Nat) (frames : List φ) (pending : List α)
    (chunks : List (List α)) (accepts : ∀ found ∈ frames, deframer.Accepts found)
    (idle : deframer.next pending = .incomplete) (nonempty : ∀ chunk ∈ chunks, chunk ≠ [])
    (whole : pending ++ chunks.flatten = frames.flatMap deframer.encode) :
    (deframer.receive capacity pending chunks).sound = true ∧
        (deframer.receive capacity pending chunks).frames = frames ↔
      Roomy (deframer.sizes frames) capacity pending.length chunks := by
  induction chunks generalizing frames pending with
  | nil =>
      rw [List.flatten_nil, List.append_nil] at whole
      obtain rfl := deframer.stream_end frames pending accepts idle whole
      simp [receive, Roomy]
  | cons chunk chunks ih =>
      obtain ⟨later, eq, sound, waiting, whole', roomy⟩ :=
        deframer.advance capacity frames pending chunk chunks accepts idle whole
      rw [roomy]
      by_cases room : pending.length + chunk.length < capacity
      · have step := ih later _
          (fun found member => accepts found (by rw [eq]; exact List.mem_append_right _ member))
          waiting (fun other member => nonempty other (List.mem_cons_of_mem _ member)) whole'
        rw [receive, buffer, if_pos room, if_pos sound, ← step, eq]
        simp [Drained.after, room]
      · have fewer := deframer.receive_length capacity pending chunks
        have lost := List.length_pos_iff.mpr (nonempty chunk List.mem_cons_self)
        have total := congrArg List.length whole
        rw [List.length_append, List.flatten_cons, List.length_append] at total
        have same : deframer.receive capacity pending (chunk :: chunks) =
            deframer.receive capacity pending chunks := by
          rw [receive, buffer, if_neg room, deframer.drain_incomplete idle]
          rfl
        rw [same]
        constructor
        · rintro ⟨-, delivered⟩
          rw [← delivered] at total
          omega
        · exact fun roomy => absurd roomy.1 room

/-- Reassembly: a stream of frames cut into chunks comes out as those frames exactly when the
deframer accepts each of them and no chunk arrives without room for it. -/
theorem receive_iff (capacity : Nat) (frames : List φ) (pending : List α) (chunks : List (List α))
    (idle : deframer.next pending = .incomplete) (nonempty : ∀ chunk ∈ chunks, chunk ≠ [])
    (whole : pending ++ chunks.flatten = frames.flatMap deframer.encode) :
    (deframer.receive capacity pending chunks).sound = true ∧
        (deframer.receive capacity pending chunks).frames = frames ↔
      (∀ found ∈ frames, deframer.Accepts found) ∧
        Roomy (frames.map fun found => (deframer.encode found).length) capacity pending.length
          chunks := by
  constructor
  · rintro ⟨sound, delivered⟩
    have accepts : ∀ found ∈ frames, deframer.Accepts found :=
      delivered ▸ deframer.receive_accepts capacity pending chunks
    exact ⟨accepts, (deframer.receive_iff_roomy capacity frames pending chunks accepts idle
      nonempty whole).mp ⟨sound, delivered⟩⟩
  · rintro ⟨accepts, roomy⟩
    exact (deframer.receive_iff_roomy capacity frames pending chunks accepts idle nonempty
      whole).mpr roomy

end Deframer

end Cgsf.Library
