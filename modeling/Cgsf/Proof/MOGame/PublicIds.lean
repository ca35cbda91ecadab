import Cgsf.MOGame.MapComposite
import Cgsf.Library.Transition
import Mathlib.Data.Finset.Card
import Mathlib.Data.Finset.Range

/-!
# The ids of the beings on a map

A bucket counts its free ids, and the bits say which these are. So an id is given to one being at a
time, and none is refused while there is one.
-/

namespace Cgsf.Proof.MOGame.PublicIds
open Cgsf.MOGame Library

/-! ## Bits -/

theorem bit_iff (word : BitVec 32) {k : Nat} (less : k < 32) :
    word &&& 1#32 <<< k = 0 ↔ word.getLsbD k = false := by
  constructor
  · intro none
    have bit := congrArg (·.getLsbD k) none
    simpa [less] using bit
  · intro clear
    refine BitVec.eq_of_getLsbD_eq fun i inside => ?_
    by_cases same : i = k
    · subst same
      simp [clear]
    · have other : ¬(i - k = 0 ∧ k ≤ i) := by omega
      simp only [BitVec.getLsbD_and, BitVec.getLsbD_shiftLeft, BitVec.getLsbD_one]
      grind

theorem lowestBit_spec {fuel k : Nat} {bits : BitVec 32} (least : ∃ i < k, bits.getLsbD i = true)
    (short : k ≤ fuel) (inside : k ≤ 32) (j : Nat) :
    ∃ i < k, ObjectBucket.lowestBit fuel bits j = some (j + i) ∧ bits.getLsbD i = true := by
  induction fuel generalizing k bits j with
  | zero =>
      obtain ⟨i, less, -⟩ := least
      omega
  | succ fuel ih =>
      have first := bit_iff bits (k := 0) (by decide)
      rw [BitVec.shiftLeft_zero] at first
      rw [ObjectBucket.lowestBit]
      obtain ⟨i, less, set⟩ := least
      by_cases clear : bits.getLsbD 0 = false
      · rw [if_pos (first.mpr clear)]
        have later : i ≠ 0 := by
          rintro rfl
          rw [clear] at set
          contradiction
        have shifted (n : Nat) (bound : n + 1 < 32) :
            (bits.sshiftRight 1).getLsbD n = bits.getLsbD (n + 1) := by
          rw [BitVec.getLsbD_sshiftRight, if_pos (by omega), Nat.add_comm,
            decide_eq_false (by omega), Bool.not_false, Bool.true_and]
        obtain ⟨n, less', found, there⟩ := ih (k := k - 1)
          ⟨i - 1, by omega, by rw [shifted _ (by omega), Nat.sub_add_cancel (by omega)]; exact set⟩
          (by omega) (by omega) (j + 1)
        refine ⟨n + 1, by omega, ?_, by rwa [shifted n (by omega)] at there⟩
        rw [found, Nat.add_assoc, Nat.add_comm 1]
      · rw [if_neg fun none => clear (first.mp none)]
        exact ⟨0, by omega, rfl, by simpa using clear⟩

theorem getLsbD_single {j k : Nat} (less : k < 32) : (1#32 <<< j).getLsbD k = decide (k = j) := by
  rw [BitVec.getLsbD_shiftLeft, BitVec.getLsbD_one]
  grind

theorem getLsbD_clear (word : BitVec 32) {j k : Nat} (less : k < 32) :
    (word &&& ~~~(1#32 <<< j)).getLsbD k = (word.getLsbD k && !decide (k = j)) := by
  rw [BitVec.getLsbD_and, BitVec.getLsbD_not, getLsbD_single less, decide_eq_true less,
    Bool.true_and]

theorem getLsbD_set (word : BitVec 32) {j k : Nat} (less : k < 32) :
    (word ||| 1#32 <<< j).getLsbD k = (word.getLsbD k || decide (k = j)) := by
  rw [BitVec.getLsbD_or, getLsbD_single less]

theorem exists_bit {word : BitVec 32} (some : word ≠ 0) : ∃ k < 32, word.getLsbD k = true := by
  by_contra none
  refine some (BitVec.eq_of_getLsbD_eq fun k less => ?_)
  have clear := Bool.eq_false_iff.mpr fun set => none ⟨k, less, set⟩
  simpa using clear

/-! ## A bucket -/

section bucket

variable {E : Type} {b : ObjectBucket E}

/-- The ids of a bucket that are free. -/
def freeIds (b : ObjectBucket E) : Finset Nat := (Finset.range 256).filter fun i => !b.isAllocated i

structure Sound (b : ObjectBucket E) : Prop where
  length : b.bitmap.length = 8
  nextObject : b.nextObject < 8
  free : b.free = (freeIds b).card

theorem isAllocated_iff {i : Nat} :
    b.isAllocated i = true ↔ (b.word (i / 32)).getLsbD (i % 32) = false := by
  rw [ObjectBucket.isAllocated, beq_iff_eq]
  exact bit_iff _ (Nat.mod_lt _ (by decide))

theorem mem_freeIds {i : Nat} : i ∈ freeIds b ↔ i < 256 ∧ b.isAllocated i = false := by
  rw [freeIds, Finset.mem_filter, Finset.mem_range, Bool.not_eq_true']

theorem word_set (length : b.bitmap.length = 8) {i : Nat} (less : i < 8) (word : BitVec 32)
    (b' : ObjectBucket E) (same : b'.bitmap = b.bitmap.set i word) (k : Nat) :
    b'.word k = if k = i then word else b.word k := by
  rw [ObjectBucket.word, ObjectBucket.word, same, List.getD_eq_getElem?_getD,
    List.getD_eq_getElem?_getD]
  split
  · rename_i here
    rw [here, List.getElem?_set_self (by omega), Option.getD_some]
  · rename_i other
    rw [List.getElem?_set_ne (Ne.symm other)]

theorem allocate_spec (sound : Sound b) :
    b.allocate = some (none, b) ∧ freeIds b = ∅ ∨
      ∃ i b', b.allocate = some (some i, b') ∧ i ∈ freeIds b ∧ Sound b' ∧
        freeIds b' = (freeIds b).erase i ∧ b'.objects = b.objects := by
  rw [ObjectBucket.allocate]
  by_cases full : b.free = 0
  · rw [if_pos full]
    exact .inl ⟨rfl, Finset.card_eq_zero.mp (sound.free ▸ full)⟩
  rw [if_neg full]
  refine .inr ?_
  have some : ∃ i, i ∈ freeIds b := by
    refine Finset.card_pos.mp ?_
    have := sound.free
    omega
  obtain ⟨i, found⟩ := some
  obtain ⟨less, clear⟩ := mem_freeIds.mp found
  have set : (b.word (i / 32)).getLsbD (i % 32) = true := by
    rw [← Bool.not_eq_false, ← isAllocated_iff, clear]
    decide
  obtain ⟨w, chosen, inside, nonzero⟩ : ∃ w, b.freeBucket = some w ∧ w < 8 ∧ b.word w ≠ 0 := by
    rw [ObjectBucket.freeBucket]
    split
    · rename_i next
      exact ⟨_, rfl, sound.nextObject, next⟩
    · cases first : (List.range 8).find? fun i => decide (b.word i ≠ 0) with
      | some w =>
          exact ⟨w, rfl, List.mem_range.mp (List.mem_of_find?_eq_some first),
            by simpa using List.find?_some first⟩
      | none =>
          have zero := List.find?_eq_none.mp first (i / 32) (List.mem_range.mpr (by omega))
          rw [decide_eq_true_iff, not_not] at zero
          simp [zero] at set
  obtain ⟨j, short, lowest, bit⟩ := lowestBit_spec (exists_bit nonzero) le_rfl le_rfl 0
  rw [Nat.zero_add] at lowest
  rw [chosen]
  simp only [lowest, Option.bind_eq_bind, Option.bind_some]
  set b' : ObjectBucket E := { b with
    bitmap := b.bitmap.set w (b.word w &&& ~~~(1#32 <<< j))
    nextObject := w
    free := b.free - 1 } with b'_eq
  have place : (j + w * 32) / 32 = w ∧ (j + w * 32) % 32 = j := by omega
  have here : j + w * 32 ∈ freeIds b := by
    refine mem_freeIds.mpr ⟨by omega, ?_⟩
    rw [← Bool.not_eq_true, isAllocated_iff, place.1, place.2, bit]
    decide
  have allocated (n : Nat) : b'.isAllocated n = true ↔ b.isAllocated n = true ∨ n = j + w * 32 := by
    rw [isAllocated_iff, isAllocated_iff, word_set sound.length inside _ b' rfl]
    split
    · rename_i same
      rw [same, getLsbD_clear _ (Nat.mod_lt _ (by decide)), Bool.and_eq_false_iff,
        Bool.not_eq_false', decide_eq_true_iff]
      refine or_congr_right ?_
      omega
    · rename_i other
      refine (or_iff_left ?_).symm
      omega
  have ids : freeIds b' = (freeIds b).erase (j + w * 32) := by
    ext n
    rw [Finset.mem_erase, mem_freeIds, mem_freeIds, ← Bool.not_eq_true, ← Bool.not_eq_true, allocated]
    tauto
  refine ⟨j + w * 32, b', rfl, here, ⟨?_, inside, ?_⟩, ids, rfl⟩
  · exact List.length_set.trans sound.length
  · rw [ids, Finset.card_erase_of_mem here, ← sound.free]

theorem deallocate_spec (sound : Sound b) {i : Nat} (less : i < 256)
    (allocated : b.isAllocated i = true) :
    ∃ b', b.deallocate i = some b' ∧ Sound b' ∧ freeIds b' = insert i (freeIds b) ∧
      b'.objects = b.objects := by
  rw [ObjectBucket.deallocate, if_pos allocated]
  set b' : ObjectBucket E := { b with
    bitmap := b.bitmap.set (i / 32) (b.word (i / 32) ||| 1#32 <<< (i % 32))
    free := b.free + 1 } with b'_eq
  have allocated' (n : Nat) : b'.isAllocated n = true ↔ b.isAllocated n = true ∧ n ≠ i := by
    rw [isAllocated_iff, isAllocated_iff, word_set sound.length (by omega) _ b' rfl]
    split
    · rename_i same
      rw [same, getLsbD_set _ (Nat.mod_lt _ (by decide)), Bool.or_eq_false_iff,
        decide_eq_false_iff_not]
      refine and_congr_right fun _ => ?_
      omega
    · rename_i other
      refine (and_iff_left ?_).symm
      omega
  have ids : freeIds b' = insert i (freeIds b) := by
    ext n
    rw [Finset.mem_insert, mem_freeIds, mem_freeIds, ← Bool.not_eq_true, ← Bool.not_eq_true,
      allocated']
    constructor
    · tauto
    · rintro (rfl | ⟨bound, clear⟩)
      · exact ⟨less, fun both => both.2 rfl⟩
      · exact ⟨bound, fun both => clear both.1⟩
  refine ⟨b', rfl, ⟨List.length_set.trans sound.length, sound.nextObject, ?_⟩, ids, rfl⟩
  rw [ids, Finset.card_insert_of_notMem, ← sound.free]
  intro free
  rw [(mem_freeIds.mp free).2] at allocated
  contradiction

end bucket

/-! ## All buckets -/

section content

variable {E : Type} {m : PublicIds E}

/-- A bucket that is not there yet has all its ids free. -/
def bucket (m : PublicIds E) (i : Nat) : ObjectBucket E := ((m.buckets[i]?).join).getD {}

def Taken (m : PublicIds E) (id : Nat) : Prop :=
  (bucket m (id / 256)).isAllocated (id % 256) = true

theorem freeIds_new : freeIds ({} : ObjectBucket E) = Finset.range 256 := by
  refine Finset.filter_true_of_mem fun i less => ?_
  have inside := Finset.mem_range.mp less
  rw [Bool.not_eq_true', ← Bool.not_eq_true, isAllocated_iff, ObjectBucket.word,
    List.getD_eq_getElem?_getD, List.getElem?_replicate_of_lt (by omega), Option.getD_some,
    BitVec.getLsbD_not, decide_eq_true (Nat.mod_lt _ (by decide))]
  simp

theorem sound_new : Sound ({} : ObjectBucket E) :=
  ⟨rfl, Nat.succ_pos 7, by rw [freeIds_new, Finset.card_range]⟩

/-- Every id but 0 that is taken belongs to one being on the map, which is kept there. -/
structure Kept (m : PublicIds E) : Prop where
  length : m.buckets.length = 256
  last : ∃ b, m.buckets[m.lastBucket]? = some (some b)
  sound : ∀ i, Sound (bucket m i)
  nodup : m.entities.Nodup
  ids : ∀ e ∈ m.entities, m.publicId e ≠ 0 ∧ m.publicId e < 65536
  distinct : ∀ e ∈ m.entities, ∀ e' ∈ m.entities, m.publicId e = m.publicId e' → e = e'
  taken : ∀ id < 65536, Taken m id ↔ id = 0 ∨ ∃ e ∈ m.entities, m.publicId e = id
  stored : ∀ e ∈ m.entities,
    (bucket m (m.publicId e / 256)).objects (m.publicId e % 256) = some e

theorem bucket_eq {i : Nat} {b : Option (ObjectBucket E)} (there : m.buckets[i]? = some b) :
    bucket m i = b.getD {} := by
  rw [bucket, there]
  rfl

theorem bucket_set {m' : PublicIds E} {i : Nat} {b : ObjectBucket E} (less : i < m.buckets.length)
    (same : m'.buckets = m.buckets.set i (some b)) (k : Nat) :
    bucket m' k = if k = i then b else bucket m k := by
  rw [bucket, bucket, same]
  split
  · rename_i here
    rw [here, List.getElem?_set_self less]
    rfl
  · rename_i other
    rw [List.getElem?_set_ne (Ne.symm other)]

theorem div_mod_iff {i j id : Nat} (less : j < 256) :
    id = i * 256 + j ↔ id / 256 = i ∧ id % 256 = j := by
  omega

variable [DecidableEq E]

/-- A being gets an id that was free. -/
theorem Kept.give (kept : Kept m) {obj : E} (new : obj ∉ m.entities) {i j : Nat}
    (inside : i < 256) {b : ObjectBucket E} (free : j ∈ freeIds (bucket m i)) (sound : Sound b)
    (ids : freeIds b = (freeIds (bucket m i)).erase j) (objects : b.objects = (bucket m i).objects) :
    Kept { m.give obj i j b with entities := m.entities ++ [obj] } := by
  obtain ⟨less, clear⟩ := mem_freeIds.mp free
  have there : i < m.buckets.length := kept.length ▸ inside
  set m' : PublicIds E := { m.give obj i j b with entities := m.entities ++ [obj] } with m'_eq
  have buckets (k : Nat) : bucket m' k =
      if k = i then { b with objects := Function.update b.objects j (some obj) } else bucket m k :=
    bucket_set there rfl k
  have allocated (k : Nat) : b.isAllocated k = true ∧ k < 256 ↔
      ((bucket m i).isAllocated k = true ∨ k = j) ∧ k < 256 := by
    have member : k ∈ freeIds b ↔ k ∈ (freeIds (bucket m i)).erase j := by rw [ids]
    rw [Finset.mem_erase, mem_freeIds, mem_freeIds, ← Bool.not_eq_true, ← Bool.not_eq_true] at member
    tauto
  have taken (id : Nat) (bound : id < 65536) : Taken m' id ↔ Taken m id ∨ id = i * 256 + j := by
    rw [Taken, Taken, buckets, div_mod_iff less]
    have small : id % 256 < 256 := Nat.mod_lt _ (by decide)
    split
    · rename_i here
      have split := allocated (id % 256)
      rw [and_iff_left small, and_iff_left small] at split
      rw [here, and_iff_right rfl]
      exact split
    · rename_i other
      exact (or_iff_left fun both => other both.1).symm
  have newId : ¬Taken m (i * 256 + j) := by
    obtain ⟨row, column⟩ := (div_mod_iff (i := i) less).mp rfl
    rw [Taken, row, column, clear]
    decide
  have mine : m'.publicId obj = i * 256 + j := Function.update_self _ _ _
  have others (e : E) (member : e ∈ m.entities) : m'.publicId e = m.publicId e :=
    Function.update_of_ne (by rintro rfl; exact new member) _ _
  have apart (e : E) (member : e ∈ m.entities) : m.publicId e ≠ i * 256 + j := fun same =>
    newId (same ▸ (kept.taken _ (kept.ids e member).2).mpr (.inr ⟨e, member, rfl⟩))
  have cases' (e : E) (member : e ∈ m'.entities) :
      e ∈ m.entities ∧ m'.publicId e = m.publicId e ∨ e = obj ∧ m'.publicId e = i * 256 + j := by
    rcases List.mem_append.mp member with old | last
    · exact .inl ⟨old, others e old⟩
    · obtain rfl := List.mem_singleton.mp last
      exact .inr ⟨rfl, mine⟩
  refine ⟨?_, ?_, fun k => ?_, ?_, fun e member => ?_, fun e member e' member' same => ?_,
    fun id bound => ?_, fun e member => ?_⟩
  · exact List.length_set.trans kept.length
  · exact ⟨_, List.getElem?_set_self there⟩
  · rw [buckets]
    split
    · exact ⟨sound.length, sound.nextObject, sound.free⟩
    · exact kept.sound k
  · exact kept.nodup.append (List.nodup_singleton obj) (by simpa using new)
  · rcases cases' e member with ⟨old, eq⟩ | ⟨-, eq⟩
    · exact eq ▸ kept.ids e old
    · rw [eq]
      refine ⟨fun zero => newId ?_, by omega⟩
      exact zero ▸ (kept.taken 0 (by decide)).mpr (.inl rfl)
  · rcases cases' e member with ⟨old, eq⟩ | ⟨rfl, eq⟩ <;>
      rcases cases' e' member' with ⟨old', eq'⟩ | ⟨rfl, eq'⟩
    · exact kept.distinct e old e' old' (eq.symm.trans (same.trans eq'))
    · exact absurd (eq.symm.trans (same.trans eq')) (apart e old)
    · exact absurd (eq'.symm.trans (same.symm.trans eq)) (apart e' old')
    · rfl
  · rw [taken id bound, kept.taken id bound, or_assoc]
    refine or_congr_right ⟨?_, ?_⟩
    · rintro (⟨e, member, rfl⟩ | rfl)
      · exact ⟨e, List.mem_append_left _ member, others e member⟩
      · exact ⟨obj, List.mem_append_right _ (List.mem_singleton.mpr rfl), mine⟩
    · rintro ⟨e, member, rfl⟩
      rcases cases' e member with ⟨old, eq⟩ | ⟨-, eq⟩
      · exact .inl ⟨e, old, eq.symm⟩
      · exact .inr eq
  · rw [buckets]
    rcases cases' e member with ⟨old, eq⟩ | ⟨rfl, eq⟩
    · rw [eq]
      have stored := kept.stored e old
      split
      · rename_i here
        have column : m.publicId e % 256 ≠ j := fun same =>
          apart e old ((div_mod_iff less).mpr ⟨here, same⟩)
        dsimp only
        rw [Function.update_of_ne column, objects, ← here]
        exact stored
      · exact stored
    · obtain ⟨row, column⟩ := (div_mod_iff less).mp eq
      rw [if_pos row, column]
      exact Function.update_self _ _ _

/-- A place is found, or there is none in the buckets from `i` on. -/
theorem Kept.allocateFrom (kept : Kept m) (obj : E) {i more : Nat} (all : i + more = 256) :
    m.allocateFrom obj i more = some (false, m) ∧
        (∀ k, i ≤ k → k < 256 → freeIds (bucket m k) = ∅) ∨
      ∃ k j b, m.allocateFrom obj i more = some (true, m.give obj k j b) ∧ k < 256 ∧
        j ∈ freeIds (bucket m k) ∧ Sound b ∧ freeIds b = (freeIds (bucket m k)).erase j ∧
        b.objects = (bucket m k).objects := by
  induction more generalizing i with
  | zero => exact .inl ⟨by rw [PublicIds.allocateFrom], fun k least most => by omega⟩
  | succ more ih =>
      obtain ⟨slot, there⟩ : ∃ slot, m.buckets[i]? = some slot :=
        ⟨_, List.getElem?_eq_getElem (by rw [kept.length]; omega)⟩
      have sound := kept.sound i
      have eq := bucket_eq there
      rw [PublicIds.allocateFrom]
      rcases allocate_spec sound with ⟨full, none⟩ | ⟨j, b, found, free, sound', ids, objects⟩
      · rw [eq] at full
        simp only [there, full, Option.bind_eq_bind, Option.bind_some]
        rcases ih (i := i + 1) (by omega) with ⟨failed, others⟩ | later
        · refine .inl ⟨failed, fun k least most => ?_⟩
          rcases Nat.eq_or_lt_of_le least with rfl | next
          · exact none
          · exact others k next most
        · exact .inr later
      · refine .inr ⟨i, j, b, ?_, by omega, free, sound', ids, objects⟩
        rw [eq] at found
        simp only [there, found, Option.bind_eq_bind, Option.bind_some]
        rfl

theorem Kept.allocate (kept : Kept m) (obj : E) :
    m.allocate obj = some (false, m) ∧ (∀ k < 256, freeIds (bucket m k) = ∅) ∨
      ∃ k j b, m.allocate obj = some (true, m.give obj k j b) ∧ k < 256 ∧
        j ∈ freeIds (bucket m k) ∧ Sound b ∧ freeIds b = (freeIds (bucket m k)).erase j ∧
        b.objects = (bucket m k).objects := by
  obtain ⟨last, there⟩ := kept.last
  obtain ⟨less, -⟩ := List.getElem?_eq_some_iff.mp there
  have eq : bucket m m.lastBucket = last := bucket_eq there
  rw [PublicIds.allocate]
  rcases allocate_spec (kept.sound m.lastBucket) with ⟨full, none⟩ | ⟨j, b, found, rest⟩
  · rw [eq] at full
    simp only [there, full, Option.bind_eq_bind, Option.bind_some]
    rcases kept.allocateFrom obj (show 0 + 256 = 256 from rfl) with ⟨failed, all⟩ | found
    · exact .inl ⟨failed, fun k => all k (Nat.zero_le k)⟩
    · exact .inr found
  · rw [eq] at found
    refine .inr ⟨m.lastBucket, j, b, ?_, kept.length ▸ less, rest⟩
    simp only [there, found, Option.bind_eq_bind, Option.bind_some]
    rfl

theorem Kept.remove (kept : Kept m) {obj : E} (present : obj ∈ m.entities) :
    ∃ m', m.remove obj = some m' ∧ Kept m' := by
  obtain ⟨nonzero, bound⟩ := kept.ids obj present
  set id := m.publicId obj with id_eq
  have inside : id / 256 < m.buckets.length := by
    rw [kept.length]
    omega
  have small : id % 256 < 256 := Nat.mod_lt _ (by decide)
  have mine : Taken m id := (kept.taken id bound).mpr (.inr ⟨obj, present, rfl⟩)
  -- the bucket is there, since in a new one the id would be free
  obtain ⟨b, there⟩ : ∃ b, m.buckets[id / 256]? = some (some b) := by
    cases slot : m.buckets[id / 256]? with
    | none => exact absurd (List.getElem?_eq_none_iff.mp slot) (by omega)
    | some slot' =>
        cases slot' with
        | some b => exact ⟨b, rfl⟩
        | none =>
            have free : id % 256 ∈ freeIds (bucket m (id / 256)) := by
              rw [bucket_eq slot]
              exact freeIds_new ▸ Finset.mem_range.mpr small
            rw [Taken, (mem_freeIds.mp free).2] at mine
            contradiction
  have eq : bucket m (id / 256) = b := bucket_eq there
  obtain ⟨b', freed, sound, ids, objects⟩ := deallocate_spec (kept.sound (id / 256)) small mine
  rw [eq] at freed ids objects
  refine ⟨{ m with
    entities := m.entities.erase obj, buckets := m.buckets.set (id / 256) (some b') }, ?_, ?_⟩
  · rw [PublicIds.remove, PublicIds.deallocate]
    simp only [← id_eq, Nat.mod_eq_of_lt bound, there, freed, Option.bind_eq_bind, Option.bind_some]
    rfl
  have buckets (k : Nat) : bucket { m with
      entities := m.entities.erase obj
      buckets := m.buckets.set (id / 256) (some b') } k = if k = id / 256 then b' else bucket m k :=
    bucket_set inside rfl k
  have allocated (k : Nat) (less : k < 256) :
      b'.isAllocated k = true ↔ b.isAllocated k = true ∧ k ≠ id % 256 := by
    have member : k ∈ freeIds b' ↔ k ∈ insert (id % 256) (freeIds b) := by rw [ids]
    rw [Finset.mem_insert, mem_freeIds, mem_freeIds, ← Bool.not_eq_true, ← Bool.not_eq_true] at member
    tauto
  refine ⟨List.length_set.trans kept.length, ?_, fun k => ?_, kept.nodup.erase obj,
    fun e member => kept.ids e (List.mem_of_mem_erase member),
    fun e member e' member' => kept.distinct e (List.mem_of_mem_erase member) e'
      (List.mem_of_mem_erase member'), fun n less => ?_, fun e member => ?_⟩
  · obtain ⟨last, found⟩ := kept.last
    by_cases same : id / 256 = m.lastBucket
    · exact ⟨b', by dsimp only; rw [same, List.getElem?_set_self (same ▸ inside)]⟩
    · exact ⟨last, by dsimp only; rw [List.getElem?_set_ne same, found]⟩
  · rw [buckets]
    split
    · exact sound
    · exact kept.sound k
  · have known := kept.taken n less
    have split : Taken { m with
        entities := m.entities.erase obj, buckets := m.buckets.set (id / 256) (some b') } n ↔
        Taken m n ∧ n ≠ id := by
      rw [Taken, Taken, buckets]
      split
      · rename_i here
        rw [allocated _ (Nat.mod_lt _ (by decide)), here, eq]
        refine and_congr_right fun _ => ?_
        omega
      · rename_i other
        refine (and_iff_left ?_).symm
        rintro rfl
        exact other rfl
    rw [split, known]
    constructor
    · rintro ⟨rfl | ⟨e, member, rfl⟩, other⟩
      · exact .inl rfl
      · refine .inr ⟨e, (List.mem_erase_of_ne ?_).mpr member, rfl⟩
        rintro rfl
        exact other rfl
    · rintro (rfl | ⟨e, member, rfl⟩)
      · exact ⟨.inl rfl, nonzero.symm⟩
      · have old := List.mem_of_mem_erase member
        refine ⟨.inr ⟨e, old, rfl⟩, fun same => ?_⟩
        obtain rfl := kept.distinct e old obj present same
        exact kept.nodup.not_mem_erase member
  · have stored := kept.stored e (List.mem_of_mem_erase member)
    rw [buckets]
    split
    · rename_i here
      dsimp only at here ⊢
      rw [here, eq] at stored
      rw [objects]
      exact stored
    · exact stored

omit [DecidableEq E] in
theorem start_kept : Kept (PublicIds.start : PublicIds E) := by
  have first : (ObjectBucket.allocate ({} : ObjectBucket E)).map Prod.fst = some (some 0) := by
    have word : ({} : ObjectBucket E).word 0 = ~~~0#32 := rfl
    have lowest : ObjectBucket.lowestBit 32 (~~~0#32) 0 = some 0 := rfl
    have bucket : ({} : ObjectBucket E).freeBucket = some 0 := rfl
    rw [ObjectBucket.allocate, if_neg (Nat.succ_ne_zero 255), bucket]
    simp only [word, lowest, Option.bind_eq_bind, Option.bind_some]
    rfl
  obtain ⟨full, -⟩ | ⟨i, b, found, free, sound, ids, objects⟩ := allocate_spec (sound_new (E := E))
  · rw [full] at first
    cases first
  rw [found] at first
  obtain rfl : i = 0 := Option.some.inj (Option.some.inj first)
  have eq : (PublicIds.start : PublicIds E).buckets = some b :: List.replicate 255 none := by
    rw [PublicIds.start, found]
    rfl
  have buckets (k : Nat) : bucket (PublicIds.start : PublicIds E) k = if k = 0 then b else {} := by
    rw [bucket, eq]
    cases k with
    | zero => rfl
    | succ k =>
        rw [List.getElem?_cons_succ, if_neg (Nat.succ_ne_zero k), List.getElem?_replicate]
        split <;> rfl
  refine ⟨?_, ⟨b, by rw [eq]; rfl⟩, fun k => ?_, .nil, nofun, nofun, fun id bound => ?_, nofun⟩
  · rw [eq, List.length_cons, List.length_replicate]
  · rw [buckets]
    split
    · exact sound
    · exact sound_new
  · have none : ¬∃ e ∈ (PublicIds.start : PublicIds E).entities,
        (PublicIds.start : PublicIds E).publicId e = id := fun ⟨e, member, _⟩ =>
      List.not_mem_nil member
    have small : id % 256 < 256 := Nat.mod_lt _ (by decide)
    rw [or_iff_left none, Taken, buckets, ← not_iff_not, Bool.not_eq_true]
    have member (b : ObjectBucket E) : b.isAllocated (id % 256) = false ↔ id % 256 ∈ freeIds b := by
      rw [mem_freeIds, and_iff_right small]
    rw [member]
    split
    · rename_i row
      rw [ids, Finset.mem_erase, freeIds_new, Finset.mem_range, and_iff_left small]
      omega
    · rw [freeIds_new, Finset.mem_range]
      omega

omit [DecidableEq E] in
theorem Kept.find (kept : Kept m) {id : Nat} (nonzero : id ≠ 0) (bound : id < 65536) (e : E) :
    m.findEntityById id = some e ↔ e ∈ m.entities ∧ m.publicId e = id := by
  have taken := kept.taken id bound
  rw [or_iff_right nonzero, Taken] at taken
  obtain ⟨slot, there⟩ : ∃ slot, m.buckets[id / 256]? = some slot :=
    ⟨_, List.getElem?_eq_getElem (by rw [kept.length]; omega)⟩
  have eq := bucket_eq there
  rw [PublicIds.findEntityById, there, Option.bind_eq_bind, Option.bind_some]
  cases slot with
  | none =>
      have free : (bucket m (id / 256)).isAllocated (id % 256) = false := by
        refine (mem_freeIds.mp ?_).2
        rw [eq]
        exact freeIds_new ▸ Finset.mem_range.mpr (Nat.mod_lt _ (by decide))
      refine iff_of_false nofun fun both => ?_
      rw [taken.mpr ⟨e, both⟩] at free
      contradiction
  | some b =>
      have objects (e : E) (member : e ∈ m.entities) (same : m.publicId e = id) :
          b.objects (id % 256) = some e := by
        have stored := kept.stored e member
        rwa [same, eq] at stored
      rw [eq] at taken
      change (if b.isAllocated (id % 256) = true then b.objects (id % 256) else none) = some e ↔ _
      split
      · rename_i allocated
        obtain ⟨e', member, same⟩ := taken.mp allocated
        rw [objects e' member same, Option.some.injEq]
        constructor
        · rintro rfl
          exact ⟨member, same⟩
        · rintro ⟨member', same'⟩
          exact kept.distinct e' member e member' (same.trans same'.symm)
      · rename_i free
        exact iff_of_false nofun fun both => free (taken.mpr ⟨e, both⟩)

theorem Kept.full_iff (kept : Kept m) :
    (∀ k < 256, freeIds (bucket m k) = ∅) ↔ m.entities.length = 65535 := by
  have ids : (Finset.range 65536).filter (fun id => (bucket m (id / 256)).isAllocated (id % 256)) =
      insert 0 (m.entities.toFinset.image m.publicId) := by
    ext id
    rw [Finset.mem_filter, Finset.mem_range, Finset.mem_insert, Finset.mem_image]
    constructor
    · rintro ⟨bound, taken⟩
      rcases (kept.taken id bound).mp taken with rfl | ⟨e, member, rfl⟩
      · exact .inl rfl
      · exact .inr ⟨e, List.mem_toFinset.mpr member, rfl⟩
    · rintro (rfl | ⟨e, member, rfl⟩)
      · exact ⟨by decide, (kept.taken 0 (by decide)).mpr (.inl rfl)⟩
      · have present := List.mem_toFinset.mp member
        obtain ⟨-, bound⟩ := kept.ids e present
        exact ⟨bound, (kept.taken _ bound).mpr (.inr ⟨e, present, rfl⟩)⟩
  have card : ((Finset.range 65536).filter
      fun id => (bucket m (id / 256)).isAllocated (id % 256)).card = m.entities.length + 1 := by
    rw [ids, Finset.card_insert_of_notMem, Finset.card_image_of_injOn,
      List.toFinset_card_of_nodup kept.nodup]
    · intro e member e' member' same
      exact kept.distinct e (List.mem_toFinset.mp member) e' (List.mem_toFinset.mp member') same
    · intro zero
      obtain ⟨e, member, same⟩ := Finset.mem_image.mp zero
      exact (kept.ids e (List.mem_toFinset.mp member)).1 same
  have all : ((Finset.range 65536).filter
      fun id => (bucket m (id / 256)).isAllocated (id % 256)).card = 65536 ↔
      ∀ id < 65536, (bucket m (id / 256)).isAllocated (id % 256) = true := by
    have every := Finset.card_filter_eq_iff (s := Finset.range 65536)
      (p := fun id => (bucket m (id / 256)).isAllocated (id % 256) = true)
    rw [Finset.card_range] at every
    simpa only [Finset.mem_range] using every
  rw [show m.entities.length = 65535 ↔ m.entities.length + 1 = 65536 by omega, ← card, all]
  constructor
  · intro full id bound
    have none : id % 256 ∉ freeIds (bucket m (id / 256)) := by
      rw [full _ (by omega)]
      exact Finset.notMem_empty _
    rw [mem_freeIds, not_and] at none
    simpa using none (Nat.mod_lt _ (by decide))
  · intro full k less
    refine Finset.eq_empty_of_forall_notMem fun i free => ?_
    obtain ⟨bound, clear⟩ := mem_freeIds.mp free
    have taken := full (k * 256 + i) (by omega)
    rw [show (k * 256 + i) / 256 = k by omega, show (k * 256 + i) % 256 = i by omega, clear] at taken
    exact Bool.false_ne_true taken

/-- What the rest of the game does: who is inserted is not yet on the map, who is removed is. -/
def Orderly (m : PublicIds E) : IdEvent E → Prop
  | .insert obj => obj ∉ m.entities
  | .remove obj => obj ∈ m.entities

theorem run_kept {history : List (IdEvent E)}
    (run : Run (Guarded Orderly fun m event m' => m.step event = some m') PublicIds.start history m) :
    Kept m := by
  refine run.invariant start_kept ?_
  rintro m event m' kept ⟨orderly, stepped⟩
  cases event with
  | insert obj =>
      rw [PublicIds.step, PublicIds.insert] at stepped
      rcases kept.allocate obj with ⟨failed, -⟩ | ⟨k, j, b, found, inside, free, sound, ids, objects⟩
      · rw [failed] at stepped
        obtain rfl := Option.some.inj stepped
        exact kept
      · rw [found] at stepped
        obtain rfl := Option.some.inj stepped
        exact kept.give orderly inside free sound ids objects
  | remove obj =>
      obtain ⟨m₁, removed, kept'⟩ := kept.remove orderly
      obtain rfl := Option.some.inj (removed.symm.trans stepped)
      exact kept'

end content

/-- One being came and got the first id. -/
def alone : PublicIds Nat := (PublicIds.start.step (.insert 7)).getD .start

theorem alone_run : Run (Guarded Orderly fun m event m' => m.step event = some m') PublicIds.start
    [.insert 7] alone :=
  .next .start ⟨List.not_mem_nil, rfl⟩

end Cgsf.Proof.MOGame.PublicIds
