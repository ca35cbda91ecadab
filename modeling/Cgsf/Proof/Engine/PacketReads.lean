import Cgsf.Engine.PacketStream
import Cgsf.Library.Transition
import Cgsf.Proof.Engine.DecodeBounds
import Cgsf.Proof.Engine.PacketStream

/-!
# Reads and the end of the data

A call looks only at data exactly if what it asks for is there, or is more than the whole packet
buffer. As long as all calls were of that kind the read position is in the data as well.
-/

namespace Cgsf.Proof.Engine.SFPacket
open Cgsf.Engine Cgsf.Engine.SFPacket Cgsf.Engine.SFCGSFPacketProtocol Library

variable {p q : SFPacket} {call : ReadCall}

/-- The data lies in the packet buffer, and the read position is not behind it. -/
structure Inside (p : SFPacket) : Prop where
  buffer : p.packetBuffer.length = maxPacketSize
  data : p.getPacketSize ≤ maxPacketSize
  position : p.usCurrentReadPosition ≤ p.getPacketSize

theorem packetBuffer_length (fits : p.data.length ≤ dataCapacity) :
    p.packetBuffer.length = maxPacketSize := by
  rw [packetBuffer, List.length_append, List.length_append, List.length_replicate]
  have header : p.header.bytes.length = headerSize := by
    simp [SFPacketHeader.bytes, leBytes_length, headerSize]
  rw [header, Nat.add_assoc, Nat.add_sub_cancel' fits]
  rfl

/-- A packet whose read position is behind the header, with data that fits. -/
structure Ready (p : SFPacket) : Prop where
  position : p.usCurrentReadPosition = headerSize
  data : p.data.length ≤ dataCapacity
  size : p.getDataSize ≤ dataCapacity

theorem putData_length {offset : Nat} {bs : List UInt8} (run : p.putData offset bs = some q)
    (before : p.data.length ≤ dataCapacity) :
    q.data.length ≤ dataCapacity ∧ q.header = p.header ∧
      q.usCurrentReadPosition = p.usCurrentReadPosition ∧ offset + bs.length ≤ dataCapacity := by
  rw [putData] at run
  split at run
  · rename_i fits
    obtain rfl := Option.some.inj run
    refine ⟨?_, rfl, rfl, fits⟩
    simp only [splice, List.length_append, List.length_take, List.length_drop,
      List.length_replicate]
    omega
  · cases run

theorem Ready.decrypt (ready : Ready p) (run : p.decryptData = some q) : Ready q := by
  rw [decryptData] at run
  split at run
  · obtain ⟨src, -, put⟩ := Option.bind_eq_some_iff.mp run
    obtain ⟨data, header, position, -⟩ := putData_length put ready.data
    refine ⟨position.trans ready.position, data, ?_⟩
    rw [getDataSize, header]
    exact ready.size
  · obtain rfl := Option.some.inj run
    exact ready

theorem Ready.uncompress {packetSize : UInt16} (ready : Ready p)
    (run : p.uncompressInPlace packetSize = some (q, true)) : Ready q := by
  rw [uncompressInPlace] at run
  split at run
  · obtain ⟨src, -, run⟩ := Option.bind_eq_some_iff.mp run
    have sized := @uncompress_size src packetSize.toNat
    generalize SFCompressLzf.uncompress src packetSize.toNat = result at run sized
    obtain ⟨dest, destSize, ok⟩ := result
    obtain ⟨r, put, same⟩ := Option.map_eq_some_iff.mp run
    obtain ⟨data, -, position, room⟩ := putData_length put (Nat.zero_le _)
    cases ok with
    | false => simp at same
    | true =>
        simp only [Bool.not_true, Bool.false_eq_true, if_false] at same
        split at same
        · simp at same
        · simp only [Prod.mk.injEq, and_true] at same
          subst same
          refine ⟨position.trans ready.position, data, ?_⟩
          have whole : destSize = dest.length := (sized rfl).1
          have small : destSize ≤ dataCapacity := by omega
          change (UInt16.ofNat destSize).toNat ≤ dataCapacity
          rw [UInt16.toNat_ofNat', Nat.mod_eq_of_lt (Nat.lt_of_le_of_lt small (by decide))]
          exact small
  · obtain rfl := (Prod.mk.inj (Option.some.inj run)).1
    exact ready

theorem Ready.decode {codec : Codec} {packetSize : UInt16} {error errorCode : Int}
    (ready : Ready p) (run : p.decodeInPlace codec packetSize error = some (q, errorCode, true)) :
    Ready q := by
  obtain ⟨intact, -, run⟩ := Option.bind_eq_some_iff.mp run
  split at run
  · simp at run
  · obtain ⟨r, decrypted, run⟩ := Option.bind_eq_some_iff.mp run
    obtain ⟨⟨u, ok⟩, unpacked, same⟩ := Option.map_eq_some_iff.mp run
    cases ok with
    | false => simp at same
    | true =>
        simp only [if_true, Prod.mk.injEq, and_true] at same
        obtain ⟨rfl, -⟩ := same
        have ready := (ready.decrypt decrypted).uncompress unpacked
        exact ⟨ready.position, ready.data, ready.size⟩

theorem FromNetwork.ready {codec : Codec} (received : FromNetwork codec p) : Ready p := by
  induction received with
  | taken got =>
      obtain ⟨position, length, fits⟩ := filled_of_getPacket got
      exact ⟨position, fits, accepted_of_getPacket got⟩
  | decoded _ run ih => exact ih.decode run

theorem Ready.inside (ready : Ready p) : Inside p where
  buffer := packetBuffer_length ready.data
  data := by
    have size := ready.size
    rw [dataCapacity] at size
    have room : headerSize ≤ maxPacketSize := by decide
    rw [getPacketSize]
    omega
  position := by
    rw [ready.position, getPacketSize]
    exact Nat.le_add_right ..

/-- The words: what a refused operator leaves in its variable is what was there. -/
theorem get_refused {target : StreamValue} {size : Nat} (sized : target.size = some size)
    (long : maxPacketSize < p.usCurrentReadPosition + size) :
    p.get target = some (p, target) := by
  have word {width image : Nat} (small : image < 256 ^ width)
      (long : maxPacketSize < p.usCurrentReadPosition + width) :
      p.getWord width image = some (p, image) := by
    rw [getWord, SFPacket.read, if_pos long]
    simp only [Option.map_some, leValue_leBytes_of_lt width image small]
  cases target with
  | string szStr => cases sized
  | block buffer =>
      cases sized
      rw [SFPacket.get, SFPacket.read, if_pos long]
      rfl
  | byte data =>
      cases sized
      rw [SFPacket.get, getByte, word data.toNat_lt long]
      simp
  | char data =>
      cases sized
      rw [SFPacket.get, getChar, word data.toUInt8.toNat_lt long]
      simp only [Option.map_some, UInt8.ofNat_toNat, Int8.toInt8_toUInt8]
  | short data =>
      cases sized
      rw [SFPacket.get, getShort, word data.toUInt16.toNat_lt long]
      simp only [Option.map_some, UInt16.ofNat_toNat, Int16.toInt16_toUInt16]
  | ushort data =>
      cases sized
      rw [SFPacket.get, getUshort, word data.toNat_lt long]
      simp
  | int data =>
      cases sized
      rw [SFPacket.get, getInt, word data.toUInt32.toNat_lt long]
      simp only [Option.map_some, UInt32.ofNat_toNat, Int32.toInt32_toUInt32]
  | dword data =>
      cases sized
      rw [SFPacket.get, getDword, word data.toNat_lt long]
      simp
  | float data =>
      cases sized
      rw [SFPacket.get, getFloat, word data.toNat_lt long]
      simp

theorem readSized_refused {pBuffer : List UInt8} {bufferSize : Int32}
    (refused : p.refuses bufferSize = true) :
    p.readSized pBuffer bufferSize = some (p, pBuffer) := if_pos refused

/-- The test of `Read` in plain arithmetic. -/
theorem refuses_iff (inside : Inside p) (bufferSize : Int32) :
    p.refuses bufferSize = true ↔ maxPacketSize < p.usCurrentReadPosition + bufferSize.toInt ∧
      p.usCurrentReadPosition + bufferSize.toInt < 2 ^ 31 := by
  have position : p.usCurrentReadPosition ≤ 8192 := inside.position.trans inside.data
  have low := bufferSize.le_toInt
  have high := bufferSize.toInt_lt
  have start : (Int32.ofNat p.usCurrentReadPosition).toInt = p.usCurrentReadPosition :=
    Int32.toInt_ofNat_of_lt (by omega)
  have last : (Int32.ofNat maxPacketSize).toInt = maxPacketSize := by decide
  rw [refuses, decide_eq_true_eq, gt_iff_lt, Int32.lt_iff_toInt_lt, Int32.toInt_add, start, last,
    Int.bmod_def, maxPacketSize]
  omega

theorem takeWhile_short_iff {α : Type} [DecidableEq α] (stop : α) (text : List α) (n : Nat)
    (long : n ≤ text.length) : (text.takeWhile (· ≠ stop)).length < n ↔ stop ∈ text.take n := by
  induction text generalizing n with
  | nil =>
      obtain rfl := Nat.le_zero.mp long
      exact iff_of_false (Nat.not_lt_zero _) (by simp)
  | cons a text ih =>
      cases n with
      | zero => exact iff_of_false (Nat.not_lt_zero _) (by simp)
      | succ n =>
          rw [List.take_succ_cons, List.mem_cons]
          by_cases stops : a = stop
          · subst stops
            refine iff_of_true ?_ (.inl rfl)
            rw [List.takeWhile_cons_of_neg (by simp)]
            exact Nat.succ_pos n
          · rw [List.takeWhile_cons_of_pos (by simpa using stops), List.length_cons,
              Nat.succ_lt_succ_iff, ih n (Nat.le_of_succ_le_succ long), or_iff_right (Ne.symm stops)]

theorem stringReads_iff (inside : Inside p) :
    p.usCurrentReadPosition + p.stringReads ≤ p.getPacketSize ↔
      0 ∈ (p.packetBuffer.take p.getPacketSize).drop p.usCurrentReadPosition := by
  have position := inside.position
  have size := inside.buffer
  have data := inside.data
  rw [List.drop_take, ← takeWhile_short_iff 0 _ _ (by rw [List.length_drop]; omega), stringReads]
  omega

theorem string_of_size {target : StreamValue} (unsized : target.size = none) :
    ∃ szStr, target = .string szStr := by
  cases target with
  | string szStr => exact ⟨szStr, rfl⟩
  | _ => cases unsized

theorem sizeT_of_nonneg {n : Int32} (nonneg : 0 ≤ n.toInt) : (sizeT n : Int) = n.toInt := by
  have := n.toInt_lt
  rw [sizeT]
  omega

theorem nonneg_of_sizeT {n : Int32} (small : sizeT n ≤ maxPacketSize) : 0 ≤ n.toInt := by
  have := n.le_toInt
  rw [sizeT, maxPacketSize] at small
  omega

theorem operator_safe_iff (inside : Inside p) (target : StreamValue) :
    Safe p (.operator target) ↔ Decided p (.operator target) := by
  have position := inside.position
  have data := inside.data
  cases sized : target.size with
  | none =>
      have looks : p.reads (.operator target) = p.stringReads := by simp only [reads, sized]
      have fits : p.Fits (.operator target) ↔
          p.usCurrentReadPosition + p.stringReads ≤ p.getPacketSize := by
        rw [stringReads_iff inside]
        simp only [Fits, sized]
      have within : Decided p (.operator target) ↔ p.Fits (.operator target) := by
        rw [Decided, or_iff_left]
        simp only [Exceeds, sized, not_false_eq_true]
      rw [within, fits]
      constructor
      · intro safe
        have inside := safe.inside
        rw [looks] at inside
        exact inside (Nat.succ_ne_zero _)
      · intro stays
        exact ⟨fun _ => looks ▸ stays, fun short => absurd (fits.mpr stays) short⟩
  | some size =>
      have looks : p.reads (.operator target) =
          if p.usCurrentReadPosition + size > maxPacketSize then 0 else size := by
        simp only [reads, sized]
      have fits : p.Fits (.operator target) ↔
          p.usCurrentReadPosition + size ≤ p.getPacketSize := by
        simp only [Fits, sized]
      have exceeds : p.Exceeds (.operator target) ↔
          maxPacketSize < p.usCurrentReadPosition + size := by
        simp only [Exceeds, sized]
      rw [Decided, fits, exceeds]
      constructor
      · intro safe
        have inside := safe.inside
        rw [looks] at inside
        split at inside
        · rename_i long
          exact .inr long
        · by_cases nothing : size = 0
          · exact .inl (by omega)
          · exact .inl (inside nothing)
      · rintro (stays | long)
        · refine ⟨fun _ => ?_, fun short => absurd (fits.mpr stays) short⟩
          rw [looks, if_neg (by omega)]
          exact stays
        · refine ⟨fun some => ?_, fun _ => ?_⟩
          · rw [looks, if_pos long] at some
            exact absurd rfl some
          · rw [perform, get_refused sized long]
            rfl

theorem read_safe_iff (inside : Inside p) (pBuffer : List UInt8) (bufferSize : Int32) :
    Safe p (.read pBuffer bufferSize) ↔ Decided p (.read pBuffer bufferSize) := by
  have position := inside.position
  have data := inside.data
  have exceeds : p.Exceeds (.read pBuffer bufferSize) ↔ p.refuses bufferSize = true :=
    (refuses_iff inside bufferSize).symm
  rw [Decided, exceeds]
  constructor
  · intro safe
    have inside := safe.inside
    rw [reads] at inside
    split at inside
    · rename_i refused
      exact .inr refused
    · refine .inl ?_
      have small : p.usCurrentReadPosition + sizeT bufferSize ≤ p.getPacketSize := by
        by_cases nothing : sizeT bufferSize = 0
        · omega
        · exact inside nothing
      have nonneg := nonneg_of_sizeT (n := bufferSize) (by omega)
      have same := sizeT_of_nonneg nonneg
      refine ⟨nonneg, ?_⟩
      omega
  · rintro (fits | refused)
    · refine ⟨fun some => ?_, fun short => absurd fits short⟩
      have same := sizeT_of_nonneg fits.1
      have stays := fits.2
      rw [reads] at some ⊢
      split at some
      · exact absurd rfl some
      · rename_i accepted
        rw [if_neg accepted]
        omega
    · refine ⟨fun some => ?_, fun _ => ?_⟩
      · rw [reads, if_pos refused] at some
        exact absurd rfl some
      · rw [perform, readSized_refused refused]
        rfl

theorem safe_iff (inside : Inside p) (call : ReadCall) : Safe p call ↔ Decided p call := by
  cases call with
  | operator target => exact operator_safe_iff inside target
  | read pBuffer bufferSize => exact read_safe_iff inside pBuffer bufferSize

theorem Inside.of_advance {size : Nat} (inside : Inside p)
    (stays : p.usCurrentReadPosition + size ≤ p.getPacketSize) : Inside (advance p size) :=
  ⟨inside.buffer, inside.data, stays⟩

theorem bytes_of_size {target : StreamValue} {size : Nat} (sized : target.size = some size) :
    (StreamValue.bytes target).length = size ∧ target.type ≠ .string := by
  cases target with
  | string szStr => cases sized
  | block buffer =>
      cases sized
      exact ⟨rfl, nofun⟩
  | _ =>
      cases sized
      exact ⟨leBytes_length .., nofun⟩

theorem operator_inside {target : StreamValue} (inside : Inside p)
    (decided : Decided p (.operator target)) (reading : p.Reading (.operator target) q) :
    Inside q := by
  obtain ⟨result, performed⟩ := reading
  obtain ⟨⟨r, value⟩, run, same⟩ := Option.map_eq_some_iff.mp performed
  obtain rfl := (Prod.mk.inj same).1
  cases sized : target.size with
  | none =>
      obtain ⟨szStr, rfl⟩ := string_of_size sized
      have stays := (stringReads_iff inside).mpr (decided.resolve_right id)
      obtain ⟨⟨s, text⟩, got, same⟩ := Option.map_eq_some_iff.mp run
      obtain rfl := (Prod.mk.inj same).1
      simp only [getString] at got
      split at got
      · cases got
      · split at got
        · obtain rfl := (Prod.mk.inj (Option.some.inj got)).1
          exact inside
        · obtain rfl := (Prod.mk.inj (Option.some.inj got)).1
          exact inside.of_advance stays
  | some size =>
      simp only [Decided, Fits, Exceeds, sized] at decided
      rcases decided with stays | long
      · obtain ⟨length, fixed⟩ := bytes_of_size sized
        have holds : Holds p (StreamValue.bytes target).length :=
          ⟨inside.buffer, length ▸ stays.trans inside.data⟩
        rw [get_fixed rfl fixed holds, length] at run
        obtain rfl := (Prod.mk.inj (Option.some.inj run)).1
        exact inside.of_advance stays
      · rw [get_refused sized long] at run
        obtain rfl := (Prod.mk.inj (Option.some.inj run)).1
        exact inside

theorem read_inside {pBuffer : List UInt8} {bufferSize : Int32} (inside : Inside p)
    (decided : Decided p (.read pBuffer bufferSize))
    (reading : p.Reading (.read pBuffer bufferSize) q) : Inside q := by
  obtain ⟨result, performed⟩ := reading
  obtain ⟨⟨r, buffer⟩, run, same⟩ := Option.map_eq_some_iff.mp performed
  obtain rfl := (Prod.mk.inj same).1
  rw [readSized] at run
  split at run
  · obtain rfl := (Prod.mk.inj (Option.some.inj run)).1
    exact inside
  · rename_i accepted
    obtain ⟨nonneg, stays⟩ := decided.resolve_right fun exceeds =>
      accepted ((refuses_iff inside bufferSize).mpr exceeds)
    obtain ⟨bytes, -, run⟩ := Option.bind_eq_some_iff.mp run
    obtain rfl := (Prod.mk.inj (Option.some.inj run)).1
    have same := sizeT_of_nonneg nonneg
    have data : p.getPacketSize ≤ 8192 := inside.data
    have small : p.usCurrentReadPosition + sizeT bufferSize ≤ p.getPacketSize := by omega
    rw [Nat.mod_eq_of_lt (by omega)]
    exact inside.of_advance small

theorem reading_inside (inside : Inside p) (decided : Decided p call) (reading : p.Reading call q) :
    Inside q := by
  cases call with
  | operator target => exact operator_inside inside decided reading
  | read pBuffer bufferSize => exact read_inside inside decided reading

/-- A call has no result exactly if it looks behind the packet buffer. -/
theorem perform_none_iff (inside : Inside p) (call : ReadCall) :
    p.perform call = none ↔ maxPacketSize < p.usCurrentReadPosition + p.reads call := by
  have position := inside.position.trans inside.data
  cases call with
  | operator target =>
      rw [perform, Option.map_eq_none_iff]
      cases sized : target.size with
      | none =>
          obtain ⟨szStr, rfl⟩ := string_of_size sized
          have size := inside.buffer
          have shorter := (List.takeWhile_prefix
            (l := p.packetBuffer.drop p.usCurrentReadPosition)
            fun b : UInt8 => decide (b ≠ 0)).length_le
          have whole := List.length_drop (i := p.usCurrentReadPosition) (l := p.packetBuffer)
          rw [SFPacket.get, Option.map_eq_none_iff]
          simp only [getString, reads, StreamValue.size, stringReads]
          split
          · exact iff_of_true rfl (by omega)
          · split <;> exact iff_of_false (by simp) (by omega)
      | some size =>
          simp only [reads, sized]
          split
          · rename_i long
            rw [get_refused sized long]
            exact iff_of_false (by simp) (by omega)
          · rename_i short
            obtain ⟨length, fixed⟩ := bytes_of_size sized
            have holds : Holds p (StreamValue.bytes target).length :=
              ⟨inside.buffer, length ▸ Nat.not_lt.mp short⟩
            rw [get_fixed rfl fixed holds]
            exact iff_of_false (by simp) short
  | read pBuffer bufferSize =>
      rw [perform, Option.map_eq_none_iff, readSized, reads]
      split
      · exact iff_of_false (by simp) (by omega)
      · have size := inside.buffer
        simp only [read?]
        split
        · exact iff_of_false (by simp) (by omega)
        · exact iff_of_true rfl (by omega)

theorem run_reads {codec : Codec} {calls : List ReadCall} (received : FromNetwork codec p)
    (run : Run (Guarded Decided Reading) p calls q) (call : ReadCall) :
    Safe q call ↔ Decided q call := by
  refine safe_iff ?_ call
  refine @Run.invariant _ _ _ _ Inside (FromNetwork.ready received).inside ?_ _ _ run
  intro p call q inside step
  exact reading_inside inside step.1 step.2

/-- "OK" without a terminator. -/
def okFrame : Frame := ⟨{ packetID := 7, dataSize := 2 }, [79, 75]⟩

def okPacket : SFPacket := { header := okFrame.header, data := okFrame.payload }

set_option maxRecDepth 20000 in
theorem okPacket_received : FromNetwork Codec.checksumOnly okPacket := by
  have got : getPacket ⟨[]⟩ (holding okFrame.bytes) = some (⟨[]⟩,
      { holding okFrame.bytes with
        packetIOBuffer := { (holding okFrame.bytes).packetIOBuffer with
          iHead := 14, iUsedBufferSize := 0 } }, 0, some okPacket) := by
    decide
  exact .taken got

set_option maxRecDepth 20000 in
/-- Two bytes that are read one after the other, and then a block that no packet has room for. -/
theorem okPacket_read : ∃ q, q.usCurrentReadPosition = 14 ∧
    Safe q (.read [] 8192) ∧ Safe okPacket (.operator (.short 0)) := by
  have first := @Run.next _ _ (Guarded Decided Reading) okPacket [] okPacket (advance okPacket 1)
    (.operator (.byte 0)) .start ⟨by decide, .operator (.byte 79), by decide +kernel⟩
  have run := @Run.next _ _ (Guarded Decided Reading) okPacket _ _ (advance okPacket 2)
    (.read [0] 1) first ⟨by decide, .read [75] 1, by decide +kernel⟩
  refine ⟨advance okPacket 2, rfl, (run_reads okPacket_received run _).mpr (by decide), ?_⟩
  exact (run_reads okPacket_received .start _).mpr (by decide)

/-- The string ends behind the packet, and the other reads take what is behind it. -/
theorem okPacket_unsafe : FromNetwork Codec.checksumOnly okPacket ∧
    ¬Safe okPacket (.operator (.string ⟨[], List.not_mem_nil⟩)) ∧
    ¬Safe okPacket (.operator (.int 7)) ∧ ¬Safe okPacket (.read [1, 2, 3] 3) := by
  have inside := (FromNetwork.ready okPacket_received).inside
  refine ⟨okPacket_received, ?_, ?_, ?_⟩
  · rw [safe_iff inside]
    decide
  · rw [safe_iff inside]
    decide
  · rw [safe_iff inside]
    decide

end Cgsf.Proof.Engine.SFPacket
