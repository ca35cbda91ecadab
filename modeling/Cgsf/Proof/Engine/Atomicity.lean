import Cgsf.Library.Transition
import Cgsf.Proof.Engine.Receive

/-!
# Reading a frame is all or nothing

`GetHeader` and `GetPacket` take bytes out of the ring first and put the head back when they give
up. The four ways `GetPacket` can go are told apart by what the ring holds.
-/

namespace Cgsf.Proof.Engine
open Cgsf.Engine Library

namespace SFIOBuffer
open Cgsf.Engine.SFIOBuffer

/-- The calls that reach the ring of one connection. -/
inductive RingCall where
  | initIOBuf
  | appendData (data : List UInt8)
  | getData (iSize : Nat)
  | removeData (iSize : Nat)
  | getHeader (header : SFPacketHeader)
  | getPacket (header : SFPacketHeader) (capacity : Nat) (packetSize : UInt16)
  deriving DecidableEq, Repr

def RingCall.run (ring : SFIOBuffer) : RingCall → Option SFIOBuffer
  | initIOBuf => some ring.initIOBuf
  | appendData data => (ring.appendData data).map Prod.fst
  | getData iSize => (ring.getData iSize).map Prod.fst
  | removeData iSize => some (ring.removeData iSize).1
  | getHeader header => (SFPacketIOBuffer.getHeader ring header).map (·.ring)
  | getPacket header capacity packetSize =>
      (SFPacketIOBuffer.getPacket ring header capacity packetSize).map (·.ring)

abbrev RingSteps (ring : SFIOBuffer) (call : RingCall) (after : SFIOBuffer) : Prop :=
  call.run ring = some after

theorem initIOBuf_valid {ring : SFIOBuffer} (valid : Valid ring) : Valid ring.initIOBuf where
  size := List.length_replicate
  head := Nat.lt_of_le_of_lt (Nat.zero_le _) valid.head
  tail := Nat.lt_of_le_of_lt (Nat.zero_le _) valid.head
  used := rfl

theorem removeData_valid {ring : SFIOBuffer} (valid : Valid ring) (iSize : Nat) :
    Valid (ring.removeData iSize).1 := by
  have le : (if ring.iUsedBufferSize < iSize then ring.iUsedBufferSize else iSize) ≤
      ring.iUsedBufferSize := by
    split <;> omega
  rw [removeData]
  generalize (if ring.iUsedBufferSize < iSize then ring.iUsedBufferSize else iSize) = n at le ⊢
  by_cases zero : n = 0
  · rw [if_pos zero]
    exact valid
  · rw [if_neg zero]
    exact (advance_spec valid n le).1

theorem ringCall_valid {ring after : SFIOBuffer} {call : RingCall} (valid : Valid ring)
    (step : RingSteps ring call after) : Valid after := by
  cases call with
  | initIOBuf =>
      obtain rfl := Option.some.inj step
      exact initIOBuf_valid valid
  | appendData data =>
      obtain ⟨ring', added, run, valid'⟩ := appendData_valid valid data
      rw [RingSteps, RingCall.run, run] at step
      obtain rfl := Option.some.inj step
      exact valid'
  | getData iSize =>
      obtain ⟨ring', bs, run, valid'⟩ := getData_valid valid iSize
      rw [RingSteps, RingCall.run, run] at step
      obtain rfl := Option.some.inj step
      exact valid'
  | removeData iSize =>
      obtain rfl := Option.some.inj step
      exact removeData_valid valid iSize
  | getHeader header =>
      obtain ⟨answer, run, rfl⟩ := Option.map_eq_some_iff.mp step
      exact SFPacketIOBuffer.getHeader_valid valid run
  | getPacket header capacity packetSize =>
      obtain ⟨answer, run, rfl⟩ := Option.map_eq_some_iff.mp step
      exact SFPacketIOBuffer.getPacket_valid valid run

theorem ringRun_valid {start ring : SFIOBuffer} {history : List RingCall} (valid : Valid start)
    (run : Run RingSteps start history ring) : Valid ring :=
  run.invariant valid fun _ _ _ valid step => ringCall_valid valid step

/-- The same bytes are buffered and the same number of bytes is free. -/
structure Unchanged (ring after : SFIOBuffer) : Prop where
  bytes : contents after = contents ring
  room : after.getEmptyBufferSize = ring.getEmptyBufferSize

end SFIOBuffer

namespace SFPacketIOBuffer
open Cgsf.Engine.SFPacketIOBuffer SFIOBuffer

variable {ring : SFIOBuffer} {packetSize : UInt16}

theorem getPacket_short (short : ring.iUsedBufferSize < headerSize) (header : SFPacketHeader)
    (capacity : Nat) :
    getPacket ring header capacity packetSize =
      some ⟨ring, header, [], packetIOErrorNone, false⟩ := by
  rw [getPacket, if_pos short]

theorem getPacket_body (valid : Valid ring) (long : headerSize ≤ ring.iUsedBufferSize)
    (header : SFPacketHeader) (capacity : Nat) (packetSize : UInt16) :
    ∃ after, getPacket ring header capacity packetSize =
        getBody ring after (Frame.frontHeader (contents ring)) capacity packetSize ∧
      Valid after ∧ contents after = (contents ring).drop headerSize ∧
      after.iUsedBufferSize = ring.iUsedBufferSize - headerSize ∧
      after.iBufSize = ring.iBufSize := by
  obtain ⟨after, read, valid', rest, size, back⟩ := getData_spec valid headerSize long
  refine ⟨after, getPacket_eq header _ packetSize (Nat.not_lt.mpr long) read
    (valid.length_take long) back, valid', rest, ?_, size⟩
  rw [← valid'.length_contents, rest, List.length_drop, valid.length_contents]

theorem getPacket_refuses (valid : Valid ring) (long : headerSize ≤ ring.iUsedBufferSize)
    (large : unsignedSub packetSize.toNat headerSize <
      (Frame.frontHeader (contents ring)).dataSize.toNat)
    (header : SFPacketHeader) (capacity : Nat) :
    getPacket ring header capacity packetSize =
      some ⟨ring, Frame.frontHeader (contents ring), [], packetIOErrorData, false⟩ := by
  obtain ⟨after, run, -⟩ := getPacket_body valid long header capacity packetSize
  rw [run, getBody, if_pos large]

theorem getPacket_waits (valid : Valid ring) (long : headerSize ≤ ring.iUsedBufferSize)
    (fits : (Frame.frontHeader (contents ring)).dataSize.toNat ≤
      unsignedSub packetSize.toNat headerSize)
    (short : ring.iUsedBufferSize < headerSize + (Frame.frontHeader (contents ring)).dataSize.toNat)
    (header : SFPacketHeader) (capacity : Nat) :
    getPacket ring header capacity packetSize =
      some ⟨ring, Frame.frontHeader (contents ring), [], packetIOErrorNone, false⟩ := by
  obtain ⟨after, run, -, -, used, -⟩ :=
    getPacket_body valid long header capacity packetSize
  rw [run, getBody, if_neg (by omega), if_pos (by omega)]

/-- What a `GetPacket` that returns true does to the ring. -/
structure Consumed (ring : SFIOBuffer) (packetSize : UInt16) (answer : Answer) : Prop where
  size : answer.data.length = answer.header.dataSize.toNat
  bytes : contents ring = answer.header.bytes ++ answer.data ++ contents answer.ring
  room : answer.ring.getEmptyBufferSize =
    ring.getEmptyBufferSize + (headerSize + answer.header.dataSize.toNat)
  bound : headerSize + answer.data.length ≤ packetSize.toNat

theorem getPacket_takes (valid : Valid ring)
    (fits : (Frame.frontHeader (contents ring)).dataSize.toNat ≤
      unsignedSub packetSize.toNat headerSize)
    (complete : headerSize + (Frame.frontHeader (contents ring)).dataSize.toNat ≤
      ring.iUsedBufferSize)
    (header : SFPacketHeader) (capacity : Nat)
    (room : (Frame.frontHeader (contents ring)).dataSize.toNat ≤ capacity) :
    ∃ answer, getPacket ring header capacity packetSize = some answer ∧ answer.found = true ∧
      (headerSize ≤ packetSize.toNat → Consumed ring packetSize answer) := by
  obtain ⟨after, run, valid', rest, used, size⟩ :=
    getPacket_body valid (by omega) header capacity packetSize
  have long : headerSize ≤ (contents ring).length := by
    rw [valid.length_contents]
    omega
  have front := Frame.frontHeader_bytes (contents ring) long
  generalize Frame.frontHeader (contents ring) = found at *
  obtain ⟨last, read, valid'', behind, size', -⟩ :=
    getData_spec valid' found.dataSize.toNat (by omega)
  have taken := valid'.length_take (show found.dataSize.toNat ≤ after.iUsedBufferSize by omega)
  rw [getBody, if_neg (by omega), if_neg (by omega), read, Option.bind_eq_bind,
    Option.bind_some] at run
  dsimp only at run
  rw [if_neg (by omega), if_neg (by simp only [ne_eq, taken, not_true_eq_false, not_false_eq_true])]
    at run
  refine ⟨_, run, rfl, fun small => ⟨taken, ?_, ?_, ?_⟩⟩
  · dsimp only
    rw [front, behind, rest, List.append_assoc, List.take_append_drop, List.take_append_drop]
  · have left : last.iUsedBufferSize = after.iUsedBufferSize - found.dataSize.toNat := by
      rw [← valid''.length_contents, behind, List.length_drop, valid'.length_contents]
    have bound := valid.used_lt
    simp only [getEmptyBufferSize]
    omega
  · dsimp only
    rw [unsignedSub, if_pos small] at fits
    omega

/-- Whatever buffer of at least `packetSize - 12` bytes the caller brings, the two functions change
the ring as a whole or not at all, and the size check decides as it does in the integers. -/
structure Atomic (ring : SFIOBuffer) (packetSize : UInt16) : Prop where
  header : ∀ header, ∃ answer, getHeader ring header = some answer ∧ Unchanged ring answer.ring
  packet : ∀ header capacity, packetSize.toNat ≤ headerSize + capacity →
    ∃ answer, getPacket ring header capacity packetSize = some answer ∧
      (answer.found = false → Unchanged ring answer.ring) ∧
      (answer.found = true → Consumed ring packetSize answer) ∧
      (headerSize ≤ ring.iUsedBufferSize →
        packetSize.toNat < headerSize + (Frame.frontHeader (contents ring)).dataSize.toNat →
        answer.found = false ∧ answer.errorCode = packetIOErrorData)

theorem atomic_of_size (valid : Valid ring)
    (reached : headerSize ≤ packetSize.toNat ∨ ring.iUsedBufferSize < headerSize) :
    Atomic ring packetSize := by
  refine ⟨fun header => ?_, fun header capacity room => ?_⟩
  · obtain ⟨answer, run, same⟩ := getHeader_returns valid header
    exact ⟨answer, run, same ▸ ⟨rfl, rfl⟩⟩
  · by_cases short : ring.iUsedBufferSize < headerSize
    · refine ⟨_, getPacket_short short header capacity, fun _ => ⟨rfl, rfl⟩, ?_, ?_⟩
      · exact fun found => absurd found Bool.false_ne_true
      · exact fun long => absurd short (Nat.not_lt.mpr long)
    · have small : headerSize ≤ packetSize.toNat := reached.resolve_right short
      have difference : unsignedSub packetSize.toNat headerSize = packetSize.toNat - headerSize :=
        if_pos small
      by_cases large : packetSize.toNat <
          headerSize + (Frame.frontHeader (contents ring)).dataSize.toNat
      · refine ⟨_, getPacket_refuses valid (by omega) (by omega) header capacity,
          fun _ => ⟨rfl, rfl⟩, ?_, fun _ _ => ⟨rfl, rfl⟩⟩
        exact fun found => absurd found Bool.false_ne_true
      · have fits : (Frame.frontHeader (contents ring)).dataSize.toNat ≤
            unsignedSub packetSize.toNat headerSize := by
          omega
        by_cases complete : headerSize + (Frame.frontHeader (contents ring)).dataSize.toNat ≤
            ring.iUsedBufferSize
        · obtain ⟨answer, run, found, consumed⟩ :=
            getPacket_takes valid fits complete header capacity (by omega)
          refine ⟨answer, run, ?_, fun _ => consumed small, fun _ more => absurd more large⟩
          intro lost
          rw [found] at lost
          contradiction
        · refine ⟨_, getPacket_waits valid (by omega) fits (by omega) header capacity,
            fun _ => ⟨rfl, rfl⟩, ?_, fun _ more => absurd more large⟩
          exact fun found => absurd found Bool.false_ne_true

/-- Below the size of a header the difference wraps around and refuses nothing. -/
theorem size_of_atomic (valid : Valid ring) (atomic : Atomic ring packetSize)
    (small : packetSize.toNat < headerSize) : ring.iUsedBufferSize < headerSize := by
  by_contra long
  have wrapped : (Frame.frontHeader (contents ring)).dataSize.toNat ≤
      unsignedSub packetSize.toNat headerSize := by
    have word := (Frame.frontHeader (contents ring)).dataSize.toNat_lt
    rw [unsignedSub, if_neg (by omega), headerSize]
    omega
  obtain ⟨answer, run, -, -, refused⟩ := atomic.packet {}
    (packetSize.toNat + (Frame.frontHeader (contents ring)).dataSize.toNat) (by omega)
  obtain ⟨lost, error⟩ := refused (by omega) (by omega)
  by_cases complete : headerSize + (Frame.frontHeader (contents ring)).dataSize.toNat ≤
      ring.iUsedBufferSize
  · obtain ⟨answer', run', found, -⟩ := getPacket_takes valid wrapped complete {}
      (packetSize.toNat + (Frame.frontHeader (contents ring)).dataSize.toNat) (by omega)
    obtain rfl := Option.some.inj (run.symm.trans run')
    rw [found] at lost
    contradiction
  · rw [getPacket_waits valid (by omega) wrapped (by omega)] at run
    obtain rfl := Option.some.inj run
    rw [packetIOErrorNone, packetIOErrorData] at error
    contradiction

/-- The ring that the constructor allocates for a connection. -/
def constructed (bufferIOSize : Int) (packetDataSize : UInt16) : SFIOBuffer :=
  (SFIOBuffer.empty.allocIOBuf (SFPacketProtocol.clampSizes bufferIOSize packetDataSize).1).1

theorem constructed_spec (bufferIOSize : Int) (packetDataSize : UInt16) :
    Valid (constructed bufferIOSize packetDataSize) ∧
      contents (constructed bufferIOSize packetDataSize) = [] := by
  obtain ⟨valid, empty, -⟩ := SFPacketProtocol.allocated_spec bufferIOSize packetDataSize
  exact ⟨valid, empty⟩

theorem receive_atomic_iff (bufferIOSize : Int) (packetDataSize : UInt16)
    (history : List RingCall) (ring : SFIOBuffer)
    (run : Run RingSteps (constructed bufferIOSize packetDataSize) history ring) :
    Atomic ring (SFPacketProtocol.clampSizes bufferIOSize packetDataSize).2 ↔
      headerSize ≤ (SFPacketProtocol.clampSizes bufferIOSize packetDataSize).2.toNat ∨
        ring.iUsedBufferSize < headerSize := by
  have valid := ringRun_valid (constructed_spec bufferIOSize packetDataSize).1 run
  constructor
  · intro atomic
    by_cases small : headerSize ≤ (SFPacketProtocol.clampSizes bufferIOSize packetDataSize).2.toNat
    · exact .inl small
    · exact .inr (size_of_atomic valid atomic (by omega))
  · exact atomic_of_size valid

/-- A ring of 24 bytes that wraps: a frame was taken and the next one lies across the end. -/
def wrapCalls : List RingCall :=
  [.appendData (Frame.bytes ⟨{ packetID := 1, dataSize := 6 }, [1, 2, 3, 4, 5, 6]⟩),
    .getPacket {} 12 24, .appendData (Frame.bytes ⟨{ packetID := 2, dataSize := 2 }, [7, 8]⟩)]

theorem receive_atomic_wrapped :
    ∃ ring, Run RingSteps (constructed 24 24) wrapCalls ring ∧ ring.iTail < ring.iHead ∧
      Atomic ring (SFPacketProtocol.clampSizes 24 24).2 := by
  have plays : wrapCalls.foldlM RingCall.run (constructed 24 24) =
      some ⟨18, 8, 24,
        [0, 0, 0, 0, 2, 0, 7, 8, 0, 0, 6, 0, 1, 2, 3, 4, 5, 6, 2, 0, 0, 0, 0, 0], 14⟩ := by
    decide
  have run := Run.of_foldlM _ _ plays
  have step : (fun ring call after => RingCall.run ring call = some after) = RingSteps := rfl
  rw [step] at run
  exact ⟨_, run, by decide, (receive_atomic_iff 24 24 wrapCalls _ run).mpr (.inl (by decide))⟩

/-- A connection with packets of at most 8 bytes takes a frame of 14. -/
theorem smallPacket_not_atomic :
    ∃ ring answer, Run RingSteps (constructed 64 8)
        [.appendData (Frame.bytes ⟨{ packetID := 1, dataSize := 2 }, [7, 8]⟩)] ring ∧
      (SFPacketProtocol.clampSizes 64 8).2 = 8 ∧
      getPacket ring {} SFPacket.dataCapacity 8 = some answer ∧ answer.found = true ∧
      answer.data = [7, 8] ∧ ¬ Atomic ring 8 := by
  let ring : SFIOBuffer := ⟨0, 14, 64,
    [1, 0, 0, 0, 0, 0, 0, 0, 0, 0, 2, 0, 7, 8] ++ List.replicate 50 0, 14⟩
  have plays : [RingCall.appendData
      (Frame.bytes ⟨{ packetID := 1, dataSize := 2 }, [7, 8]⟩)].foldlM RingCall.run
      (constructed 64 8) = some ring := by
    decide
  have run := Run.of_foldlM _ _ plays
  refine ⟨ring, ⟨{ ring with iHead := 14, iUsedBufferSize := 0 }, { packetID := 1, dataSize := 2 },
    [7, 8], packetIOErrorNone, true⟩, run, by decide, by decide, rfl, rfl, ?_⟩
  intro atomic
  have short := size_of_atomic (ringRun_valid (constructed_spec 64 8).1 run) atomic (by decide)
  exact absurd short (by decide)

end SFPacketIOBuffer

end Cgsf.Proof.Engine
