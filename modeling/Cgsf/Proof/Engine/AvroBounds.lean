import Cgsf.Engine.BufferProtocols
import Cgsf.Proof.Engine.Atomicity

/-!
# The limits of the Avro protocol

The ring takes frames up to the packet size, `GetPacket` reads them into a local buffer of its own
size, and `Encode` writes packets of any size to a buffer of the packet size. The front of the ring
decides what `GetPacket` does with these.
-/

namespace Cgsf.Proof.Engine
open Cgsf.Engine Library

namespace SFPacketIOBuffer
open Cgsf.Engine.SFPacketIOBuffer SFIOBuffer

variable {ring : SFIOBuffer}

/-- The ring begins with a frame whose data is all there. -/
def Complete (ring : SFIOBuffer) : Prop :=
  headerSize ≤ ring.iUsedBufferSize ∧
    headerSize + (Frame.frontHeader (contents ring)).dataSize.toNat ≤ ring.iUsedBufferSize

instance (ring : SFIOBuffer) : Decidable (Complete ring) := inferInstanceAs (Decidable (_ ∧ _))

/-- `GetPacket` leaves the caller's buffer exactly with a complete frame that passes the size
check and is longer than that buffer. -/
theorem getPacket_isSome_iff (valid : Valid ring) (header : SFPacketHeader) (capacity : Nat)
    (packetSize : UInt16) :
    (getPacket ring header capacity packetSize).isSome = true ↔
      ¬ (Complete ring ∧
        capacity < (Frame.frontHeader (contents ring)).dataSize.toNat ∧
        (Frame.frontHeader (contents ring)).dataSize.toNat ≤
          unsignedSub packetSize.toNat headerSize) := by
  by_cases long : headerSize ≤ ring.iUsedBufferSize
  · by_cases fits : (Frame.frontHeader (contents ring)).dataSize.toNat ≤
        unsignedSub packetSize.toNat headerSize
    · by_cases complete : headerSize + (Frame.frontHeader (contents ring)).dataSize.toNat ≤
          ring.iUsedBufferSize
      · by_cases room : (Frame.frontHeader (contents ring)).dataSize.toNat ≤ capacity
        · obtain ⟨answer, run, -⟩ := getPacket_takes valid fits complete header capacity room
          rw [run]
          exact iff_of_true rfl fun both => absurd both.2.1 (Nat.not_lt.mpr room)
        · obtain ⟨after, run, valid', rest, used, -⟩ :=
            getPacket_body valid long header capacity packetSize
          obtain ⟨last, read, -⟩ := getData_spec valid'
            (Frame.frontHeader (contents ring)).dataSize.toNat (by omega)
          have taken := valid'.length_take
            (show (Frame.frontHeader (contents ring)).dataSize.toNat ≤ after.iUsedBufferSize by
              omega)
          rw [run, getBody, if_neg (by omega), if_neg (by omega), read, Option.bind_eq_bind,
            Option.bind_some]
          dsimp only
          rw [if_pos (by omega)]
          exact iff_of_false Bool.false_ne_true
            fun none => none ⟨⟨long, complete⟩, Nat.not_le.mp room, fits⟩
      · rw [getPacket_waits valid long fits (by omega)]
        exact iff_of_true rfl fun both => complete both.1.2
    · rw [getPacket_refuses valid long (by omega)]
      exact iff_of_true rfl fun both => fits both.2.2
  · rw [getPacket_short (by omega)]
    exact iff_of_true rfl fun both => long both.1.1

end SFPacketIOBuffer

namespace SFAvroProtocol
open Cgsf.Engine.SFAvroProtocol SFIOBuffer SFPacketIOBuffer

variable (createIncomingPacketFromPacketId : UInt16 → Option SFAvroPacket)

/-- The calls that a connection makes of its analyzer. -/
inductive AvroCall where
  | reset
  | addTransferredData (data : List UInt8)
  | getPacket
  | encode (p : SFAvroPacket)
  deriving DecidableEq, Repr

def AvroCall.run (t : SFAvroProtocol) : AvroCall → Option SFAvroProtocol
  | reset => some t.reset
  | addTransferredData data => (t.addTransferredData data).map Prod.fst
  | getPacket =>
      (Cgsf.Engine.SFAvroProtocol.getPacket createIncomingPacketFromPacketId t).map Prod.fst
  | encode p => (Cgsf.Engine.SFAvroProtocol.encode t p).map Prod.fst

abbrev AvroSteps (t : SFAvroProtocol) (call : AvroCall) (t' : SFAvroProtocol) : Prop :=
  call.run createIncomingPacketFromPacketId t = some t'

structure Sized (packetSize : UInt16) (t : SFAvroProtocol) : Prop where
  ring : Valid t.packetIOBuffer
  limit : t.packetSize = packetSize
  buffer : t.buffer.length = packetSize.toNat

variable {createIncomingPacketFromPacketId} {packetSize : UInt16} {t t' : SFAvroProtocol}

theorem length_write? {buf buf' : List UInt8} {offset : Nat} {xs : List UInt8}
    (written : write? buf offset xs = some buf') : buf'.length = buf.length := by
  obtain ⟨inside, rfl⟩ := write?_eq_some.mp written
  exact splice_length buf offset xs inside

/-- `Encode` faults only where the header or the packet does not fit the buffer. -/
theorem encode_isSome_iff (p : SFAvroPacket) :
    (t.encode p).isSome = true ↔ headerSize + p.getBufferSize ≤ t.buffer.length := by
  have image : p.header.bytes.length = headerSize := SFPacketHeader.length_bytes _
  rw [SFAvroProtocol.encode]
  constructor
  · intro runs
    obtain ⟨r, runs⟩ := Option.isSome_iff_exists.mp runs
    obtain ⟨first, one, runs⟩ := Option.bind_eq_some_iff.mp runs
    obtain ⟨second, two, -⟩ := Option.bind_eq_some_iff.mp runs
    rw [← length_write? one]
    exact (write?_eq_some.mp two).1
  · intro room
    obtain ⟨first, one, length⟩ := write?_fits t.buffer 0 p.header.bytes (by omega)
    obtain ⟨second, two, length'⟩ :=
      write?_fits first headerSize p.packet (by rw [length]; exact room)
    obtain ⟨third, three, length''⟩ := write?_fits second 10 (leBytes 2 p.getBufferSize)
      (by rw [leBytes_length]; rw [headerSize] at room; omega)
    rw [one, Option.bind_some, two, Option.bind_some, three, Option.bind_some, read?,
      if_pos (by omega)]
    rfl

theorem getPacket_sized {error : Int} {found : Option SFAvroPacket} (sized : Sized packetSize t)
    (run : t.getPacket createIncomingPacketFromPacketId = some (t', error, found)) :
    Sized packetSize t' := by
  obtain ⟨r, header, run⟩ := Option.bind_eq_some_iff.mp run
  have ring := getHeader_valid sized.ring header
  dsimp only at run
  split at run
  · obtain ⟨r', body, run⟩ := Option.bind_eq_some_iff.mp run
    have ring' := getPacket_valid ring body
    split at run
    · obtain ⟨p, -, run⟩ := Option.map_eq_some_iff.mp run
      obtain ⟨rfl, -⟩ := Prod.mk.inj run
      exact ⟨ring', sized.limit, sized.buffer⟩
    · obtain ⟨rfl, -⟩ := Prod.mk.inj (Option.some.inj run)
      exact ⟨ring', sized.limit, sized.buffer⟩
  · obtain ⟨rfl, -⟩ := Prod.mk.inj (Option.some.inj run)
    exact ⟨ring, sized.limit, sized.buffer⟩

theorem call_sized {call : AvroCall} (sized : Sized packetSize t)
    (step : AvroSteps createIncomingPacketFromPacketId t call t') : Sized packetSize t' := by
  cases call with
  | reset =>
      obtain rfl := Option.some.inj step
      exact ⟨initIOBuf_valid sized.ring, sized.limit, sized.buffer⟩
  | addTransferredData data =>
      obtain ⟨ring', added, run, valid⟩ := appendData_valid sized.ring data
      rw [AvroSteps, AvroCall.run, addTransferredData, run] at step
      obtain rfl := Option.some.inj step
      exact ⟨valid, sized.limit, sized.buffer⟩
  | getPacket =>
      obtain ⟨⟨r, error, found⟩, run, rfl⟩ := Option.map_eq_some_iff.mp step
      exact getPacket_sized sized run
  | encode p =>
      obtain ⟨r, run, rfl⟩ := Option.map_eq_some_iff.mp step
      obtain ⟨first, one, run⟩ := Option.bind_eq_some_iff.mp run
      obtain ⟨second, two, run⟩ := Option.bind_eq_some_iff.mp run
      obtain ⟨third, three, run⟩ := Option.bind_eq_some_iff.mp run
      obtain ⟨bytes, -, rfl⟩ := Option.map_eq_some_iff.mp run
      refine ⟨sized.ring, sized.limit, ?_⟩
      rw [length_write? three, length_write? two, length_write? one, sized.buffer]

/-- The analyzer that the constructor makes of its sizes. -/
def constructed (bufferIOSize : Int) (packetDataSize : UInt16) (packetOption : UInt32) :
    SFAvroProtocol :=
  let sizes := SFPacketProtocol.clampSizes bufferIOSize packetDataSize
  initProtocol sizes.1 sizes.2 packetOption

theorem construct_constructed (bufferIOSize : Int) (packetDataSize : UInt16)
    (packetOption : UInt32) :
    SFPacketProtocol.construct (analyzer createIncomingPacketFromPacketId) bufferIOSize
      packetDataSize packetOption =
        some (constructed bufferIOSize packetDataSize packetOption) := rfl

theorem constructed_sized (bufferIOSize : Int) (packetDataSize : UInt16) (packetOption : UInt32) :
    Sized (SFPacketProtocol.clampSizes bufferIOSize packetDataSize).2
      (constructed bufferIOSize packetDataSize packetOption) :=
  ⟨(SFPacketIOBuffer.constructed_spec bufferIOSize packetDataSize).1, rfl, List.length_replicate⟩

variable (createIncomingPacketFromPacketId)

/-- `GetPacket` keeps to its local buffer, and a complete frame with an id that is not known is
delivered or consumed with an error. -/
structure Gets (t : SFAvroProtocol) : Prop where
  inside : ∀ r p, SFPacketIOBuffer.getHeader t.packetIOBuffer {} = some r → r.found = true →
    createIncomingPacketFromPacketId r.header.packetID = some p →
    (SFPacketIOBuffer.getPacket r.ring r.header dataBufferSize t.packetSize).isSome = true
  unknown : Complete t.packetIOBuffer →
    createIncomingPacketFromPacketId (Frame.frontHeader (contents t.packetIOBuffer)).packetID =
      none →
    ∃ t' error found,
      t.getPacket createIncomingPacketFromPacketId = some (t', error, found) ∧
      (found.isSome = true ∨ error ≠ packetIOErrorNone ∧
        contents t'.packetIOBuffer = (contents t.packetIOBuffer).drop
          (headerSize + (Frame.frontHeader (contents t.packetIOBuffer)).dataSize.toNat))

/-- The front of the ring is a complete frame with an id that is not known, or with one that is
known and with data that passes the size check and is longer than the local buffer. -/
def Stuck (t : SFAvroProtocol) : Prop :=
  let header := Frame.frontHeader (contents t.packetIOBuffer)
  Complete t.packetIOBuffer ∧
    (createIncomingPacketFromPacketId header.packetID = none ∨
      dataBufferSize < header.dataSize.toNat ∧
        header.dataSize.toNat ≤ unsignedSub t.packetSize.toNat headerSize)

instance (t : SFAvroProtocol) : Decidable (Stuck createIncomingPacketFromPacketId t) :=
  inferInstanceAs (Decidable (_ ∧ _))

variable {createIncomingPacketFromPacketId}

/-- `GetPacket` answers nothing, reports nothing and changes nothing. -/
theorem getPacket_unknown (valid : Valid t.packetIOBuffer)
    (long : headerSize ≤ t.packetIOBuffer.iUsedBufferSize)
    (unknown : createIncomingPacketFromPacketId
      (Frame.frontHeader (contents t.packetIOBuffer)).packetID = none) :
    t.getPacket createIncomingPacketFromPacketId = some (t, packetIOErrorNone, none) := by
  rw [SFAvroProtocol.getPacket, getHeader_found valid long, Option.bind_some]
  simp only [unknown]

theorem gets_iff (sized : Sized packetSize t) :
    Gets createIncomingPacketFromPacketId t ↔ ¬ Stuck createIncomingPacketFromPacketId t := by
  have valid := sized.ring
  constructor
  · rintro gets ⟨complete, front⟩
    cases known : createIncomingPacketFromPacketId
        (Frame.frontHeader (contents t.packetIOBuffer)).packetID with
    | none =>
        obtain ⟨t', error, found, run, either⟩ := gets.unknown complete known
        rw [getPacket_unknown valid complete.1 known] at run
        obtain ⟨rfl, same⟩ := Prod.mk.inj (Option.some.inj run)
        obtain ⟨rfl, rfl⟩ := Prod.mk.inj same
        rcases either with delivered | ⟨reported, -⟩
        · cases delivered
        · exact reported rfl
    | some p =>
        have inside := gets.inside _ p (getHeader_found valid complete.1 {}) rfl known
        have outside := front.resolve_left (by rw [known]; exact Option.some_ne_none p)
        exact (getPacket_isSome_iff valid _ _ _).mp inside ⟨complete, outside⟩
  · intro free
    refine ⟨fun r p run found known => ?_, fun complete unknown => ?_⟩
    · by_cases long : headerSize ≤ t.packetIOBuffer.iUsedBufferSize
      · rw [getHeader_found valid long] at run
        obtain rfl := Option.some.inj run
        exact (getPacket_isSome_iff valid _ _ _).mpr fun both => free ⟨both.1, .inr both.2⟩
      · rw [getHeader_short (by omega)] at run
        obtain rfl := Option.some.inj run
        contradiction
    · exact absurd ⟨complete, .inl unknown⟩ free

theorem getPacket_same {start : SFAvroProtocol} (sized : Sized packetSize start)
    (long : headerSize ≤ start.packetIOBuffer.iUsedBufferSize)
    (unknown : createIncomingPacketFromPacketId
      (Frame.frontHeader (contents start.packetIOBuffer)).packetID = none)
    (sized' : Sized packetSize t)
    (front : contents start.packetIOBuffer <+: contents t.packetIOBuffer) :
    t.getPacket createIncomingPacketFromPacketId = some (t, packetIOErrorNone, none) := by
  have enough : headerSize ≤ (contents start.packetIOBuffer).length := by
    rw [sized.ring.length_contents]
    exact long
  have longer := front.length_le
  rw [sized.ring.length_contents, sized'.ring.length_contents] at longer
  obtain ⟨more, split⟩ := front
  refine getPacket_unknown sized'.ring (long.trans longer) ?_
  rw [← split, Frame.frontHeader_append _ more enough]
  exact unknown

/-- However much data arrives and however often `GetPacket` is called, the frame stays in front and
`GetPacket` answers nothing. -/
theorem unknown_retried {start : SFAvroProtocol} (sized : Sized packetSize start)
    (long : headerSize ≤ start.packetIOBuffer.iUsedBufferSize)
    (unknown : createIncomingPacketFromPacketId
      (Frame.frontHeader (contents start.packetIOBuffer)).packetID = none)
    {history : List AvroCall}
    (receives : ∀ call ∈ history, call = .getPacket ∨ ∃ data, call = .addTransferredData data)
    (run : Run (AvroSteps createIncomingPacketFromPacketId) start history t) :
    t.getPacket createIncomingPacketFromPacketId = some (t, packetIOErrorNone, none) := by
  suffices kept : Sized packetSize t ∧
      contents start.packetIOBuffer <+: contents t.packetIOBuffer from
    getPacket_same sized long unknown kept.1 kept.2
  induction run with
  | start => exact ⟨sized, List.prefix_refl _⟩
  | @next history before after call _ step ih =>
      obtain ⟨sized', front⟩ := ih fun c member => receives c (List.mem_append_left _ member)
      refine ⟨call_sized sized' step, ?_⟩
      rcases receives call (List.mem_append_right _ (List.mem_singleton_self _)) with
        rfl | ⟨data, rfl⟩
      · rw [AvroSteps, AvroCall.run, getPacket_same sized long unknown sized' front] at step
        obtain rfl := Option.some.inj step
        exact front
      · by_cases room : before.packetIOBuffer.iUsedBufferSize + data.length <
            before.packetIOBuffer.iBufSize
        · obtain ⟨ring', run, -, longer, -⟩ := appendData_room sized'.ring data room
          rw [AvroSteps, AvroCall.run, addTransferredData, run] at step
          obtain rfl := Option.some.inj step
          exact front.trans ⟨data, longer.symm⟩
        · rw [AvroSteps, AvroCall.run, addTransferredData,
            appendData_full _ data (Nat.not_lt.mp room)] at step
          obtain rfl := Option.some.inj step
          exact front

theorem avro_safe_iff (createIncomingPacketFromPacketId : UInt16 → Option SFAvroPacket)
    (bufferIOSize : Int) (packetDataSize : UInt16) (packetOption : UInt32)
    (history : List AvroCall) (t : SFAvroProtocol)
    (run : Run (AvroSteps createIncomingPacketFromPacketId)
      (constructed bufferIOSize packetDataSize packetOption) history t) :
    (Gets createIncomingPacketFromPacketId t ↔ ¬ Stuck createIncomingPacketFromPacketId t) ∧
      ∀ p, (t.encode p).isSome = true ↔ headerSize + p.getBufferSize ≤ t.packetSize.toNat := by
  have sized := run.invariant
    (constructed_sized bufferIOSize packetDataSize packetOption) fun _ _ _ => call_sized
  refine ⟨gets_iff sized, fun p => ?_⟩
  rw [encode_isSome_iff, sized.buffer, sized.limit]

/-- One class of packets, with id 1 and 4 bytes. -/
def sampleFactory (packetID : UInt16) : Option SFAvroPacket :=
  if packetID = 1 then some { packet := [0, 0, 0, 0], packetID := 1 } else none

def sampleCalls : List AvroCall :=
  [.addTransferredData (Frame.bytes ⟨{ packetID := 1, dataSize := 4 }, [5, 6, 7, 8]⟩), .getPacket,
    .encode { packet := [5, 6, 7, 8], packetID := 1 }]

theorem sampleCalls_safe :
    ∃ t, Run (AvroSteps sampleFactory) (constructed 32 32 0) sampleCalls t ∧
      Gets sampleFactory t ∧
      (t.encode { packet := List.replicate 20 0 }).isSome = true := by
  let t : SFAvroProtocol :=
    { constructed 32 32 0 with
      packetIOBuffer := ⟨16, 16, 32,
        [1, 0, 0, 0, 0, 0, 0, 0, 0, 0, 4, 0, 5, 6, 7, 8] ++ List.replicate 16 0, 0⟩
      buffer := [0, 0, 0, 0, 0, 0, 0, 0, 0, 0, 4, 0, 5, 6, 7, 8] ++ List.replicate 16 0 }
  have plays : sampleCalls.foldlM (AvroCall.run sampleFactory) (constructed 32 32 0) = some t := by
    decide +kernel
  have run := Run.of_foldlM _ _ plays
  have safe := avro_safe_iff sampleFactory 32 32 0 sampleCalls t run
  exact ⟨t, run, safe.1.mpr (by decide), (safe.2 _).mpr (by decide)⟩

/-- A connection that has received one frame, for the factory of the connection. -/
theorem received_frame (createIncomingPacketFromPacketId : UInt16 → Option SFAvroPacket)
    (bufferIOSize : Int) (packetDataSize : UInt16) (f : Frame) (wellFormed : f.WellFormed)
    (room : f.bytes.length < (constructed bufferIOSize packetDataSize 0).packetIOBuffer.iBufSize) :
    ∃ t, Run (AvroSteps createIncomingPacketFromPacketId)
        (constructed bufferIOSize packetDataSize 0) [.addTransferredData f.bytes] t ∧
      Sized (SFPacketProtocol.clampSizes bufferIOSize packetDataSize).2 t ∧
      Complete t.packetIOBuffer ∧ Frame.frontHeader (contents t.packetIOBuffer) = f.header := by
  have sized := constructed_sized bufferIOSize packetDataSize 0
  have empty : contents (constructed bufferIOSize packetDataSize 0).packetIOBuffer = [] :=
    (SFPacketIOBuffer.constructed_spec bufferIOSize packetDataSize).2
  have used := sized.ring.length_contents
  rw [empty, List.length_nil] at used
  obtain ⟨ring', run, valid, filled, -⟩ :=
    appendData_room sized.ring f.bytes (by rw [← used, Nat.zero_add]; exact room)
  rw [empty, List.nil_append] at filled
  have step : AvroSteps createIncomingPacketFromPacketId
      (constructed bufferIOSize packetDataSize 0) (.addTransferredData f.bytes)
      { constructed bufferIOSize packetDataSize 0 with packetIOBuffer := ring' } := by
    rw [AvroSteps, AvroCall.run, addTransferredData, run]
    rfl
  have front : Frame.frontHeader (contents ring') = f.header := by
    rw [filled, ← List.append_nil f.bytes, Frame.frontHeader_front]
  have length : ring'.iUsedBufferSize = headerSize + f.payload.length := by
    rw [← valid.length_contents, filled, Frame.length_bytes]
  rw [Frame.WellFormed] at wellFormed
  refine ⟨_, .next .start step, call_sized sized step, ⟨?_, ?_⟩, front⟩
  · dsimp only
    omega
  · dsimp only
    rw [front]
    omega

/-- A frame of an unknown class, one that is longer than the local buffer, and a packet that is
longer than the buffer of `Encode`. -/
theorem limits_missed :
    (∃ t, Run (AvroSteps sampleFactory) (constructed 32 32 0)
        [.addTransferredData (Frame.bytes ⟨{ packetID := 2 }, []⟩)] t ∧ ¬ Gets sampleFactory t) ∧
    (∃ t, Run (AvroSteps sampleFactory) (constructed 16384 8192 0)
        [.addTransferredData (Frame.bytes
          ⟨{ packetID := 1, dataSize := 8097 }, List.replicate 8097 0⟩)] t ∧
      ¬ Gets sampleFactory t) ∧
    (constructed 32 16 0).encode { packet := List.replicate 8 0 } = none := by
  refine ⟨?_, ?_, by decide⟩
  · obtain ⟨t, run, sized, complete, front⟩ :=
      received_frame sampleFactory 32 32 ⟨{ packetID := 2 }, []⟩ (by decide) (by decide)
    refine ⟨t, run, (gets_iff sized).not.mpr (not_not_intro ⟨complete, .inl ?_⟩)⟩
    rw [front]
    rfl
  · obtain ⟨t, run, sized, complete, front⟩ := received_frame sampleFactory 16384 8192
      ⟨{ packetID := 1, dataSize := 8097 }, List.replicate 8097 0⟩
      (by rw [Frame.WellFormed, List.length_replicate]; rfl)
      (by rw [Frame.length_bytes, List.length_replicate]; decide)
    refine ⟨t, run, (gets_iff sized).not.mpr (not_not_intro ⟨complete, .inr ?_⟩)⟩
    rw [front, sized.limit]
    decide

end SFAvroProtocol

end Cgsf.Proof.Engine
