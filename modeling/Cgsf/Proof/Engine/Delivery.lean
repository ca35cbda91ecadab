import Cgsf.Proof.Engine.Receive

/-! # What a CGSF connection delivers, and under which packet id -/

namespace Cgsf.Proof.Engine.SFCGSFPacketProtocol
open Cgsf.Engine Library Cgsf.Engine.SFCGSFPacketProtocol Cgsf.Engine.SFPacketProtocol

/-- The ring that the constructor allocates. -/
def ringSize (bufferIOSize : Int) : Nat :=
  if bufferIOSize ≤ 0 then maxIOSize else min bufferIOSize.toNat maxIOSize

theorem construct_spec (codec : Codec) (bufferIOSize : Int) (packetDataSize : UInt16)
    (packetOption : UInt32) :
    ∃ t, construct (analyzer codec) bufferIOSize packetDataSize packetOption = some t ∧ Valid t ∧
      contents t = [] ∧ t.packetSize = (clampSizes bufferIOSize packetDataSize).2 ∧
      capacity t = ringSize bufferIOSize := by
  obtain ⟨valid, empty, size⟩ := SFPacketProtocol.allocated_spec bufferIOSize packetDataSize
  exact ⟨_, rfl, valid, empty, rfl, size⟩

variable (codec : Codec) (serial : Int) (desc : SessionDesc)

/-- The stream of `frames`, however it is cut, comes out as those frames if and only if each of
them fits the packet size the constructor settled on and no chunk arrives while the unfinished
frame before it leaves too little of the ring. -/
theorem reassembles_iff (bufferIOSize : Int) (packetDataSize : UInt16) (packetOption : UInt32)
    (pool : PacketPool) (frames : List Frame) (chunks : List (List UInt8))
    (wellFormed : ∀ f ∈ frames, f.WellFormed) (nonempty : ∀ chunk ∈ chunks, chunk ≠ [])
    (cut : chunks.flatten = frames.flatMap Frame.bytes) :
    (∃ t, construct (analyzer codec) bufferIOSize packetDataSize packetOption = some t ∧
        Delivers codec serial desc pool t chunks frames) ↔
      (∀ f ∈ frames, Frame.Fits (clampSizes bufferIOSize packetDataSize).2 f.payload.length) ∧
        Roomy (frames.map fun f => f.bytes.length) (ringSize bufferIOSize) 0 chunks := by
  obtain ⟨t, made, valid, empty, packetSize, size⟩ :=
    construct_spec codec bufferIOSize packetDataSize packetOption
  rw [made, ← packetSize, ← size,
    ← delivers_iff_roomy codec serial desc pool valid empty frames chunks wellFormed nonempty cut]
  simp

def hello : Frame := ⟨{ packetID := 7, dataSize := 3 }, [1, 2, 3]⟩

theorem reassembles_two_chunks :
    ∃ t, construct (analyzer Codec.checksumOnly) 8192 4096 0 = some t ∧
      Delivers Codec.checksumOnly 1 {} ⟨[]⟩ t
        [hello.bytes ++ hello.bytes.take 5, hello.bytes.drop 5] [hello, hello] :=
  (reassembles_iff Codec.checksumOnly 1 {} 8192 4096 0 ⟨[]⟩ [hello, hello]
    [hello.bytes ++ hello.bytes.take 5, hello.bytes.drop 5] (by decide) (by decide)
    (by decide)).mpr ⟨by decide, by decide⟩

/-- A frame as large as the ring is dropped, and nothing reports it. -/
theorem frame_of_ring_size_lost :
    ¬ ∀ (bufferIOSize : Int) (packetDataSize : UInt16) (packetOption : UInt32)
        (frames : List Frame) (chunks : List (List UInt8)),
      (∀ f ∈ frames, f.WellFormed ∧ f.bytes.length ≤ packetDataSize.toNat) →
      (∀ chunk ∈ chunks, chunk ≠ [] ∧ chunk.length ≤ 2048) →
      chunks.flatten = frames.flatMap Frame.bytes →
      ∃ t, construct (analyzer Codec.checksumOnly) bufferIOSize packetDataSize packetOption =
          some t ∧
        Delivers Codec.checksumOnly 1 {} ⟨[]⟩ t chunks frames := by
  intro all
  let big : Frame := ⟨{ packetID := 7, dataSize := 12 }, List.replicate 12 1⟩
  obtain ⟨t, made, r, run, -, sent⟩ := all 24 24 0 [big] [big.bytes] (by decide) (by decide) rfl
  obtain rfl : initProtocol 24 24 0 = t := Option.some.inj made
  have dropped : (receiveAll (analyzer Codec.checksumOnly) 1 {} ⟨[]⟩ (initProtocol 24 24 0)
      [big.bytes]).map (fun r => r.sent) = some [] := by decide
  rw [run, Option.map_some] at dropped
  rw [Option.some.inj dropped] at sent
  contradiction

/-- A ring with room for a largest frame and a largest chunk loses nothing: the configurations
that the samples use are of this kind. -/
theorem reassembles_of_room (bufferIOSize : Int) (packetDataSize : UInt16) (packetOption : UInt32)
    (pool : PacketPool) (frames : List Frame) (chunks : List (List UInt8))
    (header : headerSize ≤ packetDataSize.toNat) (packet : packetDataSize.toNat ≤ maxPacketSize)
    (ring : packetDataSize.toNat + 2048 ≤ bufferIOSize) (most : bufferIOSize ≤ maxIOSize)
    (wellFormed : ∀ f ∈ frames, f.WellFormed ∧ f.bytes.length ≤ packetDataSize.toNat)
    (cutting : ∀ chunk ∈ chunks, chunk ≠ [] ∧ chunk.length ≤ 2048)
    (cut : chunks.flatten = frames.flatMap Frame.bytes) :
    ∃ t, construct (analyzer codec) bufferIOSize packetDataSize packetOption = some t ∧
      Delivers codec serial desc pool t chunks frames := by
  obtain ⟨t, made, valid, empty, packetSize, size⟩ :=
    construct_spec codec bufferIOSize packetDataSize packetOption
  have settled : (clampSizes bufferIOSize packetDataSize).2 = packetDataSize := by
    simp only [clampSizes, apply_ite Prod.snd]
    rw [if_neg (Nat.not_lt.mpr packet), if_neg (by omega : ¬ bufferIOSize > maxIOSize),
      if_neg (by omega)]
  rw [headerSize] at header
  rw [maxPacketSize] at packet
  refine ⟨t, made, (delivers_iff_roomy codec serial desc pool valid empty frames chunks
    (fun f member => (wellFormed f member).1) (fun chunk member => (cutting chunk member).1)
    cut).mpr ⟨?_, ?_⟩⟩
  · intro f member
    have length := (wellFormed f member).2
    rw [Frame.length_bytes, headerSize] at length
    rw [packetSize, settled, Frame.Fits, unsignedSub, headerSize, SFPacket.dataCapacity,
      maxPacketSize, headerSize, if_pos (by omega)]
    omega
  · refine roomy_of_bound _ packetDataSize.toNat 2048 _ 0 chunks (by omega) ?_
      (fun chunk member => (cutting chunk member).2) ?_ ?_
    · intro length member
      obtain ⟨f, listed, rfl⟩ := List.mem_map.mp member
      exact (wellFormed f listed).2
    · rw [size, ringSize, if_neg (by omega), maxIOSize] at *
      omega
    · rw [cut, List.length_flatMap]
      omega

/-- The id and the type the logic layer sees are those of the header on the wire. -/
def Tagged (p : SFPacket) : Prop :=
  p.packetID = p.header.packetID ∧
    (p.packetType = .rpc ↔ p.header.packetID = sfpacketRPCPacket)

instance (p : SFPacket) : Decidable (Tagged p) := inferInstanceAs (Decidable (_ ∧ _))

/-- Chunks of one connection, each with the packet pool as the rest of the program left it. -/
def receiveHistory : SFCGSFPacketProtocol → List (PacketPool × List UInt8) → Option (List SFPacket)
  | _, [] => some []
  | t, (pool, chunk) :: history => do
      let now ← onReceive (analyzer codec) serial desc pool t chunk
      if now.ok then
        let later ← receiveHistory now.analyzer history
        return now.sent ++ later
      else return now.sent

/-- Object by object, the waiting packet objects already carry the ids of the frames. -/
def CarryIDs : List SFPacket → List Frame → Prop
  | _, [] => True
  | queue, f :: frames =>
      (queue.headD {}).packetID = f.header.packetID ∧ CarryIDs queue.tail frames

instance decidableCarryIDs :
    (queue : List SFPacket) → (frames : List Frame) → Decidable (CarryIDs queue frames)
  | _, [] => isTrue trivial
  | queue, _ :: frames =>
      have := decidableCarryIDs queue.tail frames
      inferInstanceAs (Decidable (_ ∧ _))

/-- At each chunk, the pool hands out objects that carry the ids of the frames it completes. -/
def ObjectsCarryIDs (packetSize : UInt16) (size : Nat) :
    List UInt8 → List (PacketPool × List UInt8) → Prop
  | _, [] => True
  | pending, (pool, chunk) :: history =>
      let now := (framing packetSize).drain (Deframer.buffer size pending chunk)
      CarryIDs pool.queue now.frames ∧
        (now.sound = true → ObjectsCarryIDs packetSize size now.rest history)

theorem tagged_tag_load (p : SFPacket) (f : Frame) :
    Tagged (tag codec serial desc (load p f)) ↔ p.packetID = f.header.packetID := by
  have type : (tag codec serial desc (load p f)).packetType =
      if p.packetID = sfpacketRPCPacket then .rpc else .data := rfl
  constructor
  · exact fun tagged => tagged.1
  · intro same
    refine ⟨same, ?_⟩
    rw [type, same]
    change _ ↔ f.header.packetID = _
    split <;> simp [*]

theorem tagged_deliver (queue : List SFPacket) (frames : List Frame) :
    (∀ p ∈ deliver codec serial desc queue frames, Tagged p) ↔ CarryIDs queue frames := by
  induction frames generalizing queue with
  | nil => simp [deliver, CarryIDs]
  | cons f frames ih =>
      rw [deliver, List.forall_mem_cons, tagged_tag_load, ih]
      rfl

theorem history_tagged (history : List (PacketPool × List UInt8)) {t : SFCGSFPacketProtocol}
    (valid : Valid t) (sent : List SFPacket)
    (run : receiveHistory codec serial desc t history = some sent) :
    (∀ p ∈ sent, Tagged p) ↔ ObjectsCarryIDs t.packetSize (capacity t) (contents t) history := by
  induction history generalizing t sent with
  | nil =>
      obtain rfl : [] = sent := Option.some.inj run
      simp [ObjectsCarryIDs]
  | cons event history ih =>
      obtain ⟨pool, chunk⟩ := event
      have receives := onReceive_receives codec serial desc pool valid chunk
      rw [ObjectsCarryIDs]
      rw [receiveHistory] at run
      generalize (framing t.packetSize).drain
          (Deframer.buffer (capacity t) (contents t) chunk) = drained,
        onReceive (analyzer codec) serial desc pool t chunk = result at receives run ⊢
      cases receives with
      | sound now ring pool' valid' size =>
          obtain ⟨later, continued, rfl⟩ : ∃ later,
              receiveHistory codec serial desc { t with packetIOBuffer := ring } history =
                some later ∧ deliver codec serial desc pool.queue now ++ later = sent := by
            simpa [Option.bind_eq_some_iff] using run
          have step := ih (show Valid { t with packetIOBuffer := ring } from valid') later continued
          rw [show capacity { t with packetIOBuffer := ring } = capacity t from size] at step
          rw [List.forall_mem_append, tagged_deliver, step]
          simp [contents]
      | refused now rest t' pool' =>
          obtain rfl : deliver codec serial desc pool.queue now = sent := by simpa using run
          simp [tagged_deliver]
      | overrun now rest => simp at run

/-- Every packet a connection hands over is tagged with its own header's id if and only if every
object the pool hands out for it carried that id already. -/
theorem received_tagged_iff (bufferIOSize : Int) (packetDataSize : UInt16) (packetOption : UInt32)
    (history : List (PacketPool × List UInt8)) (sent : List SFPacket)
    (run : (construct (analyzer codec) bufferIOSize packetDataSize packetOption).bind
      (receiveHistory codec serial desc · history) = some sent) :
    (∀ p ∈ sent, Tagged p) ↔
      ObjectsCarryIDs (clampSizes bufferIOSize packetDataSize).2 (ringSize bufferIOSize) []
        history := by
  obtain ⟨t, made, valid, empty, packetSize, size⟩ :=
    construct_spec codec bufferIOSize packetDataSize packetOption
  rw [made, Option.bind_some] at run
  rw [history_tagged codec serial desc history valid sent run, empty, packetSize, size]

def sentHello (p : SFPacket) : SFPacket :=
  { load p hello with serial := 1, packetType := .data }

theorem received_tagged_reused_object :
    ObjectsCarryIDs (clampSizes 64 64).2 (ringSize 64) []
      [(⟨[{ packetID := 7 }]⟩, hello.bytes)] :=
  (received_tagged_iff Codec.checksumOnly 1 {} 64 64 0 [(⟨[{ packetID := 7 }]⟩, hello.bytes)]
    [sentHello { packetID := 7 }] (by decide)).mp (by decide)

/-- A new packet object reports the id 65535 for whatever frame it carries. -/
theorem new_object_not_tagged :
    ¬ ∀ (bufferIOSize : Int) (packetDataSize : UInt16) (packetOption : UInt32)
        (history : List (PacketPool × List UInt8)) (sent : List SFPacket),
      (construct (analyzer Codec.checksumOnly) bufferIOSize packetDataSize packetOption).bind
        (receiveHistory Codec.checksumOnly 1 {} · history) = some sent →
      ∀ p ∈ sent, Tagged p := by
  intro all
  have tagged := all 64 64 0 [(⟨[]⟩, hello.bytes)] [sentHello {}] (by decide)
  exact absurd tagged (by decide)

end Cgsf.Proof.Engine.SFCGSFPacketProtocol
