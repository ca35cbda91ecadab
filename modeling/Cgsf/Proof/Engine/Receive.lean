import Cgsf.Engine.Protocol
import Cgsf.Proof.Engine.PacketIOBuffer

/-!
# Receiving on a CGSF connection

`OnReceive` drains the ring with `framing`: the packets it hands over are the complete frames of
what the ring holds, each in the next object of the packet pool.
-/

namespace Cgsf.Proof.Engine
open Cgsf.Engine Library

namespace SFPacketProtocol
open Cgsf.Engine.SFPacketProtocol

variable {σ ω π : Type} {T : Analyzer σ ω π} {serial : Int} {desc : SessionDesc}
variable {w w' : ω} {t t' : σ} {iErrorCode iErrorCode' : Int}

theorem receiveLoop_fault (fuel : Nat) (action : T.getPacket w t iErrorCode = none) :
    receiveLoop T serial desc (fuel + 1) w t iErrorCode = none := by
  rw [receiveLoop, action]
  rfl

theorem receiveLoop_done (fuel : Nat)
    (action : T.getPacket w t iErrorCode = some (w', t', iErrorCode', none)) :
    receiveLoop T serial desc (fuel + 1) w t iErrorCode =
      some (⟨t', w', [], true⟩, iErrorCode') := by
  rw [receiveLoop, action]
  rfl

theorem receiveLoop_packet (fuel : Nat) {p : π}
    (action : T.getPacket w t iErrorCode = some (w', t', iErrorCode', some p)) :
    receiveLoop T serial desc (fuel + 1) w t iErrorCode =
      (receiveLoop T serial desc fuel w' t' iErrorCode').map fun r =>
        ({ r.1 with sent := tagPacket T serial desc p :: r.1.sent }, r.2) := by
  rw [receiveLoop, action]
  cases later : receiveLoop T serial desc fuel w' t' iErrorCode' with
  | none => simp [later]
  | some r => simp [later]

theorem onReceive_added {data : List UInt8}
    (added : T.addTransferredData t data = some (t', true)) :
    onReceive T serial desc w t data =
      (receiveLoop T serial desc (T.pending t' + 1) w t' packetIOErrorNone).map fun r =>
        { r.1 with ok := r.2 == packetIOErrorNone } := by
  rw [onReceive, added]
  cases loop : receiveLoop T serial desc (T.pending t' + 1) w t' packetIOErrorNone with
  | none => simp [loop]
  | some r => simp [loop]

theorem receiveAll_fault {data : List UInt8} (chunks : List (List UInt8))
    (action : onReceive T serial desc w t data = none) :
    receiveAll T serial desc w t (data :: chunks) = none := by
  rw [receiveAll, action]
  rfl

theorem receiveAll_refused {data : List UInt8} (chunks : List (List UInt8))
    {now : Received σ ω π} (action : onReceive T serial desc w t data = some now)
    (refused : now.ok = false) : receiveAll T serial desc w t (data :: chunks) = some now := by
  rw [receiveAll, action]
  simp [refused]

theorem receiveAll_ok {data : List UInt8} (chunks : List (List UInt8))
    {now : Received σ ω π} (action : onReceive T serial desc w t data = some now)
    (ok : now.ok = true) :
    receiveAll T serial desc w t (data :: chunks) =
      (receiveAll T serial desc now.shared now.analyzer chunks).map fun later =>
        { later with sent := now.sent ++ later.sent } := by
  rw [receiveAll, action]
  cases later : receiveAll T serial desc now.shared now.analyzer chunks with
  | none => simp [ok, later]
  | some r => simp [ok, later]

theorem clampSizes_le (bufferIOSize : Int) (packetDataSize : UInt16) :
    (clampSizes bufferIOSize packetDataSize).1 = min bufferIOSize maxIOSize := by
  have clamp : (if bufferIOSize > maxIOSize then (maxIOSize : Int) else bufferIOSize) =
      min bufferIOSize maxIOSize := by
    split <;> omega
  simp only [clampSizes, clamp, apply_ite Prod.fst, ite_self]

theorem allocated_spec (bufferIOSize : Int) (packetDataSize : UInt16) :
    SFIOBuffer.Valid (Cgsf.Engine.SFIOBuffer.empty.allocIOBuf
        (clampSizes bufferIOSize packetDataSize).1).1 ∧
      SFIOBuffer.contents (Cgsf.Engine.SFIOBuffer.empty.allocIOBuf
        (clampSizes bufferIOSize packetDataSize).1).1 = [] ∧
      (Cgsf.Engine.SFIOBuffer.empty.allocIOBuf (clampSizes bufferIOSize packetDataSize).1).1.iBufSize =
        if bufferIOSize ≤ 0 then maxIOSize else min bufferIOSize.toNat maxIOSize := by
  have io := clampSizes_le bufferIOSize packetDataSize
  obtain ⟨valid, empty, size⟩ := SFIOBuffer.allocIOBuf_valid Cgsf.Engine.SFIOBuffer.empty
    (clampSizes bufferIOSize packetDataSize).1 (io.trans_le (min_le_right _ _))
  refine ⟨valid, empty, size.trans ?_⟩
  rw [io]
  split <;> split <;> simp only [maxIOSize] at * <;> omega

end SFPacketProtocol

namespace SFCGSFPacketProtocol
open Cgsf.Engine.SFCGSFPacketProtocol Cgsf.Engine.SFPacketProtocol

def Valid (t : SFCGSFPacketProtocol) : Prop := SFIOBuffer.Valid t.packetIOBuffer

def contents (t : SFCGSFPacketProtocol) : List UInt8 := SFIOBuffer.contents t.packetIOBuffer

/-- A frame in a packet object that was used before. -/
def load (p : SFPacket) (f : Frame) : SFPacket :=
  { p.initPacket with header := f.header, data := f.payload }

def frame (p : SFPacket) : Frame := ⟨p.header, p.data⟩

variable (codec : Codec) (serial : Int) (desc : SessionDesc)

def tag (p : SFPacket) : SFPacket := tagPacket (analyzer codec) serial desc p

/-- Frame by frame, the packets made of the objects that wait in the pool. -/
def deliver : List SFPacket → List Frame → List SFPacket
  | _, [] => []
  | queue, f :: frames => tag codec serial desc (load (queue.headD {}) f) :: deliver queue.tail frames

theorem frame_tag_load (p : SFPacket) (f : Frame) : frame (tag codec serial desc (load p f)) = f :=
  rfl

theorem deliver_frames (queue : List SFPacket) (frames : List Frame) :
    (deliver codec serial desc queue frames).map frame = frames := by
  induction frames generalizing queue with
  | nil => rfl
  | cons f frames ih => rw [deliver, List.map_cons, frame_tag_load, ih]

theorem alloc_eq (pool : PacketPool) :
    pool.alloc {} = (pool.queue.headD {}, ⟨pool.queue.tail⟩) := by
  cases pool with
  | mk queue => cases queue <;> rfl

theorem addTransferredData_spec {t : SFCGSFPacketProtocol} (valid : Valid t)
    (data : List UInt8) :
    ∃ ring, addTransferredData t data = some ({ t with packetIOBuffer := ring }, true) ∧
      SFIOBuffer.Valid ring ∧ ring.iBufSize = t.packetIOBuffer.iBufSize ∧
      SFIOBuffer.contents ring = Deframer.buffer t.packetIOBuffer.iBufSize (contents t) data := by
  have length := SFIOBuffer.Valid.length_contents valid
  by_cases room : t.packetIOBuffer.iUsedBufferSize + data.length < t.packetIOBuffer.iBufSize
  · obtain ⟨ring, run, valid', joined, size⟩ := SFIOBuffer.appendData_room valid data room
    refine ⟨ring, ?_, valid', size, ?_⟩
    · rw [addTransferredData, run]
      rfl
    · rw [joined, Deframer.buffer, contents, length, if_pos room]
  · refine ⟨t.packetIOBuffer, ?_, valid, rfl, ?_⟩
    · rw [addTransferredData, SFIOBuffer.appendData_full _ _ (by omega)]
      rfl
    · rw [Deframer.buffer, contents, length, if_neg room]

/-- `GetPacket` of the protocol, against `framing` on the buffered bytes. -/
inductive Gets (pool : PacketPool) (t : SFCGSFPacketProtocol) :
    Next Frame → Option (PacketPool × SFCGSFPacketProtocol × Int × Option SFPacket) → Prop where
  | incomplete (pool' : PacketPool) : Gets pool t .incomplete (some (pool', t, 0, none))
  | frame (found : Frame) (ring : SFIOBuffer) (valid : SFIOBuffer.Valid ring)
      (size : ring.iBufSize = t.packetIOBuffer.iBufSize)
      (rest : contents t = found.bytes ++ SFIOBuffer.contents ring) :
      Gets pool t (.frame found) (some (⟨pool.queue.tail⟩, { t with packetIOBuffer := ring }, 0,
        some (load (pool.queue.headD {}) found)))
  | refused (pool' : PacketPool) (t' : SFCGSFPacketProtocol) :
      Gets pool t .malformed (some (pool', t', packetIOErrorData, none))
  | overrun : Gets pool t .malformed none

theorem getPacket_gets (pool : PacketPool) {t : SFCGSFPacketProtocol} (valid : Valid t) :
    Gets pool t ((framing t.packetSize).next (contents t)) (getPacket pool t) := by
  have agrees := SFPacketIOBuffer.getPacket_agrees valid {} t.packetSize
  rw [getPacket, alloc_eq]
  change Gets pool t ((framing t.packetSize).next (SFIOBuffer.contents t.packetIOBuffer))
    ((SFPacketIOBuffer.getPacket t.packetIOBuffer {} SFPacket.dataCapacity t.packetSize).bind _)
  generalize (framing t.packetSize).next (SFIOBuffer.contents t.packetIOBuffer) = verdict,
    SFPacketIOBuffer.getPacket t.packetIOBuffer {} SFPacket.dataCapacity t.packetSize = answer at agrees
  cases agrees with
  | incomplete header => exact .incomplete _
  | frame found after valid' size rest => exact .frame found after valid' size rest
  | refused header => exact .refused _ _
  | overrun => exact .overrun

/-- The receive loop, against draining the buffered bytes. -/
inductive Drains (queue : List SFPacket) (t : SFCGSFPacketProtocol) : Drained UInt8 Frame →
    Option (Received SFCGSFPacketProtocol PacketPool SFPacket × Int) → Prop where
  | sound (frames : List Frame) (ring : SFIOBuffer) (pool : PacketPool)
      (valid : SFIOBuffer.Valid ring) (size : ring.iBufSize = t.packetIOBuffer.iBufSize) :
      Drains queue t ⟨frames, SFIOBuffer.contents ring, true⟩
        (some (⟨{ t with packetIOBuffer := ring }, pool, deliver codec serial desc queue frames, true⟩,
          packetIOErrorNone))
  | refused (frames : List Frame) (rest : List UInt8) (t' : SFCGSFPacketProtocol)
      (pool : PacketPool) :
      Drains queue t ⟨frames, rest, false⟩
        (some (⟨t', pool, deliver codec serial desc queue frames, true⟩, packetIOErrorData))
  | overrun (frames : List Frame) (rest : List UInt8) :
      Drains queue t ⟨frames, rest, false⟩ none

theorem receiveLoop_drains (fuel : Nat) (pool : PacketPool) (t : SFCGSFPacketProtocol)
    (iErrorCode : Int) (valid : Valid t) (enough : (contents t).length < fuel) :
    Drains codec serial desc pool.queue t ((framing t.packetSize).drain (contents t))
      (receiveLoop (analyzer codec) serial desc fuel pool t iErrorCode) := by
  induction fuel generalizing pool t iErrorCode with
  | zero => omega
  | succ fuel ih =>
      have gets := getPacket_gets pool valid
      generalize action : (framing t.packetSize).next (contents t) = verdict,
        answer : getPacket pool t = result at gets
      cases gets with
      | incomplete pool' =>
          rw [SFPacketProtocol.receiveLoop_done fuel answer, Deframer.drain_incomplete _ action]
          exact .sound [] t.packetIOBuffer pool' valid rfl
      | refused pool' t' =>
          rw [SFPacketProtocol.receiveLoop_done fuel answer, Deframer.drain_malformed _ action]
          exact .refused [] (contents t) t' pool'
      | overrun =>
          rw [SFPacketProtocol.receiveLoop_fault fuel answer, Deframer.drain_malformed _ action]
          exact .overrun [] (contents t)
      | frame found ring valid' size rest =>
          have positive : 0 < found.bytes.length := by rw [Frame.length_bytes, headerSize]; omega
          have fewer : (SFIOBuffer.contents ring).length < fuel := by
            rw [rest, List.length_append] at enough
            omega
          rw [SFPacketProtocol.receiveLoop_packet fuel answer]
          rw [rest] at action ⊢
          have drained : (framing t.packetSize).drain (found.bytes ++ SFIOBuffer.contents ring) =
              ((framing t.packetSize).drain (SFIOBuffer.contents ring)).after [found] :=
            Deframer.drain_frame _ action
          rw [drained]
          have later : Drains codec serial desc pool.queue.tail { t with packetIOBuffer := ring }
              ((framing t.packetSize).drain (SFIOBuffer.contents ring)) _ :=
            ih ⟨pool.queue.tail⟩ { t with packetIOBuffer := ring } 0 valid' fewer
          generalize (framing t.packetSize).drain (SFIOBuffer.contents ring) = left,
            receiveLoop (analyzer codec) serial desc fuel _ _ 0 = result at later ⊢
          cases later with
          | sound frames ring' pool' valid'' size' =>
              exact .sound (found :: frames) ring' pool' valid'' (size'.trans size)
          | refused frames rest t' pool' => exact .refused (found :: frames) rest t' pool'
          | overrun frames rest => exact .overrun (found :: frames) rest

/-- One `OnReceive`: the chunk joins the ring if it fits, and the ring is drained. -/
inductive Receives (queue : List SFPacket) (t : SFCGSFPacketProtocol) : Drained UInt8 Frame →
    Option (Received SFCGSFPacketProtocol PacketPool SFPacket) → Prop where
  | sound (frames : List Frame) (ring : SFIOBuffer) (pool : PacketPool)
      (valid : SFIOBuffer.Valid ring) (size : ring.iBufSize = t.packetIOBuffer.iBufSize) :
      Receives queue t ⟨frames, SFIOBuffer.contents ring, true⟩
        (some ⟨{ t with packetIOBuffer := ring }, pool, deliver codec serial desc queue frames, true⟩)
  | refused (frames : List Frame) (rest : List UInt8) (t' : SFCGSFPacketProtocol)
      (pool : PacketPool) :
      Receives queue t ⟨frames, rest, false⟩
        (some ⟨t', pool, deliver codec serial desc queue frames, false⟩)
  | overrun (frames : List Frame) (rest : List UInt8) :
      Receives queue t ⟨frames, rest, false⟩ none

def capacity (t : SFCGSFPacketProtocol) : Nat := t.packetIOBuffer.iBufSize

theorem onReceive_receives (pool : PacketPool) {t : SFCGSFPacketProtocol} (valid : Valid t)
    (data : List UInt8) :
    Receives codec serial desc pool.queue t
      ((framing t.packetSize).drain (Deframer.buffer (capacity t) (contents t) data))
      (onReceive (analyzer codec) serial desc pool t data) := by
  obtain ⟨ring, run, valid', size, joined⟩ := addTransferredData_spec valid data
  let t' : SFCGSFPacketProtocol := { t with packetIOBuffer := ring }
  have drains := receiveLoop_drains codec serial desc ((analyzer codec).pending t' + 1) pool t'
    packetIOErrorNone valid' (by
      change (SFIOBuffer.contents ring).length < ring.iUsedBufferSize + 1
      rw [valid'.length_contents]
      omega)
  change Drains codec serial desc pool.queue t'
    ((framing t.packetSize).drain (SFIOBuffer.contents ring)) _ at drains
  rw [SFPacketProtocol.onReceive_added run, capacity, ← joined]
  generalize (framing t.packetSize).drain (SFIOBuffer.contents ring) = drained,
    receiveLoop (analyzer codec) serial desc _ pool t' packetIOErrorNone = result at drains
  cases drains with
  | sound frames ring' pool' valid'' size' =>
      exact .sound frames ring' pool' valid'' (size'.trans size)
  | refused frames rest t' pool' => exact .refused frames rest t' pool'
  | overrun frames rest => exact .overrun frames rest

/-- All chunks are received without error and the logic layer gets exactly `frames`. -/
def Delivers (pool : PacketPool) (t : SFCGSFPacketProtocol) (chunks : List (List UInt8))
    (frames : List Frame) : Prop :=
  ∃ r, receiveAll (analyzer codec) serial desc pool t chunks = some r ∧ r.ok = true ∧
    r.sent.map frame = frames

theorem delivers_iff_receive (pool : PacketPool) {t : SFCGSFPacketProtocol} (valid : Valid t)
    (chunks : List (List UInt8)) (frames : List Frame) :
    Delivers codec serial desc pool t chunks frames ↔
      ((framing t.packetSize).receive (capacity t) (contents t) chunks).sound = true ∧
        ((framing t.packetSize).receive (capacity t) (contents t) chunks).frames = frames := by
  induction chunks generalizing pool t frames with
  | nil => simp [Delivers, receiveAll, Deframer.receive]
  | cons chunk chunks ih =>
      have receives := onReceive_receives codec serial desc pool valid chunk
      rw [Deframer.receive]
      generalize (framing t.packetSize).drain
          (Deframer.buffer (capacity t) (contents t) chunk) = drained,
        action : onReceive (analyzer codec) serial desc pool t chunk = result at receives ⊢
      cases receives with
      | sound now ring pool' valid' size =>
          have later : ∀ frames, Delivers codec serial desc pool' { t with packetIOBuffer := ring }
              chunks frames ↔
              ((framing t.packetSize).receive (capacity t) (SFIOBuffer.contents ring) chunks).sound =
                  true ∧
                ((framing t.packetSize).receive (capacity t) (SFIOBuffer.contents ring)
                  chunks).frames = frames := by
            intro frames
            have step := ih pool' (show Valid { t with packetIOBuffer := ring } from valid') frames
            rwa [show capacity { t with packetIOBuffer := ring } = capacity t from size] at step
          rw [Delivers, SFPacketProtocol.receiveAll_ok chunks action rfl]
          constructor
          · rintro ⟨r, run, ok, sent⟩
            obtain ⟨rest, continued, rfl⟩ := Option.map_eq_some_iff.mp run
            obtain ⟨sound, eq⟩ := (later (rest.sent.map frame)).mp ⟨rest, continued, ok, rfl⟩
            refine ⟨sound, ?_⟩
            rw [← sent, List.map_append, deliver_frames, ← eq]
            rfl
          · rintro ⟨sound, rfl⟩
            obtain ⟨r, run, ok, sent⟩ := (later _).mpr ⟨sound, rfl⟩
            refine ⟨_, congrArg _ run, ok, ?_⟩
            rw [List.map_append, deliver_frames, sent]
            rfl
      | refused now rest t' pool' =>
          rw [Delivers, SFPacketProtocol.receiveAll_refused chunks action rfl]
          simp
      | overrun now rest =>
          rw [Delivers, SFPacketProtocol.receiveAll_fault chunks action]
          simp

theorem delivers_iff_roomy (pool : PacketPool) {t : SFCGSFPacketProtocol} (valid : Valid t)
    (empty : contents t = []) (frames : List Frame) (chunks : List (List UInt8))
    (wellFormed : ∀ f ∈ frames, f.WellFormed) (nonempty : ∀ chunk ∈ chunks, chunk ≠ [])
    (cut : chunks.flatten = frames.flatMap Frame.bytes) :
    Delivers codec serial desc pool t chunks frames ↔
      (∀ f ∈ frames, Frame.Fits t.packetSize f.payload.length) ∧
        Roomy (frames.map fun f => f.bytes.length) (capacity t) 0 chunks := by
  have accepts : (∀ f ∈ frames, (framing t.packetSize).Accepts f) ↔
      ∀ f ∈ frames, Frame.Fits t.packetSize f.payload.length :=
    forall₂_congr fun f member => and_iff_right (wellFormed f member)
  rw [delivers_iff_receive codec serial desc pool valid, empty, ← accepts]
  exact (framing t.packetSize).receive_iff (capacity t) frames [] chunks rfl nonempty cut

end SFCGSFPacketProtocol

end Cgsf.Proof.Engine
