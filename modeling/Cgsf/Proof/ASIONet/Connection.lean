import Cgsf.ASIONet.Connection
import Cgsf.Proof.ASIONet.ClientQueue
import Cgsf.Proof.Engine.Clone
import Cgsf.Proof.Engine.Packet

/-!
# From one end of a connection to the other

The bytes that the session holds of an unfinished frame, those on the stream and those still with
the client are the frames of the packets that the logic layer did not get yet.
-/

namespace Cgsf.Proof.ASIONet.Connection
open Cgsf.ASIONet Cgsf.ASIONet.Connection Cgsf.Engine Cgsf.Proof.Engine Library

variable (codec : Codec) (serial : Int) (desc : SessionDesc)

/-- `Decode` makes of the received packet `q` the id and the data of the packet `p`. -/
def Decodes (packetSize : UInt16) (p q : SFPacket) : Prop :=
  ∃ q' errorCode, q.decode codec packetSize 0 = some (q', errorCode, true) ∧
    q'.packetID = p.packetID ∧ q'.getData q'.getDataSize = p.getData p.getDataSize

/-- The packet is new but for its id and its payload and no larger than the packet size, and what
is sent of it leaves room for a receive buffer in the ring of the session. -/
def Sendable (s : Connection) : ConnectionEvent → Prop
  | .sendRequest p =>
      SFPacket.compose p.packetID p.data = some p ∧
        p.getPacketSize ≤ s.sessionProtocol.packetSize.toNat ∧
        ∀ answer ∈ SFCGSFPacketProtocol.encode codec s.clientProtocol p,
          (answer.2.2.2.length + maxReceiveBufferLen : Int) ≤ packetDefaultIOSize
  | .transfer _ _ | .complete _ | .resume _ | .receive _ _ => True

instance (s : Connection) (event : ConnectionEvent) : Decidable (Sendable codec s event) :=
  match event with
  | .sendRequest _ => inferInstanceAs (Decidable (_ ∧ _ ∧ _))
  | .transfer _ _ | .complete _ | .resume _ | .receive _ _ => instDecidableTrue

/-- The packet `p` is sent as the frame `f`, which the session takes. -/
structure Carries (packetSize : UInt16) (p : SFPacket) (f : Frame) : Prop where
  wellFormed : f.WellFormed
  fits : Frame.Fits packetSize f.payload.length
  room : (f.bytes.length + maxReceiveBufferLen : Int) ≤ packetDefaultIOSize
  decodes : ∀ object, Decodes codec packetSize p (SFCGSFPacketProtocol.load object f)

variable {codec}

theorem composed_getData (packetID : UInt16) {payload : List UInt8}
    (fits : payload.length ≤ SFPacket.dataCapacity) :
    (SFPacket.composed packetID payload).getDataSize = payload.length ∧
      (SFPacket.composed packetID payload).getData payload.length = some payload := by
  refine ⟨SFPacket.dataSize_ofNat fits, ?_⟩
  rw [SFPacket.getData_eq fits le_rfl]
  exact congrArg some List.take_length

theorem decodes_sealed (correct : codec.Correct) {packetID packetSize : UInt16}
    {packetOption : UInt32} {payload body : List UInt8} {q : SFPacket}
    (fits : payload.length ≤ SFPacket.dataCapacity)
    (done : SFPacket.Sealed codec packetID (SFPacket.stored codec packetSize packetOption payload)
      body q)
    (flag : q.header.checkCompressed = true ↔ SFPacket.Compresses packetOption payload.length)
    (nonempty : SFPacket.Compresses packetOption payload.length →
      SFPacket.stored codec packetSize packetOption payload ≠ [])
    (enough : payload.length + headerSize ≤ packetSize.toNat) (object : SFPacket) :
    Decodes codec packetSize (SFPacket.composed packetID payload)
      (SFCGSFPacketProtocol.load object ⟨q.header, body⟩) := by
  obtain ⟨size, data⟩ := composed_getData packetID fits
  obtain ⟨p, header, read, decoded⟩ :=
    SFPacket.decode_load codec object done.dataSize done.fits done.crc done.cipher packetSize 0
  rw [Decodes, decoded, size, data]
  by_cases compressed : SFPacket.Compresses packetOption payload.length
  · obtain ⟨p', run, restored⟩ := SFPacket.uncompressData_stored codec packetSize correct fits
      compressed (by rw [header]; exact flag.mpr compressed) (nonempty compressed) read
    rw [run, decide_eq_true enough, restored enough]
    refine ⟨_, _, rfl, (congrArg _ header).trans done.packetID, ?_⟩
    change (SFPacket.overwrite _ payload).getData (UInt16.ofNat payload.length).toNat = _
    rw [SFPacket.dataSize_ofNat fits]
    exact SFPacket.getData_overwrite _ fits
  · have plain : p.uncompressData codec packetSize = some (p, true) := by
      rw [SFPacket.uncompressData]
      exact if_neg (by rw [header, flag]; exact compressed)
    rw [SFPacket.stored, if_neg compressed] at read
    rw [plain]
    exact ⟨_, _, rfl, (congrArg _ header).trans done.packetID, read⟩

theorem body_le (correct : codec.Correct) {packetID packetSize : UInt16} {packetOption : UInt32}
    {payload body : List UInt8} {q : SFPacket}
    (done : SFPacket.Sealed codec packetID (SFPacket.stored codec packetSize packetOption payload)
      body q)
    (enough : payload.length + headerSize ≤ packetSize.toNat) :
    body.length + headerSize ≤ packetSize.toNat := by
  have length : body.length = (SFPacket.stored codec packetSize packetOption payload).length := by
    rw [done.cipher]
    split
    · exact SFEncryptionXOR.length_encrypt _
    · rfl
  have bounded := correct.bounded payload (unsignedSub packetSize.toNat headerSize)
  have room : unsignedSub packetSize.toNat headerSize + headerSize = packetSize.toNat := by
    rw [unsignedSub, if_pos (by omega)]
    omega
  rw [length, SFPacket.stored]
  split <;> omega

/-- A payload that is too long is not written. -/
theorem exists_composed {packetID : UInt16} {payload : List UInt8} {p : SFPacket}
    (made : SFPacket.compose packetID payload = some p) :
    ∃ payload', payload'.length ≤ SFPacket.dataCapacity ∧
      p = SFPacket.composed packetID payload' := by
  by_cases fits : payload.length ≤ SFPacket.dataCapacity
  · rw [SFPacket.compose_eq packetID payload fits] at made
    exact ⟨payload, fits, (Option.some.inj made).symm⟩
  · refine ⟨[], Nat.zero_le _, ?_⟩
    have long : (({} : SFPacket).initPacket.setPacketID packetID).getPacketSize + payload.length >
        maxPacketSize := by
      change 12 + payload.length > 8192
      rw [SFPacket.dataCapacity, maxPacketSize, headerSize] at fits
      omega
    rw [SFPacket.compose, SFPacket.write, if_pos long] at made
    exact (Option.some.inj made).symm

/-- What `SendRequest` does with a packet that may be sent. -/
theorem encode_carries (correct : codec.Correct) {t : SFCGSFPacketProtocol} {p : SFPacket}
    {answer : SFCGSFPacketProtocol × SFPacket × Bool × List UInt8}
    (composed : SFPacket.compose p.packetID p.data = some p)
    (small : p.getPacketSize ≤ t.packetSize.toNat)
    (room : (answer.2.2.2.length + maxReceiveBufferLen : Int) ≤ packetDefaultIOSize)
    (run : SFCGSFPacketProtocol.encode codec t p = some answer) :
    answer.1 = t ∧ (answer.2.2.1 = true → ∃ f : Frame,
      answer.2.2.2 = f.bytes ∧ Carries codec t.packetSize p f) := by
  obtain ⟨payload, fits, same⟩ := exists_composed composed
  generalize p.packetID = packetID at same
  subst same
  have enough : payload.length + headerSize ≤ t.packetSize.toNat := by
    rw [SFPacket.getPacketSize, (composed_getData packetID fits).1] at small
    omega
  obtain ⟨⟨q, ok⟩, encoded, run⟩ := Option.bind_eq_some_iff.mp run
  cases ok with
  | false =>
      obtain rfl := Option.some.inj run
      exact ⟨rfl, fun sent => absurd sent Bool.false_ne_true⟩
  | true =>
      obtain ⟨wire, sent, run⟩ := Option.bind_eq_some_iff.mp run
      obtain rfl := Option.some.inj run
      have through : (SFPacket.compose packetID payload).bind
          (SFPacket.encode codec · t.packetSize t.packetOption) = some (q, true) := by
        rw [SFPacket.compose_eq packetID payload fits, Option.bind_some, encoded]
      obtain ⟨body, done, flag, nonempty⟩ := SFPacket.encode_sealed codec fits through
      rw [SFPacket.wire, SFPacket.getDataSize, done.dataSize, done.data] at sent
      obtain rfl : (⟨q.header, body⟩ : Frame).bytes = wire := Option.some.inj sent
      refine ⟨rfl, fun _ => ⟨⟨q.header, body⟩, rfl, done.dataSize, ?_, room,
        decodes_sealed correct fits done flag nonempty enough⟩⟩
      exact (SFPacket.fits_iff done.fits).mpr (.inl (body_le correct done enough))

/-- The frames that the session took and those that are not complete there, in the order of the
requests. -/
structure Linked (codec : Codec) (s : Connection) : Prop where
  sending : ASIOClient.Sending s.client
  taken : List.Forall₂ (fun taken write => taken ≤ write.size) s.taken s.client.outstanding
  valid : SFCGSFPacketProtocol.Valid s.sessionProtocol
  capacity : (SFCGSFPacketProtocol.capacity s.sessionProtocol : Int) = packetDefaultIOSize
  same : s.clientProtocol.packetSize = s.sessionProtocol.packetSize
  idle : (framing s.sessionProtocol.packetSize).next
    (SFCGSFPacketProtocol.contents s.sessionProtocol) = .incomplete
  accepted : s.refused = false
  carried : ∃ got waiting : List Frame,
    List.Forall₂ (Carries codec s.sessionProtocol.packetSize) s.requested (got ++ waiting) ∧
      List.Forall₂ (fun f p => ∃ object, p = SFCGSFPacketProtocol.load object f) got s.received ∧
      SFCGSFPacketProtocol.contents s.sessionProtocol ++ s.stream ++ s.unsent =
        waiting.flatMap Frame.bytes

theorem construct_linked {bufferIOSize : Int} {packetDataSize : UInt16} {packetOption : UInt32}
    {s : Connection} (made : connect codec bufferIOSize packetDataSize packetOption = some s) :
    Linked codec s ∧ s.sessionProtocol.packetSize =
      (SFPacketProtocol.clampSizes bufferIOSize packetDataSize).2 := by
  obtain rfl := Option.some.inj made
  obtain ⟨valid, empty, size⟩ := SFIOBuffer.allocIOBuf_valid Cgsf.Engine.SFIOBuffer.empty
    packetDefaultIOSize (by decide)
  refine ⟨⟨ASIOClient.sending_new, .nil, valid, ?_, rfl, ?_, rfl, [], [], .nil, .nil, ?_⟩, rfl⟩
  · exact congrArg Nat.cast size
  · exact congrArg (framing _).next empty
  · exact congrArg (· ++ [] ++ []) empty

variable {s s' : Connection}

theorem Linked.taken_nil (linked : Linked codec s) (outstanding : s.client.outstanding = []) :
    s.taken = [] := by
  have taken := linked.taken
  rw [outstanding] at taken
  exact List.forall₂_nil_right_iff.mp taken

theorem Linked.taken_one (linked : Linked codec s) {b : Buffer}
    (outstanding : s.client.outstanding = [ASIOClient.written b]) :
    ∃ n, s.taken = [n] ∧ n ≤ b.data.length := by
  have taken := linked.taken
  rw [outstanding] at taken
  obtain ⟨n, rest, le, others, same⟩ := List.forall₂_cons_right_iff.mp taken
  rw [List.forall₂_nil_right_iff.mp others] at same
  exact ⟨n, same, le⟩

/-- The socket has a part of the front of the queue, or nothing. -/
theorem Linked.taken_le (linked : Linked codec s) :
    s.taken.sum ≤ (s.client.sendDataQueue.flatMap Buffer.data).length := by
  cases linked.sending.front with
  | nothing queue sizes outstanding handlers started =>
      rw [linked.taken_nil outstanding]
      exact Nat.zero_le _
  | handed b rest queue sizes outstanding handlers started content =>
      rw [linked.taken_nil outstanding]
      exact Nat.zero_le _
  | writing b rest queue sizes outstanding handlers started content =>
      obtain ⟨n, same, le⟩ := linked.taken_one outstanding
      rw [same, queue, List.flatMap_cons, List.length_append, List.sum_singleton]
      exact Nat.le_add_right_of_le le

/-- Of a write that is started the socket has no byte yet. -/
theorem Linked.taken_withClient (linked : Linked codec s) {client : ASIOClient}
    {started : List Write} (outstanding : client.outstanding = s.client.outstanding ++ started) :
    List.Forall₂ (fun taken write => taken ≤ write.size) (s.withClient client).taken
        client.outstanding ∧ (s.withClient client).taken.sum = s.taken.sum := by
  have new : client.outstanding.length - s.taken.length = started.length := by
    rw [outstanding, List.length_append, linked.taken.length_eq, Nat.add_sub_cancel_left]
  rw [withClient, new, List.sum_append, List.sum_replicate_nat]
  refine ⟨?_, rfl⟩
  rw [outstanding]
  refine List.rel_append linked.taken (List.forall₂_iff_zip.mpr ⟨List.length_replicate, ?_⟩)
  intro n write member
  rw [List.eq_of_mem_replicate (List.of_mem_zip member).1]
  exact Nat.zero_le _

theorem unsent_withClient (client : ASIOClient) :
    (s.withClient client).unsent =
      (client.sendDataQueue.flatMap Buffer.data).drop (s.withClient client).taken.sum :=
  rfl

theorem postSend_queue (client : ASIOClient) (pData : List UInt8) :
    ∃ (b : Buffer) (started : List Write), b.data = pData ∧
      (client.postSend (.copy pData)).sendDataQueue = client.sendDataQueue ++ [b] ∧
      (client.postSend (.copy pData)).outstanding = client.outstanding ++ started := by
  rw [ASIOClient.postSend]
  split
  · exact ⟨⟨client.copies, pData⟩, [_], rfl, rfl, rfl⟩
  · exact ⟨⟨client.copies, pData⟩, [], rfl, rfl, (List.append_nil _).symm⟩

theorem Linked.sendRequest (correct : codec.Correct) (linked : Linked codec s) {p : SFPacket}
    (sendable : Sendable codec s (.sendRequest p)) (action : s.sendRequest codec p = some s') :
    Linked codec s' ∧ s'.sessionProtocol = s.sessionProtocol := by
  obtain ⟨composed, small, room⟩ := sendable
  obtain ⟨⟨t, q, ok, wire⟩, run, action⟩ := Option.bind_eq_some_iff.mp action
  obtain ⟨rfl, frame⟩ := encode_carries correct composed (linked.same ▸ small) (room _ run) run
  cases ok with
  | false =>
      obtain rfl := Option.some.inj action
      exact ⟨linked, rfl⟩
  | true =>
      obtain rfl := Option.some.inj action
      obtain ⟨f, rfl, carries⟩ := frame rfl
      obtain ⟨got, waiting, requested, received, bytes⟩ := linked.carried
      obtain ⟨b, started, data, queue, outstanding⟩ := postSend_queue s.client f.bytes
      obtain ⟨taken, sum⟩ := linked.taken_withClient outstanding
      have content : f.bytes ≠ [] := by
        rw [← List.length_pos_iff, Frame.length_bytes, headerSize]
        omega
      refine ⟨⟨linked.sending.post f.bytes fun none => absurd none content, taken, linked.valid,
        linked.capacity, linked.same, linked.idle, linked.accepted, got, waiting ++ [f], ?_,
        received, ?_⟩, rfl⟩
      · rw [← List.append_assoc]
        exact List.rel_append requested (.cons (linked.same ▸ carries) .nil)
      · have unsent : ({ s with requested := s.requested ++ [p] }.withClient
            (s.client.postSend (.copy f.bytes))).unsent = s.unsent ++ f.bytes := by
          change (s.withClient (s.client.postSend (.copy f.bytes))).unsent = _
          rw [unsent_withClient, sum, queue, List.flatMap_append,
            List.drop_append_of_le_length linked.taken_le, List.flatMap_singleton, data]
          rfl
        change SFCGSFPacketProtocol.contents s.sessionProtocol ++ s.stream ++ _ = _
        rw [unsent, ← List.append_assoc, bytes, List.flatMap_append, List.flatMap_singleton]

/-- What a step that is no request does: it keeps the bytes in their order and comes nearer to the
end. -/
structure Forwards (codec : Codec) (s s' : Connection) : Prop where
  linked : Linked codec s'
  packetSize : s'.sessionProtocol.packetSize = s.sessionProtocol.packetSize
  requested : s'.requested = s.requested
  rank : s'.rank < s.rank

/-- Bytes that only change their place. -/
theorem Linked.move (linked : Linked codec s) {client : ASIOClient} {taken : List Nat}
    {stream : List UInt8} (sending : ASIOClient.Sending client)
    (within : List.Forall₂ (fun taken write => taken ≤ write.size) taken client.outstanding)
    (bytes : stream ++ { s with client, taken, stream }.unsent = s.stream ++ s.unsent) :
    Linked codec { s with client, taken, stream } := by
  obtain ⟨got, waiting, requested, received, carried⟩ := linked.carried
  refine ⟨sending, within, linked.valid, linked.capacity, linked.same, linked.idle,
    linked.accepted, got, waiting, requested, received, ?_⟩
  rw [List.append_assoc] at carried ⊢
  exact (congrArg _ bytes).trans carried

theorem unsent_writing {b : Buffer} {rest : List Buffer} {n : Nat}
    (queue : s.client.sendDataQueue = b :: rest) (taken : s.taken = [n])
    (le : n ≤ b.data.length) : s.unsent = b.data.drop n ++ rest.flatMap Buffer.data := by
  rw [Connection.unsent, queue, taken, List.flatMap_cons, List.sum_singleton,
    List.drop_append_of_le_length le]

theorem unsent_handed (taken : s.taken = []) :
    s.unsent = s.client.sendDataQueue.flatMap Buffer.data := by
  rw [Connection.unsent, taken]
  rfl

theorem Linked.transfer (linked : Linked codec s) {k n : Nat} (action : s.transfer k n = some s') :
    Forwards codec s s' := by
  rw [Connection.transfer] at action
  cases linked.sending.front with
  | nothing queue sizes outstanding handlers started => simp [outstanding] at action
  | handed b rest queue sizes outstanding handlers started content =>
      simp [outstanding] at action
  | writing b rest queue sizes outstanding handlers started content =>
      obtain ⟨m, same, le⟩ := linked.taken_one outstanding
      cases k with
      | succ k => simp [outstanding] at action
      | zero =>
          simp only [outstanding, same, List.getElem?_cons_zero, Option.bind_eq_bind,
            Option.bind_some, List.set_cons_zero, ASIOClient.written] at action
          split at action
          · contradiction
          rename_i more
          obtain ⟨positive, inside⟩ : n ≠ 0 ∧ m + n ≤ b.data.length := by
            rwa [not_or, Nat.not_lt] at more
          obtain rfl := Option.some.inj action
          have cut : b.data.drop m = (b.data.drop m).take n ++ b.data.drop (m + n) := by
            rw [← List.drop_drop, List.take_append_drop]
          have left := unsent_writing (s := { s with
            taken := [m + n], stream := s.stream ++ (b.data.drop m).take n }) queue rfl inside
          have before := unsent_writing queue same le
          refine ⟨linked.move linked.sending ?_ ?_, rfl, rfl, ?_⟩
          · exact outstanding ▸ .cons inside .nil
          · rw [left, before, List.append_assoc, ← List.append_assoc _ _ (rest.flatMap _), ← cut]
          · have length : ((b.data.drop m).take n).length = n := by
              rw [List.length_take, List.length_drop]
              omega
            have total := congrArg List.length cut
            rw [List.length_append, length] at total
            rw [Connection.rank, Connection.rank, left, before]
            simp only [List.length_append, length]
            omega

theorem Linked.complete (linked : Linked codec s) {k : Nat} (action : s.complete k = some s') :
    Forwards codec s s' := by
  rw [Connection.complete] at action
  cases linked.sending.front with
  | nothing queue sizes outstanding handlers started => simp [outstanding] at action
  | handed b rest queue sizes outstanding handlers started content =>
      simp [outstanding] at action
  | writing b rest queue sizes outstanding handlers started content =>
      obtain ⟨m, same, le⟩ := linked.taken_one outstanding
      cases k with
      | succ k => simp [outstanding] at action
      | zero =>
          have completed := ASIOClient.complete_spec queue sizes outstanding content
          simp only [outstanding, same, List.getElem?_cons_zero, Option.bind_eq_bind,
            Option.bind_some, List.eraseIdx_zero, List.tail_cons, completed] at action
          split at action
          · contradiction
          rename_i whole
          obtain rfl := Option.some.inj action
          obtain rfl : m = b.data.length := Nat.le_antisymm le (Nat.not_lt.mp whole)
          have before := unsent_writing queue same le
          rw [List.drop_length, List.nil_append] at before
          refine ⟨linked.move (linked.sending.complete 0 completed) .nil ?_, rfl, rfl, ?_⟩
          · rw [before, unsent_handed rfl]
          · have one := List.length_take_le 1 rest
            rw [Connection.rank, Connection.rank, unsent_handed rfl, before]
            simp only [ASIOClient.rank, queue, handlers, List.length_cons, List.nil_append,
              List.length_map, List.length_nil]
            omega

theorem Linked.resume (linked : Linked codec s) {k : Nat}
    (action : (s.client.step (.resume k)).map s.withClient = some s') : Forwards codec s s' := by
  cases linked.sending.front with
  | nothing queue sizes outstanding handlers started => simp [ASIOClient.step, handlers] at action
  | writing b rest queue sizes outstanding handlers started content =>
      simp [ASIOClient.step, handlers] at action
  | handed b rest queue sizes outstanding handlers started content =>
      cases k with
      | succ k => simp [ASIOClient.step, handlers] at action
      | zero =>
          have none := linked.taken_nil outstanding
          have resumed := ASIOClient.resume_spec handlers outstanding
          rw [resumed] at action
          obtain rfl := Option.some.inj action
          obtain ⟨taken, sum⟩ := linked.taken_withClient
            (show ({ s.client with
              handlers := []
              outstanding := [ASIOClient.written b]
              started := s.client.started ++ [ASIOClient.written b] } : ASIOClient).outstanding =
                s.client.outstanding ++ [ASIOClient.written b] by rw [outstanding]; rfl)
          have same : (s.withClient { s.client with
              handlers := []
              outstanding := [ASIOClient.written b]
              started := s.client.started ++ [ASIOClient.written b] }).unsent = s.unsent := by
            rw [unsent_withClient, sum]
            rfl
          refine ⟨linked.move (linked.sending.resume 0 resumed) taken (congrArg _ same), rfl, rfl,
            ?_⟩
          rw [Connection.rank, Connection.rank, same]
          change 2 * s.unsent.length + s.stream.length +
            (2 * s.client.sendDataQueue.length + 0) < _
          rw [ASIOClient.rank, handlers, List.length_singleton]
          omega

theorem deliver_loaded (queue : List SFPacket) (frames : List Frame) :
    List.Forall₂ (fun f p => ∃ object, p = SFCGSFPacketProtocol.load object f) frames
      (SFCGSFPacketProtocol.deliver codec serial desc queue frames) := by
  induction frames generalizing queue with
  | nil => exact .nil
  | cons f frames ih =>
      exact .cons ⟨SFCGSFPacketProtocol.tag codec serial desc (queue.headD {}), rfl⟩ (ih queue.tail)

theorem forall_of_append {α β : Type*} {R : α → β → Prop} {as : List α} {bs bs' : List β}
    (all : List.Forall₂ R as (bs ++ bs')) : ∀ b ∈ bs', ∃ a, R a b := by
  intro b member
  obtain ⟨i, inside, rfl⟩ := List.mem_iff_getElem.mp (List.mem_append_right bs member)
  exact ⟨_, all.get (by rw [all.length_eq]; exact inside) inside⟩

/-- The ring has room for whatever the session reads. -/
theorem room_of_bound {frames : List Frame} {packetSize : UInt16} {pending more : List UInt8}
    (capacity : Nat) (accepts : ∀ f ∈ frames, (framing packetSize).Accepts f)
    (small : ∀ f ∈ frames, f.bytes.length + maxReceiveBufferLen ≤ capacity)
    (enough : maxReceiveBufferLen < capacity)
    (idle : (framing packetSize).next pending = .incomplete)
    (whole : pending ++ more = frames.flatMap Frame.bytes) :
    pending.length + maxReceiveBufferLen < capacity := by
  have kept := (Deframer.drain_prefix (framing packetSize) frames pending more accepts whole).2.1
  rw [Deframer.drain_incomplete _ idle] at kept
  have total := congrArg List.length whole
  rw [List.length_append, List.length_flatMap] at total
  have bound := unfinished_lt (frames.map fun f => f.bytes.length)
    (capacity - maxReceiveBufferLen) pending.length (by omega)
    (fun size member => by
      obtain ⟨f, listed, rfl⟩ := List.mem_map.mp member
      have := small f listed
      omega) (by omega)
  change pending.length = unfinished (frames.map fun f => f.bytes.length) pending.length at kept
  omega

theorem Linked.receive (linked : Linked codec s) {n : Nat}
    (pool : SFCGSFPacketProtocol.PacketPool) (positive : n ≠ 0)
    (small : n ≤ maxReceiveBufferLen) (there : n ≤ s.stream.length) :
    ∃ s', s.receive codec serial desc n pool = some s' ∧ Forwards codec s s' := by
  obtain ⟨got, waiting, requested, received, bytes⟩ := linked.carried
  have carries := forall_of_append requested
  have accepts : ∀ f ∈ waiting, (framing s.sessionProtocol.packetSize).Accepts f := by
    intro f member
    obtain ⟨p, carried⟩ := carries f member
    exact ⟨carried.wellFormed, carried.fits⟩
  have capacity : SFCGSFPacketProtocol.capacity s.sessionProtocol = 8192 :=
    Int.ofNat_inj.mp linked.capacity
  have room := room_of_bound 8192 accepts (fun f member => by
    obtain ⟨p, carried⟩ := carries f member
    exact Int.ofNat_le.mp carried.room) (by decide) linked.idle
    ((List.append_assoc _ _ _).symm.trans bytes)
  have length : (s.stream.take n).length = n := List.length_take_of_le there
  have receives := SFCGSFPacketProtocol.onReceive_receives codec serial desc pool linked.valid
    (s.stream.take n)
  rw [capacity, Deframer.buffer, if_pos (by omega)] at receives
  obtain ⟨later, split, sound, idle, rest, -⟩ := (framing s.sessionProtocol.packetSize).advance 8192
    waiting _ (s.stream.take n) [s.stream.drop n ++ s.unsent] accepts linked.idle (by
      rw [List.flatten_cons, List.flatten_singleton, ← List.append_assoc (s.stream.take n),
        List.take_append_drop, ← List.append_assoc]
      exact bytes)
  rw [List.flatten_singleton] at rest
  rw [Connection.receive, if_neg (by omega)]
  generalize (framing s.sessionProtocol.packetSize).drain
      (SFCGSFPacketProtocol.contents s.sessionProtocol ++ s.stream.take n) = drained,
    SFPacketProtocol.onReceive (SFCGSFPacketProtocol.analyzer codec) serial desc pool
      s.sessionProtocol (s.stream.take n) = result at receives split sound idle rest
  cases receives with
  | refused now left t pool' => contradiction
  | overrun now left => contradiction
  | sound now ring pool' valid size =>
      refine ⟨_, rfl, ⟨⟨linked.sending, linked.taken, valid, ?_, linked.same, idle, ?_, got ++ now,
        later, ?_, ?_, ?_⟩, rfl, rfl, ?_⟩⟩
      · exact (congrArg Nat.cast size).trans linked.capacity
      · exact Bool.or_eq_false_iff.mpr ⟨linked.accepted, rfl⟩
      · rw [List.append_assoc, ← split]
        exact requested
      · exact List.rel_append received (deliver_loaded serial desc pool.queue now)
      · rw [List.append_assoc]
        exact rest
      · change 2 * s.unsent.length + (s.stream.drop n).length + s.client.rank < s.rank
        rw [Connection.rank, List.length_drop]
        omega

/-- An event that is no request. -/
def Forwarding : ConnectionEvent → Prop
  | .sendRequest _ => False
  | .transfer _ _ | .complete _ | .resume _ | .receive _ _ => True

theorem Linked.forward (linked : Linked codec s) {event : ConnectionEvent}
    (forwarding : Forwarding event) (action : s.step codec serial desc event = some s') :
    Forwards codec s s' := by
  cases event with
  | sendRequest p => exact forwarding.elim
  | transfer k n => exact linked.transfer action
  | complete k => exact linked.complete action
  | resume k => exact linked.resume action
  | receive n pool =>
      by_cases enabled : n = 0 ∨ maxReceiveBufferLen < n ∨ s.stream.length < n
      · rw [step, Connection.receive, if_pos enabled] at action
        contradiction
      · rw [not_or, not_or] at enabled
        obtain ⟨positive, small, there⟩ := enabled
        obtain ⟨after, run, forwards⟩ := linked.receive serial desc pool positive
          (Nat.not_lt.mp small) (Nat.not_lt.mp there)
        obtain rfl := Option.some.inj (run.symm.trans action)
        exact forwards

theorem Linked.step (correct : codec.Correct) (linked : Linked codec s) {event : ConnectionEvent}
    (sendable : Sendable codec s event) (action : s.step codec serial desc event = some s') :
    Linked codec s' ∧ s'.sessionProtocol.packetSize = s.sessionProtocol.packetSize := by
  by_cases forwarding : Forwarding event
  · have forwards := linked.forward serial desc forwarding action
    exact ⟨forwards.linked, forwards.packetSize⟩
  · cases event with
    | sendRequest p =>
        obtain ⟨linked, session⟩ := linked.sendRequest correct sendable action
        exact ⟨linked, congrArg (·.packetSize) session⟩
    | transfer | complete | resume | receive => exact absurd trivial forwarding

theorem run_linked (correct : codec.Correct) {bufferIOSize : Int} {packetDataSize : UInt16}
    {packetOption : UInt32} {start : Connection} {history : List ConnectionEvent}
    (made : connect codec bufferIOSize packetDataSize packetOption = some start)
    (run : Run (Guarded (Sendable codec) fun s event s' => s.step codec serial desc event = some s')
      start history s) :
    Linked codec s ∧ s.sessionProtocol.packetSize =
      (SFPacketProtocol.clampSizes bufferIOSize packetDataSize).2 := by
  refine run.invariant (I := fun s => Linked codec s ∧ s.sessionProtocol.packetSize =
    (SFPacketProtocol.clampSizes bufferIOSize packetDataSize).2) (construct_linked made) ?_
  intro s event s' before action
  obtain ⟨linked, same⟩ := before.1.step serial desc correct action.1 action.2
  exact ⟨linked, same.trans before.2⟩

theorem decodes_loaded {packetSize : UInt16} {requested received : List SFPacket}
    {frames : List Frame} (carries : List.Forall₂ (Carries codec packetSize) requested frames)
    (loaded : List.Forall₂ (fun f p => ∃ object, p = SFCGSFPacketProtocol.load object f) frames
      received) : List.Forall₂ (Decodes codec packetSize) requested received := by
  induction carries generalizing received with
  | nil =>
      cases loaded
      exact .nil
  | cons carries _ ih =>
      obtain _ | ⟨⟨object, rfl⟩, loaded⟩ := loaded
      exact .cons (carries.decodes object) (ih loaded)

theorem Linked.delivered (linked : Linked codec s) : ∃ delivered waiting,
    s.requested = delivered ++ waiting ∧
      List.Forall₂ (Decodes codec s.sessionProtocol.packetSize) delivered s.received ∧
      (s.unsent = [] → s.stream = [] → waiting = []) := by
  obtain ⟨got, waiting, requested, received, bytes⟩ := linked.carried
  refine ⟨s.requested.take got.length, s.requested.drop got.length,
    (List.take_append_drop _ _).symm,
    decodes_loaded (List.forall₂_take_append _ _ _ requested) received, fun unsent stream => ?_⟩
  have rest := List.forall₂_drop_append _ _ _ requested
  rw [unsent, stream, List.append_nil, List.append_nil] at bytes
  have accepts : ∀ f ∈ waiting, (framing s.sessionProtocol.packetSize).Accepts f := by
    intro f member
    obtain ⟨p, carried⟩ := forall_of_append requested f member
    exact ⟨carried.wellFormed, carried.fits⟩
  obtain rfl := (framing s.sessionProtocol.packetSize).stream_end waiting _ accepts linked.idle bytes
  exact List.forall₂_nil_right_iff.mp rest

theorem unsent_nil (queue : s.client.sendDataQueue = []) : s.unsent = [] := by
  rw [Connection.unsent, queue]
  exact List.drop_nil

theorem decodes_all (linked : Linked codec s) (queue : s.client.sendDataQueue = [])
    (stream : s.stream = []) :
    List.Forall₂ (Decodes codec s.sessionProtocol.packetSize) s.requested s.received := by
  obtain ⟨delivered, waiting, split, decodes, done⟩ := linked.delivered
  obtain rfl := done (unsent_nil queue) stream
  rwa [split, List.append_nil]

/-- While anything is queued or on the stream, something goes on. -/
theorem Linked.progress (linked : Linked codec s) (busy : s.rank ≠ 0) :
    ∃ event s', Forwarding event ∧ s.step codec serial desc event = some s' := by
  by_cases stream : s.stream = []
  · cases linked.sending.front with
    | nothing queue sizes outstanding handlers started =>
        refine absurd ?_ busy
        rw [Connection.rank, unsent_nil queue, stream, ASIOClient.rank, queue, handlers]
        rfl
    | writing b rest queue sizes outstanding handlers started content =>
        obtain ⟨n, same, le⟩ := linked.taken_one outstanding
        by_cases whole : n = b.data.length
        · have completed := ASIOClient.complete_spec queue sizes outstanding content
          obtain ⟨s', run⟩ : ∃ s', s.complete 0 = some s' := by
            simp [Connection.complete, outstanding, same, whole, completed, ASIOClient.written]
          exact ⟨.complete 0, s', trivial, run⟩
        · obtain ⟨s', run⟩ : ∃ s', s.transfer 0 1 = some s' := by
            have inside : ¬(1 = 0 ∨ (ASIOClient.written b).size < n + 1) := by
              rw [ASIOClient.written]
              dsimp only
              omega
            rw [Connection.transfer, outstanding, same]
            exact ⟨_, if_neg inside⟩
          exact ⟨.transfer 0 1, s', trivial, run⟩
    | handed b rest queue sizes outstanding handlers started content =>
        have resumed := ASIOClient.resume_spec handlers outstanding
        exact ⟨.resume 0, _, trivial, congrArg (Option.map s.withClient) resumed⟩
  · have positive := List.length_pos_iff.mpr stream
    obtain ⟨s', run, -⟩ := linked.receive serial desc ⟨[]⟩ (n := 1) (by decide) (by decide) positive
    exact ⟨.receive 1 ⟨[]⟩, s', trivial, run⟩

variable {bufferIOSize : Int} {packetDataSize : UInt16} {packetOption : UInt32}
variable {start : Connection} {history : List ConnectionEvent}

def helloPacket : SFPacket := SFPacket.composed 7 [1, 2, 3]

/-- The packet in two pieces that do not end where the socket's end. -/
def helloEvents : List ConnectionEvent :=
  [.sendRequest helloPacket, .transfer 0 10, .receive 9 ⟨[]⟩, .transfer 0 5, .complete 0,
    .receive 6 ⟨[]⟩]

theorem hello_run : ∃ start s, connect Codec.checksumOnly 64 64 5 = some start ∧
    Run (Guarded (Sendable Codec.checksumOnly)
      fun s event s' => s.step Codec.checksumOnly 1 {} event = some s') start helloEvents s ∧
    s.requested = [helloPacket] ∧ s.client.sendDataQueue = [] ∧ s.stream = [] ∧ s.rank = 0 := by
  have result : ((connect Codec.checksumOnly 64 64 5).bind fun start =>
      helloEvents.foldlM (fun s event => if Sendable Codec.checksumOnly s event then
        s.step Codec.checksumOnly 1 {} event else none) start).map
          (fun s => (s.requested, s.client.sendDataQueue, s.stream, s.rank)) =
        some ([helloPacket], [], [], 0) := by decide +kernel
  obtain ⟨s, run, fields⟩ := Option.map_eq_some_iff.mp result
  obtain ⟨start, made, run⟩ := Option.bind_eq_some_iff.mp run
  simp only [Prod.mk.injEq] at fields
  obtain ⟨requested, queue, stream, rank⟩ := fields
  exact ⟨start, s, made, Run.guarded_of_foldlM _ _ helloEvents run, requested, queue, stream, rank⟩

end Cgsf.Proof.ASIONet.Connection
