import Cgsf.Proof.Engine.Clone
import Cgsf.Proof.Engine.Receive

/-!
# Delivery on a JSON connection

`JsonBuilder` keeps the bytes in one line and rewinds only when a node it could read ends exactly
where the received bytes end. `KeepsUp` follows this on the sizes of the frames and chunks alone.
-/

namespace Cgsf.Proof.Engine
open Cgsf.Engine Library

namespace SFJsonProtocol
open Cgsf.Engine.SFJsonProtocol Cgsf.Engine.SFPacketProtocol

variable {ν : Type} (json : JsonCodec ν) (serial : Int) (desc : SessionDesc)

def Oversized (packetSize : UInt16) (f : Frame) : Prop :=
  unsignedSub packetSize.toNat headerSize < f.payload.length

instance (packetSize : UInt16) (f : Frame) : Decidable (Oversized packetSize f) :=
  inferInstanceAs (Decidable (_ < _))

def Parses (f : Frame) : Prop := (JsonObjectNode.parse json json.empty f.payload).2 ≠ 0

instance (f : Frame) : Decidable (Parses json f) := inferInstanceAs (Decidable (_ ≠ _))

def Acceptable (packetSize : UInt16) (f : Frame) : Prop :=
  ¬ Oversized packetSize f ∧ Parses json f

instance (packetSize : UInt16) (f : Frame) : Decidable (Acceptable json packetSize f) :=
  inferInstanceAs (Decidable (_ ∧ _))

def packet (f : Frame) : SFJsonPacket ν :=
  tagPacket (analyzer json) serial desc
    { packetID := f.header.packetID
      header := f.header
      node := (JsonObjectNode.parse json json.empty f.payload).1 }

/-- The packets of the frames that the protocol can accept. -/
def packets (packetSize : UInt16) (frames : List Frame) : List (SFJsonPacket ν) :=
  (frames.filter (Acceptable json packetSize)).map (packet json serial desc)

/-- Every chunk enters the buffer whole, the objects arrive in order, and at the end no byte is left
waiting. An error report ends the connection, and is in place only if a frame is not acceptable. -/
def Faithful (refusable : Prop) :
    SFJsonProtocol → List (List UInt8) → List (SFJsonPacket ν) → Prop
  | t, [], objects => objects = [] ∧ t.builder.getUsedBufferSize = 0
  | t, chunk :: chunks, objects =>
      (∃ builder, t.builder.addBuffer chunk = some (builder, true)) ∧
        ∃ r, onReceive (analyzer json) serial desc () t chunk = some r ∧
          (refusable ∧ r.ok = false ∨
            ∃ later, objects = r.sent ++ later ∧ Faithful refusable r.analyzer chunks later)

/-- Frames of which some bytes have arrived, and whether the buffer was rewound. -/
structure Backlog where
  frames : List Frame
  held : Nat
  rewound : Bool

/-- One round of the receive loop with `held` bytes of the frames in the buffer. -/
def settle (packetSize : UInt16) : List Frame → Nat → Backlog
  | [], held => ⟨[], held, false⟩
  | f :: frames, held =>
      if Oversized packetSize f ∨ held < f.bytes.length then ⟨f :: frames, held, false⟩
      else if ¬ Parses json f then ⟨frames, held - f.bytes.length, false⟩
      else if held = f.bytes.length then ⟨frames, 0, true⟩
      else settle packetSize frames (held - f.bytes.length)

/-- Every chunk has room behind the bytes received since the last rewinding, and the loop gets
through all frames before the chunks end. -/
def KeepsUp (packetSize : UInt16) (ioSize : Int) :
    List Frame → Nat → Nat → List (List UInt8) → Prop
  | frames, _, _, [] => frames = []
  | frames, held, written, chunk :: chunks =>
      ((written + chunk.length : Nat) : Int) ≤ ioSize ∧
        let left := settle json packetSize frames (held + chunk.length)
        KeepsUp packetSize ioSize left.frames left.held
          (if left.rewound then 0 else written + chunk.length) chunks

instance decidableKeepsUp (packetSize : UInt16) (ioSize : Int) :
    (frames : List Frame) → (held written : Nat) → (chunks : List (List UInt8)) →
      Decidable (KeepsUp json packetSize ioSize frames held written chunks)
  | frames, _, _, [] => inferInstanceAs (Decidable (frames = []))
  | _, _, _, _ :: chunks =>
      have later := decidableKeepsUp packetSize ioSize _ _ _ chunks
      @instDecidableAnd _ _ _ later

/-- The builder holds `pending` in front of its write offset. -/
structure Buffered (b : JsonBuilder) (pending : List UInt8) (written : Nat) : Prop where
  size : (b.bufferPtr.length : Int) = b.ioSize
  writtenOffset : b.writtenOffset = written
  offsets : b.readOffset + pending.length = written
  content : read? b.bufferPtr b.readOffset pending.length = some pending

/-- The builder with both offsets at the start of its buffer. -/
def rewound (b : JsonBuilder) : JsonBuilder := { b with readOffset := 0, writtenOffset := 0 }

namespace Buffered

variable {b : JsonBuilder} {pending : List UInt8} {written : Nat}

theorem used (buffered : Buffered b pending written) :
    b.getUsedBufferSize = pending.length := by
  have written := buffered.writtenOffset
  have offsets := buffered.offsets
  rw [JsonBuilder.getUsedBufferSize, unsignedSub, if_pos (by omega)]
  omega

theorem addBuffer (buffered : Buffered b pending written) (chunk : List UInt8)
    (room : ((written + chunk.length : Nat) : Int) ≤ b.ioSize) :
    ∃ b', b.addBuffer chunk = some (b', true) ∧ b'.ioSize = b.ioSize ∧
      Buffered b' (pending ++ chunk) (written + chunk.length) := by
  have size := buffered.size
  have offsets := buffered.offsets
  have inside : written + chunk.length ≤ b.bufferPtr.length := by omega
  refine ⟨{ b with
    bufferPtr := splice b.bufferPtr written chunk
    writtenOffset := written + chunk.length }, ?_, rfl, ?_⟩
  · rw [JsonBuilder.addBuffer, buffered.writtenOffset, if_neg (by omega), write?, if_pos inside,
      Option.map_some]
  · refine ⟨?_, rfl, ?_, ?_⟩
    · dsimp only
      rwa [splice_length _ _ _ inside]
    · rw [List.length_append]
      dsimp only
      omega
    · dsimp only
      rw [List.length_append, ← offsets]
      exact read?_splice buffered.content chunk (by omega)

theorem skip (buffered : Buffered b pending written) (n : Nat) (le : n ≤ pending.length) :
    Buffered (b.incReadOffset n) (pending.drop n) written := by
  refine ⟨buffered.size, buffered.writtenOffset, ?_, ?_⟩
  · have offsets := buffered.offsets
    rw [List.length_drop]
    change b.readOffset + n + (pending.length - n) = written
    omega
  · rw [List.length_drop]
    exact read?_drop buffered.content n le

theorem front (buffered : Buffered b pending written) (n : Nat) (le : n ≤ pending.length) :
    b.getBuffer n = some (pending.take n) := read?_take buffered.content n le

theorem rewind (buffered : Buffered b [] written) :
    Buffered (rewound b) [] 0 :=
  ⟨buffered.size, rfl, rfl, rfl⟩

end Buffered

variable {t : SFJsonProtocol} {f : Frame} {pending later more rest : List UInt8} {written : Nat}

theorem getBuffer_header (buffered : Buffered t.builder pending written)
    (long : headerSize ≤ pending.length) (joined : pending ++ later = f.bytes ++ more) :
    ∃ bs, t.builder.getBuffer headerSize = some bs ∧ SFPacketHeader.ofBytes bs = f.header := by
  refine ⟨_, buffered.front headerSize long, ?_⟩
  change Frame.frontHeader pending = f.header
  rw [← Frame.frontHeader_append pending later long, joined, Frame.frontHeader_front]

theorem getPacket_short (buffered : Buffered t.builder pending written)
    (short : pending.length < headerSize) :
    getPacket json t = some (t, packetIOErrorNone, none) := by
  rw [getPacket, getCompleteNode, buffered.used, if_pos short]
  rfl

theorem getPacket_waits (buffered : Buffered t.builder pending written)
    (wellFormed : f.WellFormed) (joined : pending ++ later = f.bytes ++ more)
    (waits : Oversized t.packetSize f ∨ pending.length < f.bytes.length) :
    getPacket json t = some (t, packetIOErrorNone, none) := by
  by_cases short : pending.length < headerSize
  · exact getPacket_short json buffered short
  · obtain ⟨bs, front, header⟩ := getBuffer_header buffered (by omega) joined
    rw [getPacket, getCompleteNode, buffered.used, if_neg short, front, Option.bind_some]
    dsimp only
    rw [header, wellFormed]
    rcases waits with large | missing
    · rw [if_pos (show f.payload.length > unsignedSub _ _ from large)]
      rfl
    · rw [Frame.length_bytes] at missing
      split
      · rfl
      · rw [if_pos (by omega)]
        rfl

theorem popCompleteNode_front {b : JsonBuilder} {payload : List UInt8}
    (buffered : Buffered b (payload ++ rest) written) (node : ν) :
    ∃ after, after.ioSize = b.ioSize ∧ Buffered after rest written ∧
      b.popCompleteNode json node payload.length = some
        (if (JsonObjectNode.parse json node payload).2 = 0 then
          (after, (JsonObjectNode.parse json node payload).1, false)
        else (if rest = [] then rewound after else after,
          (JsonObjectNode.parse json node payload).1, true)) := by
  have content := buffered.front payload.length (by rw [List.length_append]; omega)
  rw [List.take_left] at content
  have after := buffered.skip payload.length (by rw [List.length_append]; omega)
  rw [List.drop_left] at after
  refine ⟨b.incReadOffset payload.length, rfl, after, ?_⟩
  have ends : (b.incReadOffset payload.length).readOffset =
      (b.incReadOffset payload.length).writtenOffset ↔ rest = [] := by
    rw [after.writtenOffset, ← List.length_eq_zero_iff]
    have offsets := after.offsets
    omega
  rw [JsonBuilder.popCompleteNode, content, Option.map_some]
  generalize JsonObjectNode.parse json node payload = parsed
  obtain ⟨node, usedSize⟩ := parsed
  dsimp only
  split
  · rfl
  · split
    · rw [if_pos (ends.mp ‹_›)]
      rfl
    · rw [if_neg (mt ends.mpr ‹_›)]

/-- A frame that is there and not too long is parsed and left behind. -/
theorem getPacket_frame (buffered : Buffered t.builder (f.bytes ++ rest) written)
    (wellFormed : f.WellFormed) (fits : ¬ Oversized t.packetSize f) :
    ∃ builder, builder.ioSize = t.builder.ioSize ∧ Buffered builder rest written ∧
      getPacket json t = some (if Parses json f then
          ({ t with builder := if rest = [] then rewound builder else builder }, packetIOErrorNone,
            some { packetID := f.header.packetID
                   header := f.header
                   node := (JsonObjectNode.parse json json.empty f.payload).1 })
        else ({ t with builder }, packetIOErrorNone, none)) := by
  have whole : (f.bytes ++ rest).length = headerSize + f.payload.length + rest.length := by
    rw [List.length_append, Frame.length_bytes]
  obtain ⟨bs, front, header⟩ := getBuffer_header buffered (by omega) (List.append_nil _)
  have body := buffered.skip headerSize (by omega)
  rw [Frame.bytes, List.append_assoc, List.drop_left' (SFPacketHeader.length_bytes _)] at body
  obtain ⟨after, size, left, popped⟩ := popCompleteNode_front json body json.empty
  refine ⟨after, size, left, ?_⟩
  rw [getPacket, getCompleteNode, buffered.used, if_neg (by omega), front, Option.bind_some]
  dsimp only
  rw [header, wellFormed,
    if_neg (show ¬ f.payload.length > unsignedSub _ _ from fits), if_neg (by omega), popped, Option.map_some, Option.map_some]
  by_cases parses : Parses json f
  · rw [if_pos parses, if_neg parses]
    rfl
  · rw [if_neg parses, if_pos (Classical.not_not.mp parses)]
    rfl

/-- `held` bytes of the frames are in the buffer, and `later` is still to come. -/
structure Waiting (t : SFJsonProtocol) (frames : List Frame) (held written : Nat)
    (later : List UInt8) : Prop where
  wellFormed : ∀ f ∈ frames, f.WellFormed
  buffered : ∃ pending, pending.length = held ∧ Buffered t.builder pending written ∧
    pending ++ later = frames.flatMap Frame.bytes

theorem packets_cons (packetSize : UInt16) (f : Frame) (frames : List Frame) :
    packets json serial desc packetSize (f :: frames) =
      if Acceptable json packetSize f then
        packet json serial desc f :: packets json serial desc packetSize frames
      else packets json serial desc packetSize frames := by
  rw [packets, List.filter_cons]
  by_cases acceptable : Acceptable json packetSize f
  · rw [if_pos acceptable, if_pos (decide_eq_true acceptable), List.map_cons, packets]
  · rw [if_neg acceptable, if_neg (by simpa using acceptable), packets]

theorem receiveLoop_nothing (fuel : Nat) (iErrorCode : Int) {t' : SFJsonProtocol}
    (action : getPacket json t = some (t', packetIOErrorNone, none)) :
    receiveLoop (analyzer json) serial desc (fuel + 1) () t iErrorCode =
      some (⟨t', (), [], true⟩, packetIOErrorNone) := by
  refine SFPacketProtocol.receiveLoop_done fuel ?_
  change (getPacket json t).map _ = _
  rw [action]
  rfl

theorem receiveLoop_object (fuel : Nat) (iErrorCode : Int) {t' : SFJsonProtocol}
    (action : getPacket json t = some (t', packetIOErrorNone,
      some { packetID := f.header.packetID
             header := f.header
             node := (JsonObjectNode.parse json json.empty f.payload).1 })) :
    receiveLoop (analyzer json) serial desc (fuel + 1) () t iErrorCode =
      (receiveLoop (analyzer json) serial desc fuel () t' packetIOErrorNone).map fun r =>
        ({ r.1 with sent := packet json serial desc f :: r.1.sent }, r.2) := by
  refine SFPacketProtocol.receiveLoop_packet fuel ?_
  change (getPacket json t).map _ = _
  rw [action]
  rfl

theorem settle_zero (packetSize : UInt16) (frames : List Frame) :
    settle json packetSize frames 0 = ⟨frames, 0, false⟩ := by
  cases frames with
  | nil => rfl
  | cons f frames =>
      rw [settle, if_pos (.inr (by rw [Frame.length_bytes, headerSize]; omega))]

theorem settle_object {packetSize : UInt16} (written : Nat) (rest : List UInt8)
    (fits : ¬ Oversized packetSize f) (parses : Parses json f) (frames : List Frame) :
    let left := settle json packetSize (f :: frames) (f.bytes ++ rest).length
    let next := settle json packetSize frames rest.length
    left.frames = next.frames ∧ left.held = next.held ∧
      (if left.rewound then 0 else written) =
        if next.rewound then 0 else if rest = [] then 0 else written := by
  rw [settle, List.length_append, if_neg (by rw [not_or]; exact ⟨fits, by omega⟩),
    if_neg (not_not.mpr parses), Nat.add_sub_cancel_left]
  by_cases nothing : rest = []
  · rw [if_pos (by simp [nothing]), nothing, List.length_nil, settle_zero]
    simp
  · have some : rest.length ≠ 0 := by simpa using nothing
    rw [if_neg (by omega), if_neg nothing]
    simp

theorem receiveLoop_settles (fuel : Nat) (t : SFJsonProtocol) (iErrorCode : Int)
    (frames : List Frame) (held written : Nat) (later : List UInt8)
    (waiting : Waiting t frames held written later) (enough : held < fuel) :
    let left := settle json t.packetSize frames held
    ∃ t' sent, receiveLoop (analyzer json) serial desc fuel () t iErrorCode =
        some (⟨t', (), sent, true⟩, packetIOErrorNone) ∧
      t'.packetSize = t.packetSize ∧ t'.builder.ioSize = t.builder.ioSize ∧
      Waiting t' left.frames left.held (if left.rewound then 0 else written) later ∧
      packets json serial desc t.packetSize frames =
        sent ++ packets json serial desc t.packetSize left.frames := by
  intro left
  obtain ⟨fuel, rfl⟩ := Nat.exists_eq_add_one_of_ne_zero (Nat.ne_zero_of_lt enough)
  induction frames generalizing fuel t iErrorCode held written with
  | nil =>
      obtain ⟨pending, length, buffered, joined⟩ := waiting.buffered
      have nothing : pending = [] := (List.append_eq_nil_iff.mp joined).1
      refine ⟨t, [], receiveLoop_nothing json serial desc fuel iErrorCode ?_, rfl, rfl, waiting, rfl⟩
      exact getPacket_short json buffered (by rw [nothing]; decide)
  | cons f frames ih =>
      obtain ⟨pending, rfl, buffered, joined⟩ := waiting.buffered
      have wellFormed := waiting.wellFormed f (List.mem_cons_self ..)
      have others : ∀ g ∈ frames, g.WellFormed :=
        fun g member => waiting.wellFormed g (List.mem_cons_of_mem f member)
      rw [List.flatMap_cons] at joined
      by_cases waits : Oversized t.packetSize f ∨ pending.length < f.bytes.length
      · have stays : left = ⟨f :: frames, pending.length, false⟩ := by
          change settle json t.packetSize (f :: frames) pending.length = _
          rw [settle, if_pos waits]
        have nothing := getPacket_waits json buffered wellFormed joined waits
        rw [stays]
        exact ⟨t, [], receiveLoop_nothing json serial desc fuel iErrorCode nothing, rfl, rfl,
          waiting, rfl⟩
      · obtain ⟨fits, arrived⟩ := not_or.mp waits
        obtain ⟨rest, rfl⟩ : f.bytes <+: pending :=
          List.prefix_of_prefix_length_le ⟨_, joined.symm⟩ ⟨_, rfl⟩ (by omega)
        rw [List.append_assoc, List.append_cancel_left_eq] at joined
        have length := Frame.length_bytes f
        rw [headerSize] at length
        rw [List.length_append] at enough
        obtain ⟨after, size, rested, got⟩ := getPacket_frame json buffered wellFormed fits
        by_cases parses : Parses json f
        · have acceptable : Acceptable json t.packetSize f := ⟨fits, parses⟩
          rw [if_pos parses] at got
          obtain ⟨fuel, rfl⟩ := Nat.exists_eq_add_one_of_ne_zero (by omega : fuel ≠ 0)
          have agrees := settle_object json written rest fits parses frames
          have moved : Waiting
              { t with builder := if rest = [] then rewound after else after } frames rest.length
              (if rest = [] then 0 else written) later := by
            refine ⟨others, rest, rfl, ?_, joined⟩
            split
            · rename_i nothing
              rw [nothing] at rested ⊢
              exact rested.rewind
            · exact rested
          obtain ⟨t', sent, run, same, ioSize, waiting', made⟩ :=
            ih _ packetIOErrorNone rest.length _ moved fuel (by omega)
          refine ⟨t', packet json serial desc f :: sent, ?_, same, ?_, ?_, ?_⟩
          · rw [receiveLoop_object json serial desc _ iErrorCode got, run]
            rfl
          · rw [ioSize, ← size, apply_ite JsonBuilder.ioSize, rewound, ite_self]
          · rw [agrees.1, agrees.2.1, agrees.2.2]
            exact waiting'
          · rw [packets_cons, if_pos acceptable, agrees.1, made]
            rfl
        · have dropped : left = ⟨frames, rest.length, false⟩ := by
            change settle json t.packetSize (f :: frames) (f.bytes ++ rest).length = _
            rw [settle, if_neg waits, if_pos parses, List.length_append, Nat.add_sub_cancel_left]
          rw [if_neg parses] at got
          rw [dropped]
          refine ⟨{ t with builder := after }, [],
            receiveLoop_nothing json serial desc fuel iErrorCode got, rfl, size,
            ⟨others, rest, rfl, rested, joined⟩, ?_⟩
          rw [packets_cons, if_neg (fun acceptable => parses acceptable.2)]
          rfl

theorem onReceive_settles {frames : List Frame} {held : Nat} {chunk : List UInt8}
    (waiting : Waiting t frames held written (chunk ++ later))
    (room : ((written + chunk.length : Nat) : Int) ≤ t.builder.ioSize) :
    let left := settle json t.packetSize frames (held + chunk.length)
    (∃ builder, t.builder.addBuffer chunk = some (builder, true)) ∧
      ∃ t' sent, onReceive (analyzer json) serial desc () t chunk = some ⟨t', (), sent, true⟩ ∧
        t'.packetSize = t.packetSize ∧ t'.builder.ioSize = t.builder.ioSize ∧
        Waiting t' left.frames left.held (if left.rewound then 0 else written + chunk.length)
          later ∧
        packets json serial desc t.packetSize frames =
          sent ++ packets json serial desc t.packetSize left.frames := by
  obtain ⟨pending, rfl, buffered, joined⟩ := waiting.buffered
  obtain ⟨builder, added, size, appended⟩ := buffered.addBuffer chunk room
  have grown : Waiting { t with builder } frames (pending.length + chunk.length)
      (written + chunk.length) later :=
    ⟨waiting.wellFormed, pending ++ chunk, List.length_append, appended,
      by rw [List.append_assoc, joined]⟩
  have transferred : (analyzer json).addTransferredData t chunk =
      some ({ t with builder }, true) := by
    change (t.builder.addBuffer chunk).map _ = _
    rw [added]
    rfl
  have used : (analyzer json).pending { t with builder } = pending.length + chunk.length := by
    change builder.getUsedBufferSize = _
    rw [appended.used, List.length_append]
  obtain ⟨t', sent, run, same, ioSize, waiting', made⟩ :=
    receiveLoop_settles json serial desc _ _ packetIOErrorNone frames _ _ later grown
      (Nat.lt_succ_self _)
  refine ⟨⟨builder, added⟩, t', sent, ?_, same, ioSize.trans size, waiting', made⟩
  rw [SFPacketProtocol.onReceive_added transferred, used, run]
  rfl

theorem addBuffer_full (buffered : Buffered t.builder pending written) (chunk : List UInt8)
    (full : ¬ ((written + chunk.length : Nat) : Int) ≤ t.builder.ioSize) :
    t.builder.addBuffer chunk = some (t.builder, false) := by
  rw [JsonBuilder.addBuffer, buffered.writtenOffset, if_pos (by omega)]

theorem faithful_iff (refusable : Prop) (chunks : List (List UInt8)) (t : SFJsonProtocol)
    (frames : List Frame) (held written : Nat)
    (waiting : Waiting t frames held written chunks.flatten) :
    Faithful json serial desc refusable t chunks (packets json serial desc t.packetSize frames) ↔
      KeepsUp json t.packetSize t.builder.ioSize frames held written chunks := by
  induction chunks generalizing t frames held written with
  | nil =>
      obtain ⟨pending, -, buffered, joined⟩ := waiting.buffered
      rw [List.flatten_nil, List.append_nil] at joined
      rw [Faithful, KeepsUp, buffered.used, joined]
      constructor
      · rintro ⟨-, nothing⟩
        cases frames with
        | nil => rfl
        | cons f frames =>
            rw [List.flatMap_cons, List.length_append, Frame.length_bytes, headerSize] at nothing
            omega
      · rintro rfl
        exact ⟨rfl, rfl⟩
  | cons chunk chunks ih =>
      obtain ⟨pending, length, buffered, -⟩ := waiting.buffered
      rw [Faithful, KeepsUp]
      by_cases room : ((written + chunk.length : Nat) : Int) ≤ t.builder.ioSize
      · obtain ⟨added, t', sent, run, same, ioSize, waiting', made⟩ :=
          onReceive_settles json serial desc waiting room
        have step := ih t' _ _ _ waiting'
        rw [same, ioSize] at step
        rw [← step, made]
        constructor
        · rintro ⟨-, r, run', continued⟩
          obtain rfl := Option.some.inj (run.symm.trans run')
          rcases continued with ⟨-, refused⟩ | ⟨later, split, faithful⟩
          · cases refused
          · rw [List.append_cancel_left_eq] at split
            exact ⟨room, split ▸ faithful⟩
        · rintro ⟨-, faithful⟩
          exact ⟨added, _, run, .inr ⟨_, rfl, faithful⟩⟩
      · constructor
        · rintro ⟨⟨builder, added⟩, -⟩
          rw [addBuffer_full buffered chunk room] at added
          cases added
        · rintro ⟨fits, -⟩
          exact absurd fits room

theorem construct_waiting {bufferIOSize : Int} {packetDataSize : UInt16} {packetOption : UInt32}
    (made : construct (analyzer json) bufferIOSize packetDataSize packetOption = some t)
    {frames : List Frame} (wellFormed : ∀ f ∈ frames, f.WellFormed)
    (cut : later = frames.flatMap Frame.bytes) :
    t.packetSize = (clampSizes bufferIOSize packetDataSize).2 ∧
      t.builder.ioSize = (clampSizes bufferIOSize packetDataSize).1 ∧
      Waiting t frames 0 0 later := by
  obtain ⟨builder, prepared, rfl⟩ := Option.map_eq_some_iff.mp made
  rw [JsonBuilder.prepareBuffer] at prepared
  split at prepared
  · cases prepared
  · cases prepared
    refine ⟨rfl, rfl, wellFormed, [], rfl, ⟨?_, rfl, rfl, rfl⟩, cut⟩
    simp only [List.length_replicate]
    omega

/-- The frames of one connection, cut into chunks in any way, are received faithfully if and only if
the buffer keeps up with them. -/
theorem stream_faithful_iff (bufferIOSize : Int) (packetDataSize : UInt16) (packetOption : UInt32)
    (t : SFJsonProtocol)
    (made : construct (analyzer json) bufferIOSize packetDataSize packetOption = some t)
    (frames : List Frame) (chunks : List (List UInt8)) (wellFormed : ∀ f ∈ frames, f.WellFormed)
    (cut : chunks.flatten = frames.flatMap Frame.bytes) :
    Faithful json serial desc (∃ f ∈ frames, ¬ Acceptable json t.packetSize f) t chunks
        (packets json serial desc t.packetSize frames) ↔
      KeepsUp json (clampSizes bufferIOSize packetDataSize).2
        (clampSizes bufferIOSize packetDataSize).1 frames 0 0 chunks := by
  obtain ⟨packetSize, ioSize, waiting⟩ := construct_waiting json made wellFormed cut
  rw [faithful_iff json serial desc _ chunks t frames 0 0 waiting, packetSize, ioSize]

/-- Texts between braces, kept as they are. -/
def bracedText : JsonCodec (List UInt8) where
  empty := []
  read := fun _ text => (text, text.head? == some 123 && text.getLast? == some 125)
  write := id

/-- `{"n":10}` behind its header. -/
def numberFrame : Frame := ⟨{ packetID := 7, dataSize := 8 }, [123, 34, 110, 34, 58, 49, 48, 125]⟩

def garbledFrame : Frame := ⟨{ packetID := 7, dataSize := 3 }, [123, 34, 110]⟩

theorem two_numbers_faithful :
    ∃ t, construct (analyzer bracedText) 64 64 0 = some t ∧
      Faithful bracedText 1 {} (∃ f ∈ [numberFrame, numberFrame],
          ¬ Acceptable bracedText t.packetSize f) t
        [numberFrame.bytes ++ numberFrame.bytes.take 10, numberFrame.bytes.drop 10]
        (packets bracedText 1 {} t.packetSize [numberFrame, numberFrame]) :=
  ⟨_, rfl, (stream_faithful_iff bracedText 1 {} 64 64 0 _ rfl [numberFrame, numberFrame]
    [numberFrame.bytes ++ numberFrame.bytes.take 10, numberFrame.bytes.drop 10] (by decide)
    (by decide)).mpr (by decide)⟩

/-- Four frames of 20 bytes in chunks that never end where a frame ends: the third chunk finds the
64 bytes of the buffer used up. -/
theorem unaligned_chunk_dropped :
    ¬ ∀ (bufferIOSize : Int) (packetDataSize : UInt16) (packetOption : UInt32) (t : SFJsonProtocol),
      construct (analyzer bracedText) bufferIOSize packetDataSize packetOption = some t →
      ∀ (frames : List Frame) (chunks : List (List UInt8)),
      (∀ f ∈ frames, f.WellFormed ∧ Parses bracedText f ∧
        f.bytes.length ≤ packetDataSize.toNat ∧ (f.bytes.length : Int) ≤ bufferIOSize) →
      chunks.flatten = frames.flatMap Frame.bytes →
      Faithful bracedText 1 {} (∃ f ∈ frames, ¬ Acceptable bracedText t.packetSize f) t chunks
        (packets bracedText 1 {} t.packetSize frames) := by
  intro all
  let frames := List.replicate 4 numberFrame
  let stream := frames.flatMap Frame.bytes
  let chunks := [stream.take 30, (stream.drop 30).take 20, (stream.drop 50).take 20, stream.drop 70]
  obtain ⟨t, made⟩ : ∃ t, construct (analyzer bracedText) 64 64 0 = some t := ⟨_, rfl⟩
  obtain ⟨packetSize, ioSize, waiting⟩ := construct_waiting bracedText made
    (by decide : ∀ f ∈ frames, f.WellFormed) (by decide : chunks.flatten = _)
  have keeps := (faithful_iff bracedText 1 {} _ chunks t frames 0 0 waiting).mp
    (all 64 64 0 t made frames chunks (by decide) (by decide))
  rw [packetSize, ioSize] at keeps
  exact absurd keeps (by decide)

/-- Behind a text that does not parse, what came with it stays in the buffer. -/
example : ¬ KeepsUp bracedText 64 64 [garbledFrame, numberFrame] 0 0
    [garbledFrame.bytes ++ numberFrame.bytes] := by decide

end SFJsonProtocol

end Cgsf.Proof.Engine
