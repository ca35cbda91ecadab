import Cgsf.Library.Reassembly
import Cgsf.Proof.Engine.ProtobufProgress
import Cgsf.Proof.Engine.Receive
import Mathlib.Logic.Function.Basic

/-!
# What a protobuf connection delivers

A packet object keeps the stream of its first encoding, and the receive buffer refuses a chunk that
does not fit behind the unfinished frame. Apart from that, frames come out as they were sent.
-/

namespace Cgsf.Proof.Engine.SFProtobufProtocol
open Cgsf.Engine Library Cgsf.Engine.SFProtobufProtocol Cgsf.Engine.SFPacketProtocol

variable {μ : Type} (messages : MessageCodec μ) (create : UInt16 → Option (SFProtobufPacket μ))

theorem fields_append {bytes : List UInt8} (more : List UInt8) (long : 8 ≤ bytes.length) :
    start (bytes ++ more) = start bytes ∧ declared (bytes ++ more) = declared bytes ∧
      frameId (bytes ++ more) = frameId bytes := by
  have field (offset : Nat) (inside : offset + 2 ≤ bytes.length) :
      ((bytes ++ more).drop offset).take 2 = (bytes.drop offset).take 2 := by
    rw [List.drop_append_of_le_length (by omega),
      List.take_append_of_le_length (by rw [List.length_drop]; omega)]
  refine ⟨congrArg leValue (field 0 (by omega)), congrArg leValue (field 2 (by omega)), ?_⟩
  rw [frameId, frameId, field 4 (by omega)]

theorem ending_append {bytes : List UInt8} (more : List UInt8) (long : 8 ≤ bytes.length)
    (inside : declared bytes ≤ bytes.length) : ending (bytes ++ more) = ending bytes := by
  rw [ending, ending, (fields_append more long).2.1, List.drop_append_of_le_length (by omega),
    List.take_append_of_le_length (by rw [List.length_drop]; omega)]

theorem declared_lt (bytes : List UInt8) : declared bytes < 2 ^ 16 :=
  lt_of_lt_of_le (leValue_lt _) (Nat.pow_le_pow_right (by omega) (List.length_take_le _ _))

abbrev Frame := UInt16 × List UInt8

def nextFrame (bytes : List UInt8) : Next Frame :=
  if bytes.length < 8 then .incomplete
  else if start bytes ≠ signatureStart then .malformed
  else if bytes.length < declared bytes then .incomplete
  else if declared bytes < 8 ∨ ending bytes ≠ signatureEnd ∨ create (frameId bytes) = none then
    .malformed
  else .frame (frameId bytes, (bytes.drop 6).take (declared bytes - 8))

theorem nextFrame_front (packetId : UInt16) {payload : List UInt8} (rest : List UInt8)
    (small : payload.length + 8 < 2 ^ 16) (known : create packetId ≠ none) :
    nextFrame create (frame packetId payload ++ rest) = .frame (packetId, payload) := by
  have size := declared_frame packetId rest small
  have bound : payload.length + 8 ≤ (frame packetId payload ++ rest).length := by
    rw [List.length_append, length_frame]
    omega
  rw [nextFrame, if_neg (by omega), start_frame, if_neg (not_not.mpr rfl), size, if_neg (by omega),
    ending_frame _ _ small, frameId_frame, if_neg (by simpa using known), Nat.add_sub_cancel,
    payload_frame]

theorem nextFrame_iff (bytes : List UInt8) (found : Frame) :
    nextFrame create bytes = .frame found ↔
      (found.2.length + 8 < 2 ^ 16 ∧ create found.1 ≠ none) ∧ frame found.1 found.2 <+: bytes := by
  constructor
  · intro front
    rw [nextFrame] at front
    split at front
    · contradiction
    · split at front
      · contradiction
      · rename_i marked
        split at front
        · contradiction
        · rename_i inside
          split at front
          · contradiction
          · rename_i fits
            obtain ⟨large, ended, known⟩ := not_or.mp fits |>.imp_right not_or.mp
            obtain rfl := Next.frame.inj front
            have word := declared_lt bytes
            have split := frame_of_fields bytes (not_not.mp marked) (by omega) (by omega)
              (not_not.mp ended)
            refine ⟨⟨?_, known⟩, _, split.symm⟩
            rw [List.length_take, List.length_drop]
            omega
  · rintro ⟨⟨small, known⟩, rest, rfl⟩
    exact nextFrame_front create found.1 rest small known

theorem nextFrame_malformed (bytes more : List UInt8)
    (malformed : nextFrame create bytes = .malformed) :
    nextFrame create (bytes ++ more) = .malformed := by
  rw [nextFrame] at malformed
  split at malformed
  · contradiction
  · rename_i short
    obtain ⟨starts, declares, identifies⟩ := fields_append more (Nat.le_of_not_lt short)
    have longer : ¬ (bytes ++ more).length < 8 := by
      rw [List.length_append]
      omega
    rw [nextFrame, if_neg longer, starts, declares, identifies]
    split at malformed
    · rename_i bad
      rw [if_pos bad]
    · rename_i marked
      split at malformed
      · contradiction
      · rename_i inside
        rw [if_neg marked, if_neg (by rw [List.length_append]; omega),
          ending_append more (Nat.le_of_not_lt short) (Nat.le_of_not_lt inside)]
        split at malformed
        · rename_i bad
          rw [if_pos bad]
        · contradiction

def framing : Deframer UInt8 Frame where
  next := nextFrame create
  encode := fun f => frame f.1 f.2
  Accepts := fun f => f.2.length + 8 < 2 ^ 16 ∧ create f.1 ≠ none
  next_frame := nextFrame_iff create
  encode_ne_nil := fun f _ empty => by
    have length := length_frame f.1 f.2
    rw [empty] at length
    exact absurd length (by simp)
  next_nil := rfl
  malformed_append := nextFrame_malformed create

theorem nextFrame_incomplete {bytes : List UInt8} (waits : nextFrame create bytes = .incomplete) :
    bytes.length < 8 ∨ start bytes = signatureStart ∧ bytes.length < declared bytes := by
  rw [nextFrame] at waits
  split at waits
  · rename_i short
    exact .inl short
  · split at waits
    · contradiction
    · rename_i marked
      split at waits
      · rename_i behind
        exact .inr ⟨not_not.mp marked, behind⟩
      · split at waits <;> contradiction

theorem getPacket_incomplete (t : SFProtobufProtocol) (held : t.buffer.data.length < 2 ^ 31)
    (waits : nextFrame create t.buffer.data = .incomplete) :
    getPacket messages create t = some (t, 0, none) := by
  have short := nextFrame_incomplete create waits
  have outcome := tryDeframe_outcome messages create t.buffer held
  generalize run : tryDeframeIncomingPacket messages create t.buffer = result at outcome
  cases outcome with
  | waiting packetId _ =>
      rw [getPacket, run]
      rfl
  | badStart long bad => exact absurd (short.resolve_left (by omega)).1 bad
  | badEnd long inside bad => omega
  | outside long small => omega
  | unknown long inside unknown => omega
  | complete payload rest p small split known =>
      have size := declared_frame (frameId t.buffer.data) rest small
      have length := congrArg List.length split
      rw [← split] at size
      rw [List.length_append, length_frame] at length
      omega

/-- The packet that a frame is decoded to, before the session tags it. -/
def decoded (f : Frame) : Option (SFProtobufPacket μ) :=
  (create f.1).bind fun p => (p.decode messages f.2).map fun p => { p with packetID := f.1 }

theorem getPacket_frame (t : SFProtobufProtocol) (held : t.buffer.data.length < 2 ^ 31)
    {f : Frame} {rest : List UInt8} (found : nextFrame create t.buffer.data = .frame f)
    (front : t.buffer.data = frame f.1 f.2 ++ rest) {p : SFProtobufPacket μ}
    (decodes : decoded messages create f = some p) :
    getPacket messages create t =
      some ({ t with buffer := { t.buffer with data := rest } }, 0, some p) := by
  obtain ⟨⟨small, -⟩, -⟩ := (nextFrame_iff create _ f).mp found
  obtain ⟨made, known, parsed⟩ := Option.bind_eq_some_iff.mp decodes
  obtain ⟨p', parses, rfl⟩ := Option.map_eq_some_iff.mp parsed
  have length := congrArg List.length front
  rw [List.length_append, length_frame] at length
  have size := declared_frame f.1 rest small
  have identity := frameId_frame f.1 f.2 rest
  have marked := start_frame f.1 f.2 rest
  have ended := ending_frame f.1 rest small
  rw [← front] at size identity marked ended
  have outcome := tryDeframe_outcome messages create t.buffer held
  generalize run : tryDeframeIncomingPacket messages create t.buffer = result at outcome
  cases outcome with
  | waiting packetId short => omega
  | badStart long bad => exact absurd marked bad
  | badEnd long inside bad => exact absurd ended bad
  | outside long tiny => omega
  | unknown long inside unknown =>
      rw [identity, known] at unknown
      contradiction
  | complete payload rest' p'' small' split known' =>
      rw [identity] at split known' run
      obtain rfl : made = p'' := Option.some.inj (known.symm.trans known')
      have same : (⟨f.1, payload⟩ : Frame) = f := by
        rw [split, nextFrame_front create f.1 rest' small' (by rw [known]; exact Option.some_ne_none _)]
          at found
        exact Next.frame.inj found
      obtain rfl : payload = f.2 := congrArg Prod.snd same
      have behind : t.buffer.data.drop (f.2.length + 8) = rest := by
        rw [front, List.drop_left' (length_frame _ _)]
      rw [getPacket, run, decodeFrame, parses]
      simp only [DataBuffer.pop, behind, Option.bind_eq_bind, Option.bind_some, Option.map_some]
      rfl

variable (serial : Int) (desc : SessionDesc)

/-- The packets that the logic layer gets of these frames. -/
def tagged (frames : List Frame) : List (SFProtobufPacket μ) :=
  frames.filterMap fun f => (decoded messages create f).map
    (tagPacket (analyzer messages create) serial desc)

theorem tagged_append (frames later : List Frame) :
    tagged messages create serial desc (frames ++ later) =
      tagged messages create serial desc frames ++ tagged messages create serial desc later :=
  List.filterMap_append ..

/-- The receive loop takes the complete frames and leaves the unfinished one. -/
theorem receiveLoop_drain (fuel : Nat) (t : SFProtobufProtocol) (errorCode : Int)
    (held : t.buffer.data.length < 2 ^ 31) (enough : t.buffer.data.length < fuel)
    (sound : ((framing create).drain t.buffer.data).sound = true)
    (decodes : ∀ f ∈ ((framing create).drain t.buffer.data).frames,
      (decoded messages create f).isSome = true) :
    receiveLoop (analyzer messages create) serial desc fuel () t errorCode =
      some (⟨{ t with buffer := { t.buffer with
          data := ((framing create).drain t.buffer.data).rest } }, (),
        tagged messages create serial desc ((framing create).drain t.buffer.data).frames, true⟩,
        0) := by
  induction fuel generalizing t errorCode with
  | zero => omega
  | succ fuel ih =>
      cases action : (framing create).next t.buffer.data with
      | incomplete =>
          have answer : (analyzer messages create).getPacket () t errorCode = some ((), t, 0, none) := by
            change (getPacket messages create t).map _ = _
            rw [getPacket_incomplete messages create t held action]
            rfl
          rw [SFPacketProtocol.receiveLoop_done fuel answer, Deframer.drain_incomplete _ action]
          rfl
      | malformed =>
          rw [Deframer.drain_malformed _ action] at sound
          contradiction
      | frame f =>
          obtain ⟨rest, front⟩ := Deframer.frame_prefix (framing create) action
          change t.buffer.data = frame f.1 f.2 ++ rest at front
          have drained := (framing create).drain_frame (front ▸ action)
          change (framing create).drain (frame f.1 f.2 ++ rest) = _ at drained
          rw [← front] at drained
          rw [drained] at sound decodes ⊢
          obtain ⟨p, made⟩ := Option.isSome_iff_exists.mp (decodes f List.mem_cons_self)
          have answer : (analyzer messages create).getPacket () t errorCode =
              some ((), { t with buffer := { t.buffer with data := rest } }, 0, some p) := by
            change (getPacket messages create t).map _ = _
            rw [getPacket_frame messages create t held action front made]
            rfl
          have length := congrArg List.length front
          rw [List.length_append, length_frame] at length
          have later := ih { t with buffer := { t.buffer with data := rest } } 0
            (by change rest.length < _; omega) (by change rest.length < _; omega) sound
            fun g member => decodes g (List.mem_cons_of_mem f member)
          rw [SFPacketProtocol.receiveLoop_packet fuel answer, later]
          simp [tagged, Drained.after, made]

theorem onReceive_fits (t : SFProtobufProtocol) (chunk : List UInt8)
    (small : t.buffer.uMaxSize < 2 ^ 31)
    (room : t.buffer.data.length + chunk.length ≤ t.buffer.uMaxSize)
    (sound : ((framing create).drain (t.buffer.data ++ chunk)).sound = true)
    (decodes : ∀ f ∈ ((framing create).drain (t.buffer.data ++ chunk)).frames,
      (decoded messages create f).isSome = true) :
    onReceive (analyzer messages create) serial desc () t chunk =
      some ⟨{ t with buffer := { t.buffer with
          data := ((framing create).drain (t.buffer.data ++ chunk)).rest } }, (),
        tagged messages create serial desc
          ((framing create).drain (t.buffer.data ++ chunk)).frames, true⟩ := by
  have length : (t.buffer.data ++ chunk).length = t.buffer.data.length + chunk.length :=
    List.length_append
  have added : (analyzer messages create).addTransferredData t chunk =
      some ({ t with buffer := { t.buffer with data := t.buffer.data ++ chunk } }, true) := by
    change some (addTransferredData t chunk) = _
    rw [addTransferredData, DataBuffer.append, DataBuffer.getRemainingSize, if_neg (by omega)]
  rw [SFPacketProtocol.onReceive_added added, receiveLoop_drain messages create serial desc _ _ _
    (by change (t.buffer.data ++ chunk).length < _; omega) (by exact Nat.lt_succ_self _) sound
    decodes]
  rfl

theorem onReceive_full (t : SFProtobufProtocol) (chunk : List UInt8)
    (full : t.buffer.uMaxSize < t.buffer.data.length + chunk.length)
    (held : t.buffer.data.length ≤ t.buffer.uMaxSize) :
    onReceive (analyzer messages create) serial desc () t chunk = some ⟨t, (), [], false⟩ := by
  have refused : (analyzer messages create).addTransferredData t chunk = some (t, false) := by
    change some (addTransferredData t chunk) = _
    rw [addTransferredData, DataBuffer.append, DataBuffer.getRemainingSize, if_pos (by omega)]
  rw [onReceive, refused]
  rfl

/-- Frames of known ids that decode come out if and only if every chunk fits. -/
theorem receiveAll_roomy (frames : List Frame) (chunks : List (List UInt8)) (t : SFProtobufProtocol)
    (small : t.buffer.uMaxSize < 2 ^ 31) (held : t.buffer.data.length ≤ t.buffer.uMaxSize)
    (accepts : ∀ f ∈ frames, (framing create).Accepts f)
    (decodes : ∀ f ∈ frames, (decoded messages create f).isSome = true)
    (idle : (framing create).next t.buffer.data = .incomplete)
    (whole : t.buffer.data ++ chunks.flatten = frames.flatMap (framing create).encode) :
    ∃ r, receiveAll (analyzer messages create) serial desc () t chunks = some r ∧
      (r.ok = true ↔ Roomy ((framing create).sizes frames) (t.buffer.uMaxSize + 1)
        t.buffer.data.length chunks) ∧
      (r.ok = true → r.sent = tagged messages create serial desc frames) := by
  induction chunks generalizing frames t with
  | nil =>
      rw [List.flatten_nil, List.append_nil] at whole
      obtain rfl := (framing create).stream_end frames _ accepts idle whole
      exact ⟨_, rfl, iff_of_true rfl trivial, fun _ => rfl⟩
  | cons chunk chunks ih =>
      obtain ⟨later, eq, sound, waiting, whole', roomy⟩ :=
        (framing create).advance (t.buffer.uMaxSize + 1) frames _ chunk chunks accepts idle whole
      rw [roomy, Nat.lt_succ_iff]
      by_cases room : t.buffer.data.length + chunk.length ≤ t.buffer.uMaxSize
      · have now := onReceive_fits messages create serial desc t chunk small room sound
          fun f member => decodes f (by rw [eq]; exact List.mem_append_left _ member)
        have shorter := congrArg List.length ((framing create).drain_bytes (t.buffer.data ++ chunk))
        simp only [List.length_append] at shorter
        obtain ⟨r, run, ok, sent⟩ := ih later { t with buffer := { t.buffer with
            data := ((framing create).drain (t.buffer.data ++ chunk)).rest } } small
          (by dsimp only; omega)
          (fun f member => accepts f (by rw [eq]; exact List.mem_append_right _ member))
          (fun f member => decodes f (by rw [eq]; exact List.mem_append_right _ member))
          waiting whole'
        rw [SFPacketProtocol.receiveAll_ok chunks now rfl, run]
        refine ⟨_, rfl, ?_, fun good => ?_⟩
        · rw [and_iff_right room]
          exact ok
        · rw [eq, tagged_append, ← sent good]
      · have refused := onReceive_full messages create serial desc t chunk (by omega) held
        rw [SFPacketProtocol.receiveAll_refused chunks refused rfl]
        exact ⟨_, rfl, iff_of_false Bool.false_ne_true fun both => room both.1, nofun⟩

/-- What a program does with its packet objects: it changes a message through `GetData`, or sends
the packet. -/
inductive SendEvent (μ : Type) where
  | change (object : Nat) (message : μ)
  | send (object : Nat)
  deriving DecidableEq

/-- A send: the packet's id, its message at the moment of `Encode`, and the bytes to transfer. -/
structure Sent (μ : Type) where
  packetId : UInt16
  message : μ
  bytes : List UInt8
  deriving DecidableEq

/-- The sends of one connection, as long as `Encode` succeeds. -/
def sendAll : SFProtobufProtocol → (Nat → SFProtobufPacket μ) → List (SendEvent μ) →
    Option (List (Sent μ))
  | _, _, [] => some []
  | t, objects, .change i message :: events =>
      sendAll t (Function.update objects i { objects i with message }) events
  | t, objects, .send i :: events =>
      match encode messages t (objects i) with
      | (t, p, true, bytes) =>
          (sendAll t (Function.update objects i p) events).map
            (⟨p.serviceId, p.message, bytes⟩ :: ·)
      | _ => none

def newPackets (ids : Nat → UInt16) (initial : Nat → μ) (i : Nat) : SFProtobufPacket μ :=
  { serviceId := ids i, message := initial i }

/-- A packet that was encoded before still holds the message of its first encoding. -/
def Unchanged : (Nat → Option μ) → (Nat → μ) → List (SendEvent μ) → Prop
  | _, _, [] => True
  | encoded, current, .change i message :: events =>
      Unchanged encoded (Function.update current i message) events
  | encoded, current, .send i :: events =>
      (encoded i).getD (current i) = current i ∧
        Unchanged (Function.update encoded i (some ((encoded i).getD (current i)))) current events

/-- The messages of the sends, each as it was when its packet was encoded first. -/
def firstMessages : (Nat → Option μ) → (Nat → μ) → List (SendEvent μ) → List μ
  | _, _, [] => []
  | encoded, current, .change i message :: events =>
      firstMessages encoded (Function.update current i message) events
  | encoded, current, .send i :: events =>
      let first := (encoded i).getD (current i)
      first :: firstMessages (Function.update encoded i (some first)) current events

/-- Parsing inverts serialisation: a message comes back from its stream, and one without a stream is
the message of a new packet. -/
structure Inverts (packetId : UInt16) (message : μ) : Prop where
  parse : ∀ p stream, create packetId = some p → messages.serialize message = some stream →
    messages.parse p.message stream = some message
  default : ∀ p, create packetId = some p → messages.serialize message = some [] →
    p.message = message

theorem decode_inverts {packetId : UInt16} {message : μ}
    (inverts : Inverts messages create packetId message) {stream : List UInt8}
    (serialized : messages.serialize message = some stream) {p : SFProtobufPacket μ}
    (known : create packetId = some p) :
    decoded messages create (packetId, stream) =
      some { p with message, packetID := packetId } := by
  rw [decoded, known, Option.bind_some, SFProtobufPacket.decode]
  split
  · rename_i empty
    obtain rfl : stream = [] := List.length_eq_zero_iff.mp empty
    rw [← inverts.default p known serialized]
    rfl
  · rw [inverts.parse p stream known serialized]
    rfl

/-- The packet object's cached stream belongs to the message of its first encoding. -/
def Encoded (encoded : Option μ) (p : SFProtobufPacket μ) : Prop :=
  match encoded with
  | none => p.encodedStream = none
  | some message => ∃ stream, p.encodedStream = some stream ∧ p.cachedSize = stream.length ∧
      messages.serialize message = some stream

def Idle (t : SFProtobufProtocol) : Prop := t.oBuffer = { uMaxSize := sendBufferSize }

theorem append_fits {b : DataBuffer} {bs : List UInt8}
    (room : b.data.length + bs.length ≤ b.uMaxSize) :
    b.append bs = ({ b with data := b.data ++ bs }, true) := by
  rw [DataBuffer.append, DataBuffer.getRemainingSize, if_neg (by omega)]

theorem frameOutgoing_spec (p : SFProtobufPacket μ) (stream : List UInt8)
    (size : p.cachedSize = stream.length) {b : DataBuffer}
    (framed : frameOutgoingPacket p stream { uMaxSize := sendBufferSize } = some b) :
    b = { uMaxSize := sendBufferSize, data := frame p.serviceId stream } ∧
      stream.length + 8 ≤ sendBufferSize := by
  rw [frameOutgoingPacket, DataBuffer.getRemainingSize, size, List.take_length] at framed
  split at framed
  · contradiction
  · rename_i room
    simp only [List.length_nil] at room
    simp (disch := simp only [List.length_append, leBytes_length, List.length_nil]; omega) only
      [append_fits] at framed
    obtain rfl := Option.some.inj framed
    exact ⟨rfl, by omega⟩

theorem encode_spec {t t' : SFProtobufProtocol} (idle : Idle t) {p p' : SFProtobufPacket μ}
    {first : Option μ} (encoded : Encoded messages first p) {bytes : List UInt8}
    (run : encode messages t p = (t', p', true, bytes)) :
    ∃ stream, messages.serialize (first.getD p.message) = some stream ∧
      bytes = frame p.serviceId stream ∧ stream.length + 8 ≤ sendBufferSize ∧ Idle t' ∧
      Encoded messages (some (first.getD p.message)) p' ∧ p'.serviceId = p.serviceId ∧
      p'.message = p.message := by
  obtain ⟨q, stream, caches, cached, serialized, kept⟩ : ∃ q stream,
      p.encode messages = (q, true) ∧ (q.encodedStream = some stream ∧ q.cachedSize = stream.length) ∧
        messages.serialize (first.getD p.message) = some stream ∧
        q.serviceId = p.serviceId ∧ q.message = p.message := by
    rw [Cgsf.Engine.SFProtobufProtocol.encode] at run
    cases first with
    | none =>
        change p.encodedStream = none at encoded
        cases serialized : messages.serialize p.message with
        | none => simp [SFProtobufPacket.encode, encoded, serialized] at run
        | some stream =>
            refine ⟨{ p with encodedStream := some stream, cachedSize := stream.length }, stream, ?_,
              ⟨rfl, rfl⟩, serialized, rfl, rfl⟩
            rw [SFProtobufPacket.encode, encoded]
            simp only [serialized]
    | some message =>
        obtain ⟨stream, cached, size, serialized⟩ := encoded
        refine ⟨p, stream, ?_, ⟨cached, size⟩, serialized, rfl, rfl⟩
        rw [SFProtobufPacket.encode, cached]
  rw [Cgsf.Engine.SFProtobufProtocol.encode, caches] at run
  simp only [cached.1] at run
  split at run
  · simp at run
  · rename_i b framed
    rw [idle] at framed
    obtain ⟨rfl, small⟩ := frameOutgoing_spec q stream cached.2 framed
    cases run
    refine ⟨stream, serialized, by rw [kept.1], small, ?_, ⟨stream, cached.1, cached.2, serialized⟩,
      kept.1, kept.2⟩
    rw [Idle]
    simp [DataBuffer.pop, DataBuffer.getDataSize]

/-- The frame of a send holds the message of the packet's first encoding. -/
structure Carries (f : Frame) (first : μ) : Prop where
  inverts : Inverts messages create f.1 first
  serialized : messages.serialize first = some f.2
  small : f.2.length + 8 ≤ sendBufferSize

/-- The sender between two events. -/
structure Sending (ids : Nat → UInt16) (encoded : Nat → Option μ) (t : SFProtobufProtocol)
    (objects : Nat → SFProtobufPacket μ) : Prop where
  idle : Idle t
  identified : ∀ i, (objects i).serviceId = ids i
  caches : ∀ i, Encoded messages (encoded i) (objects i)
  current : ∀ i, Inverts messages create (ids i) (objects i).message
  before : ∀ i message, encoded i = some message → Inverts messages create (ids i) message

def contents (objects : Nat → SFProtobufPacket μ) (i : Nat) : μ := (objects i).message

namespace Sending

variable {messages create} {ids : Nat → UInt16} {encoded : Nat → Option μ}
variable {t t' : SFProtobufProtocol} {objects : Nat → SFProtobufPacket μ}

theorem change (sending : Sending messages create ids encoded t objects) (i : Nat) {message : μ}
    (inverts : Inverts messages create (ids i) message) :
    Sending messages create ids encoded t
        (Function.update objects i { objects i with message }) ∧
      contents (Function.update objects i { objects i with message }) =
        Function.update (contents objects) i message := by
  refine ⟨⟨sending.idle, fun j => ?_, fun j => ?_, fun j => ?_, sending.before⟩, funext fun j => ?_⟩
  · by_cases here : j = i
    · subst here
      rw [Function.update_self]
      exact sending.identified j
    · rw [Function.update_of_ne here]
      exact sending.identified j
  · by_cases here : j = i
    · subst here
      rw [Function.update_self]
      exact sending.caches j
    · rw [Function.update_of_ne here]
      exact sending.caches j
  · by_cases here : j = i
    · subst here
      rw [Function.update_self]
      exact inverts
    · rw [Function.update_of_ne here]
      exact sending.current j
  · by_cases here : j = i
    · subst here
      rw [contents, Function.update_self, Function.update_self]
    · rw [contents, Function.update_of_ne here, Function.update_of_ne here]
      rfl

theorem first_inverts (sending : Sending messages create ids encoded t objects) (i : Nat) :
    Inverts messages create (ids i) ((encoded i).getD (contents objects i)) := by
  cases earlier : encoded i with
  | none => exact sending.current i
  | some message => exact sending.before i message earlier

theorem send (sending : Sending messages create ids encoded t objects) {i : Nat}
    {p : SFProtobufPacket μ} {bytes : List UInt8}
    (run : encode messages t (objects i) = (t', p, true, bytes)) :
    ∃ stream, bytes = frame (ids i) stream ∧ p.serviceId = ids i ∧ p.message = contents objects i ∧
      Carries messages create (ids i, stream) ((encoded i).getD (contents objects i)) ∧
      Sending messages create ids
        (Function.update encoded i (some ((encoded i).getD (contents objects i)))) t'
        (Function.update objects i p) ∧
      contents (Function.update objects i p) = contents objects := by
  obtain ⟨stream, serialized, bytes_eq, small, idle, cached, identified, kept⟩ :=
    encode_spec messages sending.idle (sending.caches i) run
  rw [sending.identified i] at bytes_eq identified
  refine ⟨stream, bytes_eq, identified, kept, ⟨sending.first_inverts i, serialized, small⟩,
    ⟨idle, fun j => ?_, fun j => ?_, fun j => ?_, fun j message => ?_⟩, funext fun j => ?_⟩
  · by_cases here : j = i
    · subst here
      rw [Function.update_self, identified]
    · rw [Function.update_of_ne here]
      exact sending.identified j
  · by_cases here : j = i
    · subst here
      rw [Function.update_self, Function.update_self]
      exact cached
    · rw [Function.update_of_ne here, Function.update_of_ne here]
      exact sending.caches j
  · by_cases here : j = i
    · subst here
      rw [Function.update_self, kept]
      exact sending.current j
    · rw [Function.update_of_ne here]
      exact sending.current j
  · by_cases here : j = i
    · subst here
      rw [Function.update_self]
      rintro ⟨⟩
      exact sending.first_inverts j
    · rw [Function.update_of_ne here]
      exact sending.before j message
  · by_cases here : j = i
    · subst here
      rw [contents, Function.update_self, kept]
      rfl
    · rw [contents, Function.update_of_ne here]
      rfl

end Sending

theorem sendAll_frames {ids : Nat → UInt16} {events : List (SendEvent μ)}
    (changes : ∀ i message, .change i message ∈ events → Inverts messages create (ids i) message)
    {t : SFProtobufProtocol} {objects : Nat → SFProtobufPacket μ} {encoded : Nat → Option μ}
    (sending : Sending messages create ids encoded t objects) {sent : List (Sent μ)}
    (run : sendAll messages t objects events = some sent) :
    ∃ frames : List Frame, frames.map (·.1) = sent.map (·.packetId) ∧
      sent.map (·.bytes) = frames.map (framing create).encode ∧
      List.Forall₂ (Carries messages create) frames
        (firstMessages encoded (contents objects) events) ∧
      (sent.map (·.message) = firstMessages encoded (contents objects) events ↔
        Unchanged encoded (contents objects) events) := by
  induction events generalizing t objects encoded sent with
  | nil =>
      obtain rfl := Option.some.inj run
      exact ⟨[], rfl, rfl, .nil, iff_of_true rfl trivial⟩
  | cons event events ih =>
      have later : ∀ i message, .change i message ∈ events →
          Inverts messages create (ids i) message := fun i message member =>
        changes i message (List.mem_cons_of_mem event member)
      cases event with
      | change i message =>
          obtain ⟨sending', same⟩ := sending.change i (changes i message List.mem_cons_self)
          have step := ih later sending' run
          rw [same] at step
          exact step
      | send i =>
          rw [sendAll] at run
          split at run
          · rename_i t' p bytes encodes
            obtain ⟨rest, others, rfl⟩ := Option.map_eq_some_iff.mp run
            obtain ⟨stream, rfl, identified, kept, carries, sending', same⟩ := sending.send encodes
            obtain ⟨frames, ids_eq, bytes_eq, carried, unchanged⟩ := ih later sending' others
            rw [same] at carried unchanged
            refine ⟨(ids i, stream) :: frames, ?_, ?_, .cons carries carried, ?_⟩
            · rw [List.map_cons, List.map_cons, ids_eq, identified]
            · rw [List.map_cons, List.map_cons, bytes_eq]
              rfl
            · rw [List.map_cons, firstMessages, Unchanged, ← unchanged, List.cons.injEq, kept]
              exact and_congr_left fun _ => eq_comm
          · contradiction

theorem makePacket_known {b : DataBuffer} {packetId : UInt16} {packetLen : Nat} {r : Deframed μ}
    (run : makePacket messages create b packetId packetLen = some r) :
    r.packet = none ∨ r.result = .success ∧ create r.packetId ≠ none := by
  rw [makePacket] at run
  split at run
  · obtain rfl := Option.some.inj run
    exact .inl rfl
  · rename_i p known
    obtain ⟨data, -, rfl⟩ := Option.map_eq_some_iff.mp run
    cases p.decode messages data with
    | none => exact .inl rfl
    | some q => exact .inr ⟨rfl, by rw [known]; exact Option.some_ne_none p⟩

theorem tryDeframe_known {b : DataBuffer} {r : Deframed μ}
    (run : tryDeframeIncomingPacket messages create b = some r) :
    r.packet = none ∨ r.result = .success ∧ create r.packetId ≠ none := by
  rw [tryDeframeIncomingPacket] at run
  split at run
  · obtain rfl := Option.some.inj run
    exact .inl rfl
  · obtain ⟨sStart, -, run⟩ := Option.bind_eq_some_iff.mp run
    obtain ⟨packetLen, -, run⟩ := Option.bind_eq_some_iff.mp run
    obtain ⟨packetId, -, run⟩ := Option.bind_eq_some_iff.mp run
    split at run
    · obtain rfl := Option.some.inj run
      exact .inl rfl
    · split at run
      · obtain rfl := Option.some.inj run
        exact .inl rfl
      · obtain ⟨sEnd, -, run⟩ := Option.bind_eq_some_iff.mp run
        split at run
        · obtain rfl := Option.some.inj run
          exact .inl rfl
        · exact makePacket_known messages create run

theorem getPacket_known {t t' : SFProtobufProtocol} {errorCode : Int} {p : SFProtobufPacket μ}
    (run : getPacket messages create t = some (t', errorCode, some p)) :
    create p.packetID ≠ none := by
  obtain ⟨r, deframed, answer⟩ := Option.bind_eq_some_iff.mp run
  rcases tryDeframe_known messages create deframed with none | ⟨success, known⟩
  · cases result : r.result <;> simp [result, none] at answer
  · simp only [success] at answer
    obtain ⟨q, -, rfl⟩ := Option.map_eq_some_iff.mp (congrArg (·.2.2) (Option.some.inj answer))
    exact known

theorem receiveLoop_known (fuel : Nat) {t : SFProtobufProtocol} {errorCode errorCode' : Int}
    {r : Received SFProtobufProtocol Unit (SFProtobufPacket μ)}
    (run : receiveLoop (analyzer messages create) serial desc fuel () t errorCode =
      some (r, errorCode')) : ∀ p ∈ r.sent, create p.packetID ≠ none := by
  induction fuel generalizing t errorCode r errorCode' with
  | zero => contradiction
  | succ fuel ih =>
      cases answer : (analyzer messages create).getPacket () t errorCode with
      | none =>
          rw [SFPacketProtocol.receiveLoop_fault fuel answer] at run
          contradiction
      | some result =>
          obtain ⟨⟨⟩, t', code, found⟩ := result
          cases found with
          | none =>
              rw [SFPacketProtocol.receiveLoop_done fuel answer] at run
              cases run
              exact nofun
          | some p =>
              rw [SFPacketProtocol.receiveLoop_packet fuel answer] at run
              obtain ⟨⟨later, code'⟩, rest, same⟩ := Option.map_eq_some_iff.mp run
              cases same
              obtain ⟨⟨t'', code'', q⟩, gets, made⟩ := Option.map_eq_some_iff.mp answer
              cases made
              intro tagged member
              rcases List.mem_cons.mp member with rfl | member
              · have known := getPacket_known messages create gets
                exact known
              · exact ih rest tagged member

theorem onReceive_known {t : SFProtobufProtocol} {chunk : List UInt8}
    {r : Received SFProtobufProtocol Unit (SFProtobufPacket μ)}
    (run : onReceive (analyzer messages create) serial desc () t chunk = some r) :
    ∀ p ∈ r.sent, create p.packetID ≠ none := by
  cases added : addTransferredData t chunk with
  | mk t' ok =>
      have adds : (analyzer messages create).addTransferredData t chunk = some (t', ok) :=
        congrArg some added
      cases ok with
      | false =>
          rw [onReceive, adds] at run
          cases run
          exact List.forall_mem_nil _
      | true =>
          rw [SFPacketProtocol.onReceive_added adds] at run
          obtain ⟨⟨result, code⟩, loop, rfl⟩ := Option.map_eq_some_iff.mp run
          have known := receiveLoop_known messages create serial desc _ loop
          exact known

theorem receiveAll_known {t : SFProtobufProtocol} {chunks : List (List UInt8)}
    {r : Received SFProtobufProtocol Unit (SFProtobufPacket μ)}
    (run : receiveAll (analyzer messages create) serial desc () t chunks = some r) :
    ∀ p ∈ r.sent, create p.packetID ≠ none := by
  induction chunks generalizing t r with
  | nil =>
      cases run
      exact nofun
  | cons chunk chunks ih =>
      cases action : onReceive (analyzer messages create) serial desc () t chunk with
      | none =>
          rw [SFPacketProtocol.receiveAll_fault chunks action] at run
          contradiction
      | some now =>
          have here := onReceive_known messages create serial desc action
          cases ok : now.ok with
          | false =>
              rw [SFPacketProtocol.receiveAll_refused chunks action ok] at run
              cases run
              exact here
          | true =>
              rw [SFPacketProtocol.receiveAll_ok chunks action ok] at run
              obtain ⟨later, rest, rfl⟩ := Option.map_eq_some_iff.mp run
              intro p member
              rcases List.mem_append.mp member with now | after
              · exact here p now
              · exact ih rest p after

/-- All chunks are received without error, and each send's packet arrives with its id and the message
it had at its `Encode`. -/
def Delivers (t : SFProtobufProtocol) (chunks : List (List UInt8)) (sent : List (Sent μ)) : Prop :=
  ∃ r, receiveAll (analyzer messages create) serial desc () t chunks = some r ∧ r.ok = true ∧
    r.sent.map (fun p => (p.packetID, p.message)) = sent.map fun s => (s.packetId, s.message)

theorem tagged_carried (frames : List Frame) (firsts : List μ)
    (carried : List.Forall₂ (Carries messages create) frames firsts)
    (known : ∀ f ∈ frames, create f.1 ≠ none) :
    (∀ f ∈ frames, (decoded messages create f).isSome = true) ∧
      (tagged messages create serial desc frames).map (fun p => (p.packetID, p.message)) =
        (frames.map (·.1)).zip firsts := by
  induction carried with
  | nil => exact ⟨nofun, rfl⟩
  | @cons f first frames firsts carries _ ih =>
      obtain ⟨p, made⟩ := Option.ne_none_iff_exists'.mp (known f List.mem_cons_self)
      have decodes := decode_inverts messages create carries.inverts carries.serialized made
      obtain ⟨all, rest⟩ := ih fun g member => known g (List.mem_cons_of_mem f member)
      refine ⟨List.forall_mem_cons.mpr ⟨by rw [decodes]; rfl, all⟩, ?_⟩
      rw [tagged, List.filterMap_cons, decodes]
      exact congrArg _ rest

theorem carried_small {frames : List Frame} {firsts : List μ}
    (carried : List.Forall₂ (Carries messages create) frames firsts) :
    ∀ f ∈ frames, f.2.length + 8 ≤ sendBufferSize := by
  induction carried with
  | nil => exact nofun
  | cons carries _ ih => exact List.forall_mem_cons.mpr ⟨carries.small, ih⟩

/-- The packets of a program come out as they were when they were sent if and only if the receiver
knows their ids, no packet was changed after its first encoding, and every chunk fits behind the
unfinished frame that precedes it. -/
theorem delivers_sends_iff (ids : Nat → UInt16) (initial : Nat → μ) (events : List (SendEvent μ))
    (inverts : ∀ i, Inverts messages create (ids i) (initial i))
    (changes : ∀ i message, .change i message ∈ events → Inverts messages create (ids i) message)
    (sender receiver : Int × UInt16 × UInt32) (sent : List (Sent μ)) (chunks : List (List UInt8))
    (sends : sendAll messages (initProtocol sender.1 sender.2.1 sender.2.2) (newPackets ids initial)
      events = some sent)
    (cut : chunks.flatten = sent.flatMap (·.bytes)) :
    Delivers messages create serial desc (initProtocol receiver.1 receiver.2.1 receiver.2.2) chunks
        sent ↔
      (∀ s ∈ sent, create s.packetId ≠ none) ∧ Unchanged (fun _ => none) initial events ∧
        Roomy (sent.map (·.bytes.length)) (receiveBufferSize + 1) 0 chunks := by
  have sending : Sending messages create ids (fun _ => none)
      (initProtocol sender.1 sender.2.1 sender.2.2) (newPackets ids initial) :=
    ⟨rfl, fun _ => rfl, fun _ => rfl, inverts, fun _ _ => nofun⟩
  obtain ⟨frames, ids_eq, bytes_eq, carried, unchanged⟩ :=
    sendAll_frames messages create changes sending sends
  change sent.map (·.message) = firstMessages _ initial events ↔ Unchanged _ initial events at unchanged
  have carried : List.Forall₂ (Carries messages create) frames
      (firstMessages (fun _ => none) initial events) := carried
  generalize firstMessages (fun _ => none) initial events = firsts at unchanged carried
  have length : firsts.length = frames.length := carried.length_eq.symm
  have expected : sent.map (fun s => (s.packetId, s.message)) =
      (frames.map (·.1)).zip (sent.map (·.message)) := by
    rw [ids_eq, List.zip_map']
  have known_iff : (∀ s ∈ sent, create s.packetId ≠ none) ↔ ∀ f ∈ frames, create f.1 ≠ none := by
    have all := congrArg (fun l : List UInt16 => ∀ id ∈ l, create id ≠ none) ids_eq
    simpa only [List.forall_mem_map, eq_iff_iff, Iff.comm] using all.symm
  have sizes : sent.map (·.bytes.length) = (framing create).sizes frames := by
    have lengths := congrArg (List.map List.length) bytes_eq
    rw [Deframer.sizes]
    simpa only [List.map_map, Function.comp_def] using lengths
  have whole : chunks.flatten = frames.flatMap (framing create).encode := by
    rw [cut, List.flatMap_def, bytes_eq, ← List.flatMap_def]
  have firsts_iff : ((frames.map (·.1)).zip firsts = (frames.map (·.1)).zip (sent.map (·.message))) ↔
      Unchanged (fun _ => none) initial events := by
    have count : (sent.map (·.message)).length = (frames.map (·.1)).length := by
      rw [ids_eq, List.length_map, List.length_map]
    rw [← unchanged]
    constructor
    · intro same
      have seconds := congrArg (List.map Prod.snd) same
      rw [List.map_snd_zip (by rw [length, List.length_map]), List.map_snd_zip count.le] at seconds
      exact seconds.symm
    · rintro rfl
      rfl
  rw [known_iff, sizes, ← firsts_iff]
  have received (known : ∀ f ∈ frames, create f.1 ≠ none) := receiveAll_roomy messages create serial
    desc frames chunks (initProtocol receiver.1 receiver.2.1 receiver.2.2)
    (by change receiveBufferSize < _; decide) (Nat.zero_le _)
    (fun f member => ⟨by
      have small := carried_small messages create carried f member
      rw [sendBufferSize] at small
      omega, known f member⟩)
    (tagged_carried messages create serial desc frames firsts carried known).1 rfl whole
  constructor
  · rintro ⟨r, run, ok, delivered⟩
    have known : ∀ f ∈ frames, create f.1 ≠ none := known_iff.mp fun s member => by
      have listed := List.mem_map_of_mem (f := fun s => (s.packetId, s.message)) member
      rw [← delivered] at listed
      obtain ⟨p, there, same⟩ := List.mem_map.mp listed
      have same : p.packetID = s.packetId := congrArg Prod.fst same
      rw [← same]
      exact receiveAll_known messages create serial desc run p there
    obtain ⟨r', run', roomy, all⟩ := received known
    obtain rfl := Option.some.inj (run.symm.trans run')
    refine ⟨known, ?_, roomy.mp ok⟩
    rw [← expected, ← delivered, all ok,
      (tagged_carried messages create serial desc frames firsts carried known).2]
  · rintro ⟨known, same, roomy⟩
    obtain ⟨r, run, ok, all⟩ := received known
    refine ⟨r, run, ok.mpr roomy, ?_⟩
    rw [all (ok.mpr roomy), (tagged_carried messages create serial desc frames firsts carried known).2,
      same, expected]

abbrev casualPackets : UInt16 → Option (SFProtobufPacket (List UInt8)) :=
  Casual.SFCGProtobufProtocol.createIncomingPacketFromPacketId fun _ => []

theorem raw_inverts (packetId : UInt16) (message : List UInt8) :
    Inverts rawMessages casualPackets packetId message where
  parse := fun _ _ _ serialized => serialized.symm
  default := fun p known serialized => by
    unfold casualPackets Casual.SFCGProtobufProtocol.createIncomingPacketFromPacketId at known
    split at known
    · cases known
      exact (Option.some.inj serialized).symm
    · contradiction

theorem delivers_login_chat :
    Delivers rawMessages casualPackets 1 {} (initProtocol 8192 4096 0)
      [frame Casual.CGSF.login [1, 2] ++ (frame Casual.CGSF.chatReq [3]).take 4,
        (frame Casual.CGSF.chatReq [3]).drop 4]
      [⟨Casual.CGSF.login, [1, 2], frame Casual.CGSF.login [1, 2]⟩,
        ⟨Casual.CGSF.chatReq, [3], frame Casual.CGSF.chatReq [3]⟩] :=
  (delivers_sends_iff rawMessages casualPackets 1 {}
    (fun i => if i = 0 then Casual.CGSF.login else Casual.CGSF.chatReq) (fun _ => [1, 2])
    [.send 0, .change 1 [3], .send 1] (fun _ => raw_inverts _ _) (fun _ _ _ => raw_inverts _ _)
    (8192, 4096, 0) (8192, 4096, 0) _ _ (by decide) (by decide)).mpr
    ⟨by decide, ⟨rfl, rfl, trivial⟩, by decide⟩

/-- A packet that is sent, changed and sent again arrives with its old message. -/
theorem changed_packet_arrives_unchanged :
    ¬ ∀ (events : List (SendEvent (List UInt8))) (sent : List (Sent (List UInt8)))
        (chunks : List (List UInt8)),
      sendAll rawMessages (initProtocol 8192 4096 0)
        (newPackets (fun _ => Casual.CGSF.login) fun _ => [1]) events = some sent →
      chunks.flatten = sent.flatMap (·.bytes) → (∀ chunk ∈ chunks, chunk.length ≤ 2048) →
      Delivers rawMessages casualPackets 1 {} (initProtocol 8192 4096 0) chunks sent := by
  intro all
  let bytes := frame Casual.CGSF.login [1]
  obtain ⟨r, run, -, delivered⟩ := all [.send 0, .change 0 [2], .send 0]
    [⟨Casual.CGSF.login, [1], bytes⟩, ⟨Casual.CGSF.login, [2], bytes⟩] [bytes, bytes]
    (by decide) (by decide) (by decide)
  have old : (receiveAll (analyzer rawMessages casualPackets) 1 {} () (initProtocol 8192 4096 0)
      [bytes, bytes]).map (fun r => r.sent.map fun p => (p.packetID, p.message)) =
        some [(Casual.CGSF.login, [1]), (Casual.CGSF.login, [1])] := by decide
  rw [run, Option.map_some, delivered] at old
  exact absurd old (by decide)

end Cgsf.Proof.Engine.SFProtobufProtocol
