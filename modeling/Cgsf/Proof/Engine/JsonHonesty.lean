import Cgsf.Proof.Engine.JsonDelivery

/-!
# What it means that a node was encoded

`Encode` always answers `true`. The receiver gets the node back where its text fits everything it
goes through: the packet size, the encode buffer and the receive buffer.
-/

namespace Cgsf.Proof.Engine.SFJsonProtocol
open Cgsf.Engine Cgsf.Engine.SFJsonProtocol Cgsf.Engine.SFPacketProtocol Library

variable {ν : Type} {json : JsonCodec ν} {t r : SFJsonProtocol} {p : SFJsonPacket ν}

/-- The reader reads what the writer wrote of the node, and throws where there is nothing to
read. -/
structure Inverts (json : JsonCodec ν) (node : ν) : Prop where
  inverts : json.read json.empty (json.write node) = (node, true)
  refuses : (json.read json.empty []).2 = false

/-- Protocol objects of one configuration: constructed, cloned for a session, or the same after
sending. Nothing was received yet. -/
inductive Made (json : JsonCodec ν) (bufferIOSize : Int) (packetDataSize : UInt16)
    (packetOption : UInt32) : SFJsonProtocol → Prop where
  | constructed {t : SFJsonProtocol}
      (made : construct (analyzer json) bufferIOSize packetDataSize packetOption = some t) :
      Made json bufferIOSize packetDataSize packetOption t
  | cloned {t t' : SFJsonProtocol} (before : Made json bufferIOSize packetDataSize packetOption t)
      (copy : clone (analyzer json) t = some t') :
      Made json bufferIOSize packetDataSize packetOption t'
  | sent {t t' : SFJsonProtocol} {p p' : SFJsonPacket ν} {ok : Bool} {bytes : List UInt8}
      (before : Made json bufferIOSize packetDataSize packetOption t)
      (run : encode json t p = some (t', p', ok, bytes)) :
      Made json bufferIOSize packetDataSize packetOption t'

/-- If `Encode` succeeds, the receiver takes its bytes and makes the same node of them. -/
def Honest (json : JsonCodec ν) (t r : SFJsonProtocol) (p : SFJsonPacket ν) : Prop :=
  ∃ t' p' ok bytes, encode json t p = some (t', p', ok, bytes) ∧
    (ok = true → ∃ builder r' errorCode q, r.builder.addBuffer bytes = some (builder, true) ∧
      getPacket json { r with builder } = some (r', errorCode, some q) ∧ q.node = p.node)

/-- A text of `size` bytes goes through the encode buffer and the receive buffer. -/
structure Room (t r : SFJsonProtocol) (size : Nat) : Prop where
  packet : size ≤ unsignedSub t.packetSize.toNat headerSize
  cleared : t.packetSize.toNat ≤ t.buffer.length
  encode : headerSize + size ≤ t.buffer.length
  receive : ((headerSize + size : Nat) : Int) ≤ r.builder.ioSize

instance (t r : SFJsonProtocol) (size : Nat) : Decidable (Room t r size) :=
  decidable_of_iff (size ≤ unsignedSub t.packetSize.toNat headerSize ∧
      t.packetSize.toNat ≤ t.buffer.length ∧ headerSize + size ≤ t.buffer.length ∧
      ((headerSize + size : Nat) : Int) ≤ r.builder.ioSize)
    ⟨fun ⟨packet, cleared, encode, receive⟩ => ⟨packet, cleared, encode, receive⟩,
      fun room => ⟨room.packet, room.cleared, room.encode, room.receive⟩⟩

/-- What objects of one configuration share. -/
structure Fresh (packetSize : UInt16) (t : SFJsonProtocol) : Prop where
  packetSize : t.packetSize = packetSize
  buffered : Buffered t.builder [] 0
  short : t.buffer.length < 2 ^ 16

theorem initProtocol_fresh {ioSize : Int} {packetSize : UInt16} {option : UInt32}
    (made : initProtocol ioSize packetSize option = some t) : Fresh packetSize t := by
  obtain ⟨builder, prepared, rfl⟩ := Option.map_eq_some_iff.mp made
  rw [JsonBuilder.prepareBuffer] at prepared
  split at prepared
  · cases prepared
  · rename_i nonneg
    obtain rfl := Option.some.inj prepared
    refine ⟨rfl, ⟨?_, rfl, rfl, ?_⟩, ?_⟩
    · dsimp only
      rw [List.length_replicate, Int.toNat_of_nonneg (Int.not_lt.mp nonneg)]
    · simp [read?]
    · simpa using packetSize.toNat_lt

theorem encode_buffers {t' : SFJsonProtocol} {p' : SFJsonPacket ν} {ok : Bool}
    {bytes : List UInt8} (run : encode json t p = some (t', p', ok, bytes)) :
    t'.buffer.length = t.buffer.length ∧ t' = { t with buffer := t'.buffer } ∧ ok = true := by
  have written {buf buf' xs : List UInt8} {offset : Nat} (run : write? buf offset xs = some buf') :
      buf'.length = buf.length := by
    obtain ⟨inside, rfl⟩ := write?_eq_some.mp run
    exact splice_length buf offset xs inside
  obtain ⟨cleared, clear, run⟩ := Option.bind_eq_some_iff.mp run
  obtain ⟨headed, head, run⟩ := Option.bind_eq_some_iff.mp run
  obtain ⟨filled, fill, run⟩ := Option.bind_eq_some_iff.mp run
  obtain ⟨stamped, stamp, run⟩ := Option.bind_eq_some_iff.mp run
  obtain ⟨wire, -, same⟩ := Option.map_eq_some_iff.mp run
  simp only [Prod.mk.injEq] at same
  obtain ⟨rfl, -, rfl, -⟩ := same
  refine ⟨?_, rfl, rfl⟩
  change stamped.length = t.buffer.length
  rw [written stamp, written fill, written head, written clear]

theorem Made.fresh {bufferIOSize : Int} {packetDataSize : UInt16} {packetOption : UInt32}
    (made : Made json bufferIOSize packetDataSize packetOption t) :
    Fresh (clampSizes bufferIOSize packetDataSize).2 t := by
  induction made with
  | constructed made => exact initProtocol_fresh made
  | @cloned t t' before copy ih =>
      rw [clone] at copy
      cases default : constructDefault (analyzer json) with
      | none =>
          rw [default] at copy
          cases copy
      | some new =>
          rw [default] at copy
          obtain rfl := Option.some.inj copy
          have made : initProtocol packetDefaultIOSize packetDefaultPacketSize 0 = some new :=
            default
          have fresh := initProtocol_fresh made
          exact ⟨ih.packetSize, fresh.buffered, fresh.short⟩
  | @sent t t' p p' ok bytes before run ih =>
      obtain ⟨length, same, -⟩ := encode_buffers run
      have packetSize := congrArg (fun t => t.packetSize) same
      have builder := congrArg (fun t => t.builder) same
      dsimp only at packetSize builder
      refine ⟨packetSize.trans ih.packetSize, ?_, ?_⟩
      · rw [builder]
        exact ih.buffered
      · rw [length]
        exact ih.short

/-- The frame that `Encode` makes of a text. -/
def frame (p : SFJsonPacket ν) (text : List UInt8) : Frame :=
  ⟨{ p.header with dataSize := .ofNat text.length }, text⟩

/-- The part of a header in front of the data size. -/
def headerFront (h : SFPacketHeader) : List UInt8 :=
  leBytes 2 h.packetID.toNat ++ leBytes 4 h.packetOption.toNat ++ leBytes 4 h.dataCRC.toNat

theorem headerFront_length (h : SFPacketHeader) : (headerFront h).length = 10 := by
  simp [headerFront, leBytes_length]

/-- The text that `MakeBuffer` puts behind the header. -/
def content (json : JsonCodec ν) (t : SFJsonProtocol) (p : SFJsonPacket ν) : List UInt8 :=
  JsonBuilder.makeBuffer json p.node (unsignedSub t.packetSize.toNat headerSize)

theorem encode_frame (cleared : t.packetSize.toNat ≤ t.buffer.length)
    (fits : headerSize + (content json t p).length ≤ t.buffer.length)
    (short : t.buffer.length < 2 ^ 16) :
    ∃ buffer, encode json t p =
      some ({ t with buffer }, p, true, (frame p (content json t p)).bytes) := by
  have two : headerSize = 12 := rfl
  rw [encode]
  change ∃ buffer, ((write? t.buffer 0 _).bind fun cleared => (write? cleared 0 _).bind fun headed =>
    (write? headed headerSize (content json t p)).bind fun filled =>
      (write? filled 10 (leBytes 2 (content json t p).length)).bind fun stamped =>
        (read? stamped 0 (headerSize + (content json t p).length)).map _) = _
  generalize content json t p = text at fits ⊢
  obtain ⟨buffer, clear, length⟩ :=
    write?_fits t.buffer 0 (List.replicate t.packetSize.toNat 0) (by simpa using cleared)
  -- the header and the text cover two parts of the buffer
  obtain ⟨head, body, rest, rfl, headLength, bodyLength⟩ : ∃ head body rest,
      buffer = head ++ (body ++ rest) ∧ head.length = 12 ∧ body.length = text.length := by
    refine ⟨buffer.take 12, (buffer.drop 12).take text.length, (buffer.drop 12).drop text.length,
      ?_, ?_, ?_⟩
    · rw [List.take_append_drop, List.take_append_drop]
    · rw [List.length_take]
      omega
    · rw [List.length_take, List.length_drop]
      omega
  simp only [List.length_append] at length
  have header : p.header.bytes = headerFront p.header ++ leBytes 2 p.header.dataSize.toNat := rfl
  have headed : write? (head ++ (body ++ rest)) 0 p.header.bytes =
      some (p.header.bytes ++ (body ++ rest)) := by
    have same : head.length = p.header.bytes.length := by
      rw [SFPacketHeader.length_bytes]
      exact headLength
    have spliced := splice_middle [] head (body ++ rest) p.header.bytes same
    rw [write?, if_pos (by rw [← same]; simp)]
    exact congrArg some spliced
  have filled : write? (p.header.bytes ++ (body ++ rest)) headerSize text =
      some (p.header.bytes ++ (text ++ rest)) := by
    have spliced := splice_middle p.header.bytes body rest text bodyLength
    rw [SFPacketHeader.length_bytes] at spliced
    rw [write?, if_pos (by simp [bodyLength]), spliced]
  have stamped : write? (p.header.bytes ++ (text ++ rest)) 10 (leBytes 2 text.length) =
      some ((frame p text).bytes ++ rest) := by
    have spliced := splice_middle (headerFront p.header) (leBytes 2 p.header.dataSize.toNat)
      (text ++ rest) (leBytes 2 text.length) (by simp [leBytes_length])
    have small : (UInt16.ofNat text.length).toNat = text.length :=
      UInt16.toNat_ofNat_of_lt (Nat.lt_of_le_of_lt (by omega) short)
    rw [headerFront_length] at spliced
    rw [header, List.append_assoc, write?, if_pos (by simp [headerFront_length]; omega), spliced]
    simp only [frame, Frame.bytes, SFPacketHeader.bytes, small, headerFront, List.append_assoc]
  have wire : read? ((frame p text).bytes ++ rest) 0 (headerSize + text.length) =
      some (frame p text).bytes := by
    have size : (frame p text).bytes.length = headerSize + text.length := Frame.length_bytes _
    rw [read?, if_pos (by rw [List.length_append]; omega), List.drop_zero, ← size, List.take_left]
  rw [clear, Option.bind_some, headed, Option.bind_some, filled, Option.bind_some, stamped,
    Option.bind_some, wire]
  exact ⟨_, rfl⟩

/-- Encoding has a result only inside the encode buffer. -/
theorem encode_inside {t' : SFJsonProtocol} {p' : SFJsonPacket ν} {ok : Bool} {bytes : List UInt8}
    (run : encode json t p = some (t', p', ok, bytes)) :
    t.packetSize.toNat ≤ t.buffer.length ∧
      headerSize + (content json t p).length ≤ t.buffer.length := by
  obtain ⟨cleared, clear, run⟩ := Option.bind_eq_some_iff.mp run
  obtain ⟨headed, head, run⟩ := Option.bind_eq_some_iff.mp run
  obtain ⟨filled, fill, run⟩ := Option.bind_eq_some_iff.mp run
  obtain ⟨whole, rfl⟩ := write?_eq_some.mp clear
  obtain ⟨front, rfl⟩ := write?_eq_some.mp head
  obtain ⟨inside, -⟩ := write?_eq_some.mp fill
  rw [splice_length _ _ _ front, splice_length _ _ _ whole] at inside
  rw [List.length_replicate, Nat.zero_add] at whole
  exact ⟨whole, inside⟩

theorem write_ne_nil {node : ν} (inverts : Inverts json node) : json.write node ≠ [] := by
  intro none
  have read := inverts.inverts
  have refuses := inverts.refuses
  rw [none] at read
  rw [read] at refuses
  cases refuses

theorem parses_write {node : ν} (inverts : Inverts json node) {f : Frame}
    (text : f.payload = json.write node) :
    Parses json f ∧ (JsonObjectNode.parse json json.empty f.payload).1 = node := by
  have parsed : JsonObjectNode.parse json json.empty f.payload =
      (node, (json.write node).length) := by
    rw [JsonObjectNode.parse, text, inverts.inverts]
  refine ⟨?_, by rw [parsed]⟩
  rw [Parses, parsed]
  exact fun none => write_ne_nil inverts (List.length_eq_zero_iff.mp none)

theorem frame_wellFormed {text : List UInt8} (short : text.length < 2 ^ 16) :
    (frame p text).WellFormed := UInt16.toNat_ofNat_of_lt short

/-- A receiver that got nothing before takes a frame that fits its buffer. -/
theorem receive_frame {builder : JsonBuilder} {f : Frame} (buffered : Buffered r.builder [] 0)
    (added : r.builder.addBuffer f.bytes = some (builder, true)) (wellFormed : f.WellFormed)
    (fits : ¬Oversized r.packetSize f) :
    ∃ r', getPacket json { r with builder } = some (r', packetIOErrorNone,
      if Parses json f then
        some { packetID := f.header.packetID, header := f.header,
               node := (JsonObjectNode.parse json json.empty f.payload).1 }
      else none) := by
  have room : ((0 + f.bytes.length : Nat) : Int) ≤ r.builder.ioSize := by
    rw [JsonBuilder.addBuffer, buffered.writtenOffset] at added
    split at added
    · cases added
    · rename_i fits
      exact Int.not_lt.mp fits
  obtain ⟨builder', added', -, after⟩ := buffered.addBuffer f.bytes room
  obtain rfl := (Prod.mk.inj (Option.some.inj (added'.symm.trans added))).1
  rw [List.nil_append, ← List.append_nil f.bytes] at after
  obtain ⟨left, -, -, got⟩ :=
    getPacket_frame json (t := { r with builder := builder' }) after wellFormed fits
  rw [got]
  by_cases parses : Parses json f
  · rw [if_pos parses, if_pos parses]
    exact ⟨_, rfl⟩
  · rw [if_neg parses, if_neg parses]
    exact ⟨_, rfl⟩

theorem honest_of_room (inverts : Inverts json p.node) {packetSize : UInt16} (sender : Fresh packetSize t)
    (receiver : Fresh packetSize r) (room : Room t r (json.write p.node).length) :
    Honest json t r p := by
  have text : content json t p = json.write p.node := if_neg (Nat.not_lt.mpr room.packet)
  have encodes : headerSize + (content json t p).length ≤ t.buffer.length := text ▸ room.encode
  obtain ⟨buffer, encoded⟩ := encode_frame room.cleared encodes sender.short
  rw [text] at encoded
  refine ⟨_, _, _, _, encoded, fun _ => ?_⟩
  have short : (json.write p.node).length < 2 ^ 16 := by
    have := room.encode
    have := sender.short
    omega
  have size : (frame p (json.write p.node)).bytes.length =
      headerSize + (json.write p.node).length := Frame.length_bytes _
  obtain ⟨builder, added, -, -⟩ := receiver.buffered.addBuffer (frame p (json.write p.node)).bytes
    (by rw [size, Nat.zero_add]; exact room.receive)
  have same : r.packetSize = t.packetSize := receiver.packetSize.trans sender.packetSize.symm
  have fits : ¬Oversized r.packetSize (frame p (json.write p.node)) := by
    rw [Oversized, same]
    exact Nat.not_lt.mpr room.packet
  obtain ⟨parses, node⟩ := parses_write inverts (f := frame p (json.write p.node)) rfl
  obtain ⟨r', got⟩ := receive_frame receiver.buffered added (frame_wellFormed short) fits
  rw [if_pos parses] at got
  exact ⟨builder, r', _, _, added, got, node⟩

/-- A text that is too long leaves a frame without data behind, and the receiver refuses it. -/
theorem room_of_honest (inverts : Inverts json p.node) {packetSize : UInt16}
    (sender : Fresh packetSize t) (receiver : Fresh packetSize r) (honest : Honest json t r p) :
    Room t r (json.write p.node).length := by
  obtain ⟨t', p', ok, bytes, run, accepted⟩ := honest
  obtain ⟨cleared, inside⟩ := encode_inside run
  obtain ⟨builder, r', errorCode, q, added, got, -⟩ := accepted (encode_buffers run).2.2
  obtain ⟨buffer, encoded⟩ := encode_frame cleared inside sender.short
  simp only [encoded, Option.some.injEq, Prod.mk.injEq] at run
  obtain ⟨-, -, -, rfl⟩ := run
  by_cases packet : (json.write p.node).length ≤ unsignedSub t.packetSize.toNat headerSize
  · have text : content json t p = json.write p.node := if_neg (Nat.not_lt.mpr packet)
    rw [text] at inside added
    refine ⟨packet, cleared, inside, ?_⟩
    have size : (frame p (json.write p.node)).bytes.length =
        headerSize + (json.write p.node).length := Frame.length_bytes _
    rw [JsonBuilder.addBuffer, receiver.buffered.writtenOffset, size, Nat.zero_add] at added
    split at added
    · cases added
    · rename_i fits
      exact Int.not_lt.mp fits
  · have text : content json t p = [] := if_pos (Nat.lt_of_not_le packet)
    rw [text] at added
    have refused : ¬Parses json (frame p []) := by
      rw [Parses, not_not, JsonObjectNode.parse]
      have refuses := inverts.refuses
      have none : (frame p []).payload = [] := rfl
      rw [none]
      split
      · rename_i read
        rw [read] at refuses
        cases refuses
      · rfl
    obtain ⟨r'', got'⟩ := receive_frame receiver.buffered added
      (frame_wellFormed (by decide)) (Nat.not_lt_zero _)
    rw [if_neg refused, got] at got'
    simp at got'

/-- `{"n":10}` -/
def numberPacket : SFJsonPacket (List UInt8) := { node := numberFrame.payload }

theorem numberPacket_inverts : Inverts bracedText numberPacket.node := ⟨rfl, rfl⟩

end Cgsf.Proof.Engine.SFJsonProtocol
