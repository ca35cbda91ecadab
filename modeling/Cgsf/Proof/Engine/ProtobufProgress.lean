import Cgsf.Engine.ProtobufProtocol
import Cgsf.Library.Words

/-!
# Progress of the protobuf deframer

A frame is start marker, length, id, payload and end marker. `getPacket` on a complete frame makes
progress if the id is known; on the beginning of a frame it waits; whatever else is in the buffer
stays there, and nothing is reported.
-/

namespace Cgsf.Proof.Engine
open Cgsf.Engine Library

namespace SFProtobufProtocol
open Cgsf.Engine.SFProtobufProtocol

def frame (packetId : UInt16) (payload : List UInt8) : List UInt8 :=
  leBytes 2 signatureStart ++ leBytes 2 (payload.length + 8) ++ leBytes 2 packetId.toNat ++ payload ++
    leBytes 2 signatureEnd

def WellFormed (whole : List UInt8) : Prop :=
  ∃ packetId payload, payload.length + 8 < 2 ^ 16 ∧ whole = frame packetId payload

/-- The bytes are the beginning of some frame, and more of it is to come. -/
def Begins (bs : List UInt8) : Prop := ∃ whole, WellFormed whole ∧ bs <+: whole ∧ bs ≠ whole

def start (bs : List UInt8) : Nat := leValue (bs.take 2)
def declared (bs : List UInt8) : Nat := leValue ((bs.drop 2).take 2)
def frameId (bs : List UInt8) : UInt16 := .ofNat (leValue ((bs.drop 4).take 2))
def ending (bs : List UInt8) : Nat := leValue ((bs.drop (declared bs - 2)).take 2)

theorem length_frame (packetId : UInt16) (payload : List UInt8) :
    (frame packetId payload).length = payload.length + 8 := by
  simp [frame]
  omega

theorem frame_append (packetId : UInt16) (payload rest : List UInt8) :
    frame packetId payload ++ rest = leBytes 2 signatureStart ++ (leBytes 2 (payload.length + 8) ++
      (leBytes 2 packetId.toNat ++ (payload ++ (leBytes 2 signatureEnd ++ rest)))) := by
  simp only [frame, List.append_assoc]

theorem start_frame (packetId : UInt16) (payload rest : List UInt8) :
    start (frame packetId payload ++ rest) = signatureStart := by
  rw [start, frame_append, List.take_left' (leBytes_length _ _)]
  rfl

theorem declared_frame (packetId : UInt16) {payload : List UInt8} (rest : List UInt8)
    (small : payload.length + 8 < 2 ^ 16) :
    declared (frame packetId payload ++ rest) = payload.length + 8 := by
  rw [declared, frame_append, field_of_append _ _ _ 2 2 (leBytes_length _ _) (leBytes_length _ _),
    leValue_leBytes_of_lt 2 _ small]

theorem frameId_frame (packetId : UInt16) (payload rest : List UInt8) :
    frameId (frame packetId payload ++ rest) = packetId := by
  rw [frameId, frame_append, ← List.append_assoc,
    field_of_append _ _ _ 4 2 (by simp) (leBytes_length _ _),
    leValue_leBytes_of_lt 2 _ packetId.toNat_lt, UInt16.ofNat_toNat]

theorem payload_frame (packetId : UInt16) (payload rest : List UInt8) :
    ((frame packetId payload ++ rest).drop 6).take payload.length = payload := by
  rw [frame_append, ← List.append_assoc, ← List.append_assoc,
    field_of_append _ _ _ 6 _ (by simp) rfl]

theorem ending_frame (packetId : UInt16) {payload : List UInt8} (rest : List UInt8)
    (small : payload.length + 8 < 2 ^ 16) :
    ending (frame packetId payload ++ rest) = signatureEnd := by
  rw [ending, declared_frame packetId rest small, frame_append, ← List.append_assoc,
    ← List.append_assoc, ← List.append_assoc,
    field_of_append _ _ _ _ 2 (by simp; omega) (leBytes_length _ _)]
  rfl

theorem frame_of_fields (bs : List UInt8) (marked : start bs = signatureStart)
    (large : 8 ≤ declared bs) (complete : declared bs ≤ bs.length)
    (ended : ending bs = signatureEnd) :
    bs = frame (frameId bs) ((bs.drop 6).take (declared bs - 8)) ++ bs.drop (declared bs) := by
  have word (offset : Nat) (inside : offset + 2 ≤ bs.length) :
      leBytes 2 (leValue ((bs.drop offset).take 2)) = (bs.drop offset).take 2 :=
    leBytes_leValue_word _ 2 (by rw [List.length_take, List.length_drop]; omega)
  have id : (frameId bs).toNat = leValue ((bs.drop 4).take 2) := by
    have lt := leValue_lt ((bs.drop 4).take 2)
    have le : 256 ^ ((bs.drop 4).take 2).length ≤ 256 ^ 2 :=
      Nat.pow_le_pow_right (by omega) (List.length_take_le _ _)
    exact UInt16.toNat_ofNat'.trans (Nat.mod_eq_of_lt (lt_of_lt_of_le lt le))
  have size : ((bs.drop 6).take (declared bs - 8)).length + 8 = declared bs := by
    rw [List.length_take, List.length_drop]
    omega
  have first : leBytes 2 (start bs) = bs.take 2 := word 0 (by omega)
  have second : leBytes 2 (declared bs) = (bs.drop 2).take 2 := word 2 (by omega)
  have last : leBytes 2 (ending bs) = (bs.drop (declared bs - 2)).take 2 :=
    word (declared bs - 2) (by omega)
  rw [frame_append, size, id, word 4 (by omega), ← marked, ← ended, first, second, last,
    append_field bs (declared bs - 2) 2 _ (by omega), append_field bs 6 _ _ (by omega),
    append_field bs 4 2 6 rfl, append_field bs 2 2 4 rfl, List.take_append_drop]

/-- The beginning of a frame: either its header is not complete, or it declares more bytes than
there are. -/
theorem begins_short {bs : List UInt8} (begins : Begins bs) :
    bs.length < 8 ∨ start bs = signatureStart ∧ bs.length < declared bs := by
  obtain ⟨whole, ⟨packetId, payload, small, rfl⟩, ⟨rest, cut⟩, unfinished⟩ := begins
  by_cases short : bs.length < 8
  · exact .inl short
  · have total := congrArg List.length cut
    have more : rest ≠ [] := by
      rintro rfl
      exact unfinished (by rw [← cut, List.append_nil])
    have positive := List.length_pos_iff.mpr more
    rw [List.length_append, length_frame] at total
    have fields : start bs = start (bs ++ rest) ∧ declared bs = declared (bs ++ rest) := by
      rw [start, start, declared, declared, List.take_append_of_le_length (by omega),
        List.drop_append_of_le_length (by omega),
        List.take_append_of_le_length (by rw [List.length_drop]; omega)]
      exact ⟨rfl, rfl⟩
    have plain := start_frame packetId payload []
    have sized := declared_frame packetId [] small
    rw [List.append_nil, ← cut] at plain sized
    rw [fields.1, fields.2, plain, sized]
    exact .inr ⟨rfl, by omega⟩

variable {μ : Type} (messages : MessageCodec μ)
variable (create : UInt16 → Option (SFProtobufPacket μ))

/-- The packet that a complete frame decodes to. -/
def decodeFrame (packetId : UInt16) (payload : List UInt8) (p : SFProtobufPacket μ) : Deframed μ :=
  match p.decode messages payload with
  | none => { result := .decodingFailure, packetId, extractedBytes := payload.length + 8 }
  | some p => { result := .success, packet := some p, packetId, extractedBytes := payload.length + 8 }

/-- The ways `tryDeframeIncomingPacket` ends, by what the buffer holds. -/
inductive Outcome (bs : List UInt8) : Option (Deframed μ) → Prop where
  | waiting (packetId : UInt16) (short : bs.length < 8 ∨ bs.length < declared bs) :
      Outcome bs (some ⟨.incompletePacket, none, packetId, 0⟩)
  | badStart (long : 8 ≤ bs.length) (bad : start bs ≠ signatureStart) :
      Outcome bs (some ⟨.corruptPacket, none, frameId bs, 0⟩)
  | badEnd (long : 8 ≤ bs.length) (inside : declared bs ≤ bs.length)
      (bad : ending bs ≠ signatureEnd) :
      Outcome bs (some ⟨.corruptPacket, none, frameId bs, 0⟩)
  | outside (long : 8 ≤ bs.length) (small : declared bs < 8) : Outcome bs none
  | unknown (long : 8 ≤ bs.length) (inside : declared bs ≤ bs.length)
      (unknown : create (frameId bs) = none) :
      Outcome bs (some ⟨.undefinedFailure, none, frameId bs, declared bs⟩)
  | complete (payload rest : List UInt8) (p : SFProtobufPacket μ)
      (small : payload.length + 8 < 2 ^ 16) (split : bs = frame (frameId bs) payload ++ rest)
      (known : create (frameId bs) = some p) :
      Outcome bs (some (decodeFrame messages (frameId bs) payload p))

theorem readWord_inside {b : DataBuffer} {offset : Nat} (inside : offset + 2 ≤ b.data.length) :
    readWord b offset = some (leValue ((b.data.drop offset).take 2)) := by
  rw [readWord, read?, if_pos inside, Option.map_some]

theorem readWord_outside {b : DataBuffer} {offset : Nat} (outside : b.data.length < offset + 2) :
    readWord b offset = none := by
  rw [readWord, read?, if_neg (by omega), Option.map_none]

theorem tryDeframe_badStart {b : DataBuffer} (long : 8 ≤ b.data.length)
    (bad : start b.data ≠ signatureStart) :
    tryDeframeIncomingPacket messages create b =
      some ⟨.corruptPacket, none, frameId b.data, 0⟩ := by
  rw [tryDeframeIncomingPacket, DataBuffer.getDataSize, if_neg (by omega),
    readWord_inside (by omega), readWord_inside (by omega), readWord_inside (by omega)]
  exact if_pos bad

theorem tryDeframe_outcome (b : DataBuffer) (bounded : b.data.length < 2 ^ 31) :
    Outcome messages create b.data (tryDeframeIncomingPacket messages create b) := by
  rw [tryDeframeIncomingPacket, DataBuffer.getDataSize]
  by_cases short : b.data.length < 8
  · rw [if_pos short]
    exact .waiting 0 (.inl short)
  by_cases marked : start b.data = signatureStart
  swap
  · have corrupt := tryDeframe_badStart messages create (by omega) marked
    rw [tryDeframeIncomingPacket, DataBuffer.getDataSize] at corrupt
    rw [corrupt]
    exact .badStart (by omega) marked
  rw [if_neg short, readWord_inside (by omega), readWord_inside (by omega),
    readWord_inside (by omega), Option.bind_some, Option.bind_some, Option.bind_some]
  change Outcome messages create b.data
    (if start b.data ≠ signatureStart then some ⟨.corruptPacket, none, frameId b.data, 0⟩
      else if declared b.data > b.data.length then some ⟨.incompletePacket, none, frameId b.data, 0⟩
      else (readWord b (unsignedSub (declared b.data) 2)).bind fun sEnd =>
        if sEnd ≠ signatureEnd then some ⟨.corruptPacket, none, frameId b.data, 0⟩
        else makePacket messages create b (frameId b.data) (declared b.data))
  rw [if_neg (not_not.mpr marked)]
  by_cases inside : declared b.data ≤ b.data.length
  swap
  · rw [if_pos (by omega)]
    exact .waiting _ (.inr (by omega))
  rw [if_neg (by omega)]
  by_cases tiny : declared b.data < 2
  · rw [readWord_outside (by rw [unsignedSub, if_neg (by omega)]; omega)]
    exact .outside (by omega) (by omega)
  rw [unsignedSub, if_pos (by omega), readWord_inside (by omega), Option.bind_some]
  change Outcome messages create b.data (if ending b.data ≠ signatureEnd then _ else _)
  by_cases ended : ending b.data = signatureEnd
  swap
  · rw [if_pos ended]
    exact .badEnd (by omega) inside ended
  rw [if_neg (not_not.mpr ended), makePacket]
  cases known : create (frameId b.data) with
  | none => exact .unknown (by omega) inside known
  | some p =>
      by_cases large : 8 ≤ declared b.data
      · have split := frame_of_fields b.data marked large inside ended
        have size : ((b.data.drop 6).take (declared b.data - 8)).length = declared b.data - 8 := by
          rw [List.length_take, List.length_drop]
          omega
        have word : declared b.data < 2 ^ 16 := by
          have lt := leValue_lt ((b.data.drop 2).take 2)
          have le : 256 ^ ((b.data.drop 2).take 2).length ≤ 256 ^ 2 :=
            Nat.pow_le_pow_right (by omega) (List.length_take_le _ _)
          exact lt_of_lt_of_le lt le
        have made : Outcome messages create b.data _ := .complete _ _ p (by rw [size]; omega) split known
        rw [decodeFrame, size, Nat.sub_add_cancel large] at made
        dsimp only
        rw [unsignedSub, if_pos large, read?, if_pos (by omega), Option.map_some]
        exact made
      · dsimp only
        rw [unsignedSub, if_neg large, read?, if_neg (by omega)]
        exact .outside (by omega) (by omega)

/-- A known packet starts the buffer, all of it is there, and its frame is well formed. -/
def StartsKnown (bs : List UInt8) : Prop :=
  ∃ packetId payload rest, payload.length + 8 < 2 ^ 16 ∧ bs = frame packetId payload ++ rest ∧
    (create packetId).isSome = true

/-- `p` is what the frame at the front of `before` decodes to, and only that frame is gone. -/
def Takes (before after : List UInt8) (p : SFProtobufPacket μ) : Prop :=
  ∃ payload made decoded, payload.length + 8 < 2 ^ 16 ∧
    before = frame p.packetID payload ++ after ∧ create p.packetID = some made ∧
    made.decode messages payload = some decoded ∧ p = { decoded with packetID := p.packetID }

/-- `getPacket` takes a packet, reports an error, or waits for the rest of a frame. -/
def Progress (t : SFProtobufProtocol) : Prop :=
  ∃ t' errorCode found, getPacket messages create t = some (t', errorCode, found) ∧
    match found with
    | some p => Takes messages create t.buffer.data t'.buffer.data p
    | none => errorCode ≠ 0 ∨ Begins t.buffer.data

theorem startsKnown_fields {bs : List UInt8} (known : StartsKnown create bs) :
    8 ≤ declared bs ∧ declared bs ≤ bs.length ∧ start bs = signatureStart ∧
      ending bs = signatureEnd ∧ (create (frameId bs)).isSome = true := by
  obtain ⟨packetId, payload, rest, small, rfl, known⟩ := known
  rw [declared_frame packetId rest small, frameId_frame, List.length_append, length_frame]
  exact ⟨by omega, by omega, start_frame _ _ _, ending_frame _ _ small, known⟩

/-- `getPacket` makes progress exactly when the buffer holds the beginning of a frame, or starts
with a whole one whose id is known. -/
theorem progress_iff (t : SFProtobufProtocol)
    (held : t.buffer.data.length ≤ receiveBufferSize) :
    Progress messages create t ↔ Begins t.buffer.data ∨ StartsKnown create t.buffer.data := by
  have outcome := tryDeframe_outcome messages create t.buffer
    (by rw [receiveBufferSize] at held; omega)
  have stays (packetId : UInt16) (result : SFProtocol.Result) (extracted : Nat)
      (run : tryDeframeIncomingPacket messages create t.buffer =
        some ⟨result, none, packetId, extracted⟩)
      (failed : result ≠ .success ∧ result ≠ .decodingFailure) :
      Progress messages create t ↔ Begins t.buffer.data := by
    have same : getPacket messages create t = some (t, 0, none) := by
      rw [getPacket, run]
      cases result <;> first | rfl | exact absurd rfl failed.1 | exact absurd rfl failed.2
    simp [Progress, same]
  generalize run : tryDeframeIncomingPacket messages create t.buffer = result at outcome
  cases outcome with
  | waiting packetId short =>
      rw [stays packetId _ _ run (by decide)]
      refine ⟨.inl, fun either => either.resolve_right fun known => ?_⟩
      have fields := startsKnown_fields create known
      omega
  | badStart long bad =>
      rw [stays _ _ _ run (by decide)]
      exact ⟨.inl, fun either => either.resolve_right fun known =>
        bad (startsKnown_fields create known).2.2.1⟩
  | badEnd long inside bad =>
      rw [stays _ _ _ run (by decide)]
      exact ⟨.inl, fun either => either.resolve_right fun known =>
        bad (startsKnown_fields create known).2.2.2.1⟩
  | outside long small =>
      have fault : getPacket messages create t = none := by rw [getPacket, run]; rfl
      refine iff_of_false (by simp [Progress, fault]) ?_
      rintro (begins | known)
      · have short := begins_short begins
        omega
      · have fields := startsKnown_fields create known
        omega
  | unknown long inside unknown =>
      rw [stays _ _ _ run (by decide)]
      refine ⟨.inl, fun either => either.resolve_right fun known => ?_⟩
      simpa [unknown] using (startsKnown_fields create known).2.2.2.2
  | complete payload rest p small split known =>
      have starts : StartsKnown create t.buffer.data :=
        ⟨_, payload, rest, small, split, by rw [known]; rfl⟩
      refine iff_of_true ?_ (.inr starts)
      have behind : t.buffer.data.drop (payload.length + 8) = rest := by
        rw [split, List.drop_left' (length_frame _ _)]
      rw [Progress, getPacket, run, decodeFrame]
      cases decoded : p.decode messages payload with
      | none => exact ⟨_, _, _, rfl, .inl (by decide)⟩
      | some p' =>
          refine ⟨_, _, _, rfl, payload, p, p', small, ?_, known, decoded, rfl⟩
          change t.buffer.data = _ ++ t.buffer.data.drop (payload.length + 8)
          rw [behind]
          exact split

/-- Messages that are their own bytes. -/
def rawMessages : MessageCodec (List UInt8) := ⟨fun _ bs => some bs, some⟩

def holding (data : List UInt8) : SFProtobufProtocol :=
  { initProtocol 8192 4096 0 with buffer := { uMaxSize := receiveBufferSize, data } }

theorem progress_login :
    Progress rawMessages
      (Casual.SFCGProtobufProtocol.createIncomingPacketFromPacketId fun _ => [])
      (holding (frame Casual.CGSF.login [1, 2])) :=
  (progress_iff rawMessages _ (holding (frame Casual.CGSF.login [1, 2])) (by decide)).mpr
    (.inr ⟨Casual.CGSF.login, [1, 2], [], by decide, rfl, by decide⟩)

/-- Eight zero bytes are no beginning of a frame, and `getPacket` neither takes nor reports them. -/
theorem zero_bytes_no_progress :
    ¬ ∀ t : SFProtobufProtocol, t.buffer.data.length ≤ receiveBufferSize →
      Progress rawMessages
        (Casual.SFCGProtobufProtocol.createIncomingPacketFromPacketId fun _ => []) t := by
  intro all
  obtain ⟨t', errorCode, found, run, progress⟩ := all (holding (List.replicate 8 0)) (by decide)
  have silent : getPacket rawMessages
      (Casual.SFCGProtobufProtocol.createIncomingPacketFromPacketId fun _ => [])
      (holding (List.replicate 8 0)) = some (holding (List.replicate 8 0), 0, none) := by
    decide
  rw [run] at silent
  obtain ⟨rfl, rfl, rfl⟩ : holding (List.replicate 8 0) = t' ∧ 0 = errorCode ∧ none = found := by
    simpa [eq_comm] using silent
  have begins : Begins (List.replicate 8 0) := progress.resolve_left (by decide)
  rcases begins_short begins with short | ⟨marked, -⟩
  · exact absurd short (by decide)
  · exact absurd marked (by decide)

/-- Bytes that do not start with the marker stay at the head of the buffer, whatever follows. -/
theorem badStart_stuck (t : SFProtobufProtocol) (more : List UInt8)
    (long : 8 ≤ t.buffer.data.length) (bad : start t.buffer.data ≠ signatureStart) :
    let later := { t with buffer := { t.buffer with data := t.buffer.data ++ more } }
    getPacket messages create later = some (later, 0, none) := by
  have long' : 8 ≤ (t.buffer.data ++ more).length := by
    rw [List.length_append]
    omega
  have bad' : start (t.buffer.data ++ more) ≠ signatureStart := by
    rwa [start, List.take_append_of_le_length (by omega)]
  have corrupt := tryDeframe_badStart messages create
    (b := { t.buffer with data := t.buffer.data ++ more }) long' bad'
  simp only [getPacket, corrupt]
  rfl

end SFProtobufProtocol

end Cgsf.Proof.Engine
