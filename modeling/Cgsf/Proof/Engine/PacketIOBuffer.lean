import Cgsf.Engine.PacketIOBuffer
import Cgsf.Library.Reassembly
import Cgsf.Proof.Engine.IOBuffer

/-!
# Frames in the receive ring

`framing` says on plain byte lists what a frame of the stream is; `GetPacket` on a valid ring does
what `framing` does on the contents of the ring.
-/

namespace Cgsf.Proof.Engine
open Cgsf.Engine Library

namespace SFPacketHeader
open Cgsf.Engine.SFPacketHeader

@[simp] theorem length_bytes (h : SFPacketHeader) : h.bytes.length = headerSize := by
  simp [bytes, headerSize]

theorem ofBytes_bytes (h : SFPacketHeader) : ofBytes h.bytes = h := by
  have packetID := h.packetID.toNat_lt
  have packetOption := h.packetOption.toNat_lt
  have dataCRC := h.dataCRC.toNat_lt
  have dataSize := h.dataSize.toNat_lt
  cases h
  simp only [bytes, ofBytes, SFPacketHeader.mk.injEq] at *
  refine ⟨?_, ?_, ?_, ?_⟩ <;>
    simp (disch := simp) [List.drop_append, List.drop_eq_nil_of_le, List.take_of_length_le,
      leValue_leBytes, *]

theorem bytes_ofBytes (bs : List UInt8) (length : bs.length = headerSize) :
    (ofBytes bs).bytes = bs := by
  have word16 (xs : List UInt8) (two : xs.length = 2) :
      leBytes 2 (UInt16.ofNat (leValue xs)).toNat = xs := by
    have lt := leValue_lt xs
    have back := leBytes_leValue xs
    rw [two] at lt back
    rw [UInt16.toNat_ofNat']
    rwa [← Nat.mod_eq_of_lt lt] at back
  have word32 (xs : List UInt8) (four : xs.length = 4) :
      leBytes 4 (UInt32.ofNat (leValue xs)).toNat = xs := by
    have lt := leValue_lt xs
    have back := leBytes_leValue xs
    rw [four] at lt back
    rw [UInt32.toNat_ofNat']
    rwa [← Nat.mod_eq_of_lt lt] at back
  rw [headerSize] at length
  have cut (n m : Nat) : (bs.drop n).take m ++ bs.drop (n + m) = bs.drop n := by
    rw [← List.drop_drop, List.take_append_drop]
  rw [bytes, ofBytes, word16 _ (by simp; omega), word32 _ (by simp; omega),
    word32 _ (by simp; omega), word16 _ (by simp; omega)]
  have last : (bs.drop 10).take 2 = bs.drop 10 := List.take_of_length_le (by simp; omega)
  rw [last, List.append_assoc, cut 6 4, List.append_assoc, cut 2 4, List.take_append_drop]

end SFPacketHeader

structure Frame where
  header : SFPacketHeader
  payload : List UInt8
  deriving DecidableEq, Repr

namespace Frame

def bytes (f : Frame) : List UInt8 := f.header.bytes ++ f.payload

def WellFormed (f : Frame) : Prop := f.header.dataSize.toNat = f.payload.length

instance (f : Frame) : Decidable f.WellFormed := inferInstanceAs (Decidable (_ = _))

@[simp] theorem length_bytes (f : Frame) : f.bytes.length = headerSize + f.payload.length := by
  rw [bytes, List.length_append, SFPacketHeader.length_bytes]

/-- `GetPacket` takes payloads up to the packet size it is given and the room behind a header. -/
def Fits (packetSize : UInt16) (size : Nat) : Prop :=
  size ≤ unsignedSub packetSize.toNat headerSize ∧ size ≤ SFPacket.dataCapacity

instance (packetSize : UInt16) (size : Nat) : Decidable (Fits packetSize size) :=
  inferInstanceAs (Decidable (_ ∧ _))

def frontHeader (bytes : List UInt8) : SFPacketHeader := .ofBytes (bytes.take headerSize)

def next (packetSize : UInt16) (bytes : List UInt8) : Next Frame :=
  let dataSize := (frontHeader bytes).dataSize.toNat
  if bytes.length < headerSize then .incomplete
  else if dataSize > unsignedSub packetSize.toNat headerSize then .malformed
  else if bytes.length - headerSize < dataSize then .incomplete
  else if dataSize > SFPacket.dataCapacity then .malformed
  else .frame ⟨frontHeader bytes, (bytes.drop headerSize).take dataSize⟩

/-- The five ways `next` ends, in the order of its checks. -/
inductive Outcome (packetSize : UInt16) (bytes : List UInt8) : Next Frame → Prop where
  | noHeader (short : bytes.length < headerSize) : Outcome packetSize bytes .incomplete
  | tooLong (long : headerSize ≤ bytes.length)
      (size : unsignedSub packetSize.toNat headerSize < (frontHeader bytes).dataSize.toNat) :
      Outcome packetSize bytes .malformed
  | noData (long : headerSize ≤ bytes.length)
      (size : (frontHeader bytes).dataSize.toNat ≤ unsignedSub packetSize.toNat headerSize)
      (short : bytes.length < headerSize + (frontHeader bytes).dataSize.toNat) :
      Outcome packetSize bytes .incomplete
  | noRoom (long : headerSize + (frontHeader bytes).dataSize.toNat ≤ bytes.length)
      (size : (frontHeader bytes).dataSize.toNat ≤ unsignedSub packetSize.toNat headerSize)
      (room : SFPacket.dataCapacity < (frontHeader bytes).dataSize.toNat) :
      Outcome packetSize bytes .malformed
  | found (payload rest : List UInt8) (size : (frontHeader bytes).dataSize.toNat = payload.length)
      (fits : Fits packetSize payload.length)
      (split : bytes = (frontHeader bytes).bytes ++ payload ++ rest) :
      Outcome packetSize bytes (.frame ⟨frontHeader bytes, payload⟩)

theorem frontHeader_bytes (bs : List UInt8) (long : headerSize ≤ bs.length) :
    (frontHeader bs).bytes = bs.take headerSize :=
  SFPacketHeader.bytes_ofBytes _ (by rw [List.length_take]; omega)

theorem next_outcome (packetSize : UInt16) (bs : List UInt8) :
    Outcome packetSize bs (next packetSize bs) := by
  rw [next]
  generalize size : (frontHeader bs).dataSize.toNat = dataSize
  by_cases long : headerSize ≤ bs.length
  · rw [if_neg (by omega)]
    by_cases fits : dataSize ≤ unsignedSub packetSize.toNat headerSize
    · rw [if_neg (by omega)]
      by_cases complete : headerSize + dataSize ≤ bs.length
      · rw [if_neg (by omega)]
        by_cases room : dataSize ≤ SFPacket.dataCapacity
        · rw [if_neg (by omega)]
          have exactly : ((bs.drop headerSize).take dataSize).length = dataSize := by
            rw [List.length_take, List.length_drop]
            omega
          refine .found _ ((bs.drop headerSize).drop dataSize) (size.trans exactly.symm) ?_ ?_
          · rw [exactly]
            exact ⟨fits, room⟩
          · rw [frontHeader_bytes bs long, List.append_assoc, List.take_append_drop,
              List.take_append_drop]
        · rw [if_pos (by omega)]
          exact .noRoom (size ▸ complete) (size ▸ fits) (by omega)
      · rw [if_pos (by omega)]
        exact .noData long (size ▸ fits) (by omega)
    · rw [if_pos (by omega)]
      exact .tooLong long (by omega)
  · rw [if_pos (by omega)]
    exact .noHeader (by omega)

theorem frontHeader_append (bs more : List UInt8) (long : headerSize ≤ bs.length) :
    frontHeader (bs ++ more) = frontHeader bs := by
  rw [frontHeader, frontHeader, List.take_append_of_le_length long]

theorem frontHeader_front (f : Frame) (rest : List UInt8) : frontHeader (f.bytes ++ rest) = f.header := by
  rw [frontHeader, bytes, List.append_assoc, List.take_left' (SFPacketHeader.length_bytes _),
    SFPacketHeader.ofBytes_bytes]

theorem next_iff (packetSize : UInt16) (bs : List UInt8) (f : Frame) :
    next packetSize bs = .frame f ↔
      (f.WellFormed ∧ Fits packetSize f.payload.length) ∧ f.bytes <+: bs := by
  have outcome := next_outcome packetSize bs
  constructor
  · intro action
    rw [action] at outcome
    cases outcome with
    | found payload rest size fits split => exact ⟨⟨size, fits⟩, rest, split.symm⟩
  · rintro ⟨⟨wellFormed, fits⟩, rest, rfl⟩
    have size : (frontHeader (f.bytes ++ rest)).dataSize.toNat = f.payload.length := by
      rw [frontHeader_front, wellFormed]
    have length : (f.bytes ++ rest).length = headerSize + f.payload.length + rest.length := by
      rw [List.length_append, length_bytes]
    generalize action : next packetSize (f.bytes ++ rest) = result at outcome
    cases outcome with
    | noHeader short => omega
    | tooLong long large => exact absurd fits.1 (by omega)
    | noData long _ short => omega
    | noRoom long _ room => exact absurd fits.2 (by omega)
    | found payload tail size' _ split =>
        rw [frontHeader_front, bytes, List.append_assoc, List.append_assoc,
          List.append_cancel_left_eq] at split
        have same : f.payload = payload :=
          (List.append_inj split (by rw [← size, size'])).1
        rw [frontHeader_front, ← same]

end Frame

def framing (packetSize : UInt16) : Deframer UInt8 Frame where
  next := Frame.next packetSize
  encode := Frame.bytes
  Accepts := fun f => f.WellFormed ∧ Frame.Fits packetSize f.payload.length
  next_frame := Frame.next_iff packetSize
  encode_ne_nil := by
    intro f _ nil
    have := congrArg List.length nil
    rw [Frame.length_bytes, headerSize] at this
    simp at this
  next_nil := rfl
  malformed_append := by
    intro bs more action
    have outcome := Frame.next_outcome packetSize bs
    have later := Frame.next_outcome packetSize (bs ++ more)
    rw [action] at outcome
    generalize Frame.next packetSize (bs ++ more) = result at later ⊢
    have length : (bs ++ more).length = bs.length + more.length := List.length_append
    cases outcome with
    | tooLong long size =>
        rw [← Frame.frontHeader_append bs more long] at size
        cases later with
        | noHeader | noData => omega
        | tooLong | noRoom => rfl
        | found payload rest size' fits => exact absurd fits.1 (by omega)
    | noRoom long size room =>
        rw [← Frame.frontHeader_append bs more (by omega)] at long size room
        cases later with
        | noHeader | noData => omega
        | tooLong | noRoom => rfl
        | found payload rest size' fits => exact absurd fits.2 (by omega)

namespace SFPacketIOBuffer
open Cgsf.Engine.SFPacketIOBuffer SFIOBuffer

/-- `GetPacket` decides as `framing` does on the contents of the ring. -/
inductive Agrees (ring : SFIOBuffer) : Next Frame → Option Answer → Prop where
  | incomplete (header : SFPacketHeader) :
      Agrees ring .incomplete (some ⟨ring, header, [], packetIOErrorNone, false⟩)
  | frame (found : Frame) (after : SFIOBuffer) (valid : Valid after)
      (size : after.iBufSize = ring.iBufSize)
      (rest : contents ring = found.bytes ++ contents after) :
      Agrees ring (.frame found)
        (some ⟨after, found.header, found.payload, packetIOErrorNone, true⟩)
  | refused (header : SFPacketHeader) :
      Agrees ring .malformed (some ⟨ring, header, [], packetIOErrorData, false⟩)
  | overrun : Agrees ring .malformed none

/-- `GetPacket` once the header is read, with the ring that `GetData` left. -/
def getBody (ring after : SFIOBuffer) (header : SFPacketHeader) (capacity : Nat)
    (packetSize : UInt16) : Option Answer :=
  if header.dataSize.toNat > unsignedSub packetSize.toNat headerSize then
    some ⟨ring, header, [], packetIOErrorData, false⟩
  else if after.iUsedBufferSize < header.dataSize.toNat then
    some ⟨ring, header, [], packetIOErrorNone, false⟩
  else do
    let (after, data) ← after.getData header.dataSize.toNat
    if data.length > capacity then none
    else if data.length ≠ header.dataSize.toNat then
      return ⟨after.setHead ring.iHead, header, data, packetIOErrorData, false⟩
    else return ⟨after, header, data, packetIOErrorNone, true⟩

theorem getPacket_eq {ring after : SFIOBuffer} {bs : List UInt8} (header : SFPacketHeader)
    (capacity : Nat) (packetSize : UInt16) (long : ¬ ring.iUsedBufferSize < headerSize)
    (read : ring.getData headerSize = some (after, bs)) (length : bs.length = headerSize)
    (back : after.setHead ring.iHead = ring) :
    getPacket ring header capacity packetSize =
      getBody ring after (.ofBytes bs) capacity packetSize := by
  rw [getPacket, if_neg long, read]
  simp only [Option.bind_eq_bind, Option.bind_some, length, ne_eq, not_true_eq_false, if_false,
    back, Option.pure_def, getBody]

theorem getBody_agrees {ring after : SFIOBuffer} (packetSize : UInt16)
    (long : headerSize ≤ (contents ring).length) (valid : Valid after)
    (size : after.iBufSize = ring.iBufSize)
    (rest : contents after = (contents ring).drop headerSize) :
    Agrees ring ((framing packetSize).next (contents ring))
      (getBody ring after (Frame.frontHeader (contents ring)) SFPacket.dataCapacity packetSize) := by
  have length := valid.length_contents
  rw [rest, List.length_drop] at length
  have outcome := Frame.next_outcome packetSize (contents ring)
  change Agrees ring (Frame.next packetSize (contents ring)) _
  generalize Frame.next packetSize (contents ring) = result at outcome
  cases outcome with
  | noHeader => omega
  | tooLong _ size => rw [getBody, if_pos size]; exact .refused _
  | noData _ size short =>
      rw [getBody, if_neg (by omega), if_pos (by omega)]
      exact .incomplete _
  | noRoom _ size room =>
      obtain ⟨after', data, -⟩ :=
        getData_spec valid (Frame.frontHeader (contents ring)).dataSize.toNat (by omega)
      have all : ((contents after).take (Frame.frontHeader (contents ring)).dataSize.toNat).length =
          (Frame.frontHeader (contents ring)).dataSize.toNat := by
        rw [List.length_take, valid.length_contents, Nat.min_eq_left (by omega)]
      rw [getBody, if_neg (by omega), if_neg (by omega), data, Option.bind_eq_bind,
        Option.bind_some]
      dsimp only
      rw [if_pos (by omega)]
      exact .overrun
  | found payload tail exactly fits split =>
      have behind : contents after = payload ++ tail := by
        rw [rest, split, List.append_assoc, List.drop_left' (SFPacketHeader.length_bytes _)]
      have enough : payload.length ≤ after.iUsedBufferSize := by
        rw [← valid.length_contents, behind, List.length_append]
        omega
      obtain ⟨after', data, valid', rest', size', -⟩ := getData_spec valid payload.length enough
      rw [behind, List.take_left] at data
      rw [behind, List.drop_left] at rest'
      obtain ⟨fits, room⟩ := fits
      rw [getBody, exactly, if_neg (by omega), if_neg (by omega), data, Option.bind_eq_bind,
        Option.bind_some]
      dsimp only
      rw [if_neg (by omega), if_neg (by simp)]
      exact .frame ⟨_, payload⟩ after' valid' (size'.trans size) (by rw [rest']; exact split)

theorem getPacket_agrees {ring : SFIOBuffer} (valid : Valid ring) (header : SFPacketHeader)
    (packetSize : UInt16) :
    Agrees ring ((framing packetSize).next (contents ring))
      (getPacket ring header SFPacket.dataCapacity packetSize) := by
  have length := valid.length_contents
  by_cases short : ring.iUsedBufferSize < headerSize
  · have action : (framing packetSize).next (contents ring) = .incomplete :=
      if_pos (by rw [length]; exact short)
    rw [action, getPacket, if_pos short]
    exact .incomplete header
  · have long : headerSize ≤ ring.iUsedBufferSize := Nat.not_lt.mp short
    obtain ⟨after, read, valid', rest, size, back⟩ := getData_spec valid headerSize long
    rw [getPacket_eq header _ packetSize short read (valid.length_take long) back]
    exact getBody_agrees packetSize (by omega) valid' size rest

theorem getBody_valid {ring after : SFIOBuffer} {header : SFPacketHeader} {capacity : Nat}
    {packetSize : UInt16} {answer : Answer} (valid : Valid ring) (valid' : Valid after)
    (run : getBody ring after header capacity packetSize = some answer) : Valid answer.ring := by
  rw [getBody] at run
  split at run
  · obtain rfl := Option.some.inj run
    exact valid
  · split at run
    · obtain rfl := Option.some.inj run
      exact valid
    · rename_i enough
      obtain ⟨last, data, valid'', -⟩ :=
        getData_spec valid' header.dataSize.toNat (Nat.not_lt.mp enough)
      have all : ((contents after).take header.dataSize.toNat).length = header.dataSize.toNat := by
        rw [List.length_take, valid'.length_contents, Nat.min_eq_left (Nat.not_lt.mp enough)]
      simp only [data, Option.bind_eq_bind, Option.bind_some, all] at run
      split at run
      · contradiction
      · rw [if_neg (by simp)] at run
        obtain rfl := Option.some.inj run
        exact valid''

theorem getPacket_valid {ring : SFIOBuffer} {header : SFPacketHeader} {capacity : Nat}
    {packetSize : UInt16} {answer : Answer} (valid : Valid ring)
    (run : getPacket ring header capacity packetSize = some answer) : Valid answer.ring := by
  by_cases short : ring.iUsedBufferSize < headerSize
  · rw [getPacket, if_pos short] at run
    obtain rfl := Option.some.inj run
    exact valid
  · have long : headerSize ≤ ring.iUsedBufferSize := Nat.not_lt.mp short
    obtain ⟨after, read, valid', rest, size, back⟩ := getData_spec valid headerSize long
    rw [getPacket_eq header _ packetSize short read (valid.length_take long) back] at run
    exact getBody_valid valid valid' run

theorem getHeader_short {ring : SFIOBuffer} (short : ring.iUsedBufferSize < headerSize)
    (header : SFPacketHeader) :
    getHeader ring header = some ⟨ring, header, [], packetIOErrorNone, false⟩ := by
  rw [getHeader, if_pos short]

theorem getHeader_found {ring : SFIOBuffer} (valid : Valid ring)
    (long : headerSize ≤ ring.iUsedBufferSize) (header : SFPacketHeader) :
    getHeader ring header =
      some ⟨ring, Frame.frontHeader (contents ring), [], packetIOErrorNone, true⟩ := by
  obtain ⟨after, read, -, -, -, back⟩ := getData_spec valid headerSize long
  rw [getHeader, if_neg (Nat.not_lt.mpr long)]
  simp only [read, Option.bind_eq_bind, Option.bind_some, valid.length_take long, back,
    Option.pure_def]
  rfl

theorem getHeader_returns {ring : SFIOBuffer} (valid : Valid ring) (header : SFPacketHeader) :
    ∃ answer, getHeader ring header = some answer ∧ answer.ring = ring := by
  by_cases short : ring.iUsedBufferSize < headerSize
  · exact ⟨_, getHeader_short short header, rfl⟩
  · exact ⟨_, getHeader_found valid (Nat.not_lt.mp short) header, rfl⟩

theorem getHeader_valid {ring : SFIOBuffer} {header : SFPacketHeader} {answer : Answer}
    (valid : Valid ring) (run : getHeader ring header = some answer) : Valid answer.ring := by
  obtain ⟨answer', run', same⟩ := getHeader_returns valid header
  obtain rfl := Option.some.inj (run'.symm.trans run)
  rw [same]
  exact valid

end SFPacketIOBuffer

end Cgsf.Proof.Engine
