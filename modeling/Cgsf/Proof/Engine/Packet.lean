import Cgsf.Proof.Engine.Receive

/-!
# The packet codec

`Encode` compresses, encrypts and takes the checksum; `Decode` undoes the three in reverse order.
-/

namespace Cgsf.Proof.Engine
open Cgsf.Engine Library

namespace SFEncryptionXOR
open Cgsf.Engine.SFEncryptionXOR

theorem length_encrypt (bs : List UInt8) : (encrypt bs).length = bs.length := by
  fun_induction encrypt bs with
  | case1 a b c d rest ih => simp [ih]; omega
  | case2 rest short => rfl

theorem xor_word (w : Nat) (lt : w < 256 ^ 4) :
    leValue (leBytes 4 (w ^^^ encryptionKey)) = w ^^^ encryptionKey := by
  have bound : w ^^^ encryptionKey < 2 ^ 32 := Nat.xor_lt_two_pow lt (by decide)
  rw [leValue_leBytes]
  exact Nat.mod_eq_of_lt bound

theorem decrypt_word (bs rest : List UInt8) (four : bs.length = 4) :
    decrypt (bs ++ rest) = leBytes 4 (leValue bs ^^^ encryptionKey) ++ decrypt rest := by
  match bs, four with
  | [a, b, c, d], _ => rfl

theorem decrypt_encrypt (bs : List UInt8) : decrypt (encrypt bs) = bs := by
  fun_induction encrypt bs with
  | case1 a b c d rest ih =>
      have word : leBytes 4 (leValue [a, b, c, d]) = [a, b, c, d] := leBytes_leValue [a, b, c, d]
      rw [decrypt_word _ _ (leBytes_length _ _), xor_word _ (leValue_lt [a, b, c, d]),
        Nat.xor_assoc, Nat.xor_self, Nat.xor_zero, word, ih]
      rfl
  | case2 rest short =>
      rw [decrypt.eq_def]
      split
      · exact absurd rfl (short _ _ _ _ _)
      · rfl

end SFEncryptionXOR

namespace SFPacket
open Cgsf.Engine.SFPacket SFCGSFPacketProtocol

theorem getData_eq {p : SFPacket} {n : Nat} (fits : n ≤ dataCapacity) (long : n ≤ p.data.length) :
    p.getData n = some (p.data.take n) := by
  rw [getData, if_pos fits, Nat.sub_eq_zero_of_le long, List.replicate_zero, List.append_nil]

def overwrite (p : SFPacket) (bs : List UInt8) : SFPacket :=
  { p with data := bs ++ p.data.drop bs.length }

theorem putData_eq (p : SFPacket) (bs : List UInt8) (fits : bs.length ≤ dataCapacity) :
    p.putData 0 bs = some (overwrite p bs) := by
  rw [putData, if_pos (by omega)]
  simp [splice, overwrite]

theorem putData_none (p : SFPacket) (bs : List UInt8) (long : dataCapacity < bs.length) :
    p.putData 0 bs = none := by
  rw [putData, if_neg (by omega)]

/-- A new packet with an id and a payload. -/
def compose (packetID : UInt16) (payload : List UInt8) : Option SFPacket :=
  (({} : SFPacket).initPacket.setPacketID packetID).write payload

def composed (packetID : UInt16) (payload : List UInt8) : SFPacket where
  packetID := packetID
  header := { packetID, dataSize := .ofNat payload.length }
  data := payload

theorem compose_eq (packetID : UInt16) (payload : List UInt8)
    (fits : payload.length ≤ dataCapacity) :
    compose packetID payload = some (composed packetID payload) := by
  have room : ¬ 12 + payload.length > 8192 := by
    rw [dataCapacity, maxPacketSize, headerSize] at fits
    omega
  simp [compose, composed, write, putData, setPacketID, initPacket, getPacketSize, getDataSize, setDataSize,
    headerSize, maxPacketSize, room, fits, splice]

/-- The payload goes through the compressor. -/
def Compresses (packetOption : UInt32) (size : Nat) : Prop :=
  (packetOption &&& packetOptionCompress != 0) = true ∧ size ≥ packetCompressLimit

instance (packetOption : UInt32) (size : Nat) : Decidable (Compresses packetOption size) :=
  inferInstanceAs (Decidable (_ ∧ _))

variable (codec : Codec)

/-- What `Encode` leaves in the packet: `src` is the payload or its compressed form, `body` what
goes on the wire. -/
structure Sealed (packetID : UInt16) (src body : List UInt8) (q : SFPacket) : Prop where
  packetID : q.header.packetID = packetID
  dataSize : q.header.dataSize.toNat = body.length
  fits : body.length ≤ dataCapacity
  data : q.getData body.length = some body
  crc : q.header.checkDataCRC = true → q.header.dataCRC = codec.crc32 body
  cipher : body = if q.header.checkEncryption then SFEncryptionXOR.encrypt src else src

theorem getData_overwrite (p : SFPacket) {bs : List UInt8} (fits : bs.length ≤ dataCapacity) :
    (overwrite p bs).getData bs.length = some bs := by
  rw [getData_eq fits (by simp [overwrite])]
  simp [overwrite]

theorem stampHeader_sealed {p : SFPacket} {packetOption : UInt32} {src body : List UInt8}
    (size : p.header.dataSize.toNat = body.length) (fits : body.length ≤ dataCapacity)
    (data : p.getData body.length = some body)
    (cipher : body = if packetOption &&& packetOptionEncryption != 0
      then SFEncryptionXOR.encrypt src else src) :
    ∃ q, stampHeader codec p packetOption = some q ∧ q.header.packetOption = packetOption ∧
      Sealed codec p.header.packetID src body q := by
  rw [stampHeader, getDataSize, size, data, Option.map_some]
  exact ⟨_, rfl, rfl, rfl, size, fits, data, fun checked => if_pos checked, cipher⟩

theorem finish_sealed {p : SFPacket} {packetOption : UInt32} {src : List UInt8}
    (size : p.header.dataSize.toNat = src.length) (fits : src.length ≤ dataCapacity)
    (data : p.getData src.length = some src) :
    ∃ q body, (p.encryptData packetOption).bind (stampHeader codec · packetOption) = some q ∧
      q.header.packetOption = packetOption ∧ Sealed codec p.header.packetID src body q := by
  rw [encryptData]
  split
  · rename_i encrypted
    have length := SFEncryptionXOR.length_encrypt src
    rw [getDataSize, size, data, Option.bind_some,
      putData_eq p _ (length ▸ fits), Option.bind_some]
    obtain ⟨q, run, option, done⟩ := stampHeader_sealed codec
      (p := overwrite p (SFEncryptionXOR.encrypt src)) (size.trans length.symm) (length ▸ fits)
      (getData_overwrite p (length ▸ fits)) (if_pos encrypted).symm
    exact ⟨q, _, run, option, done⟩
  · rename_i plain
    obtain ⟨q, run, option, done⟩ :=
      stampHeader_sealed codec size fits data (if_neg plain).symm
    exact ⟨q, _, run, option, done⟩

/-- What `Encode` stores of a payload: its compressed form or the payload itself. -/
def stored (packetSize : UInt16) (packetOption : UInt32) (payload : List UInt8) : List UInt8 :=
  if Compresses packetOption payload.length then
    codec.lzfCompress payload (unsignedSub packetSize.toNat headerSize)
  else payload

theorem encode_zero {p : SFPacket} (fresh : p.encoded = false) (zero : p.getDataSize = 0)
    (packetSize : UInt16) (packetOption : UInt32) :
    p.encode codec packetSize packetOption = some (p, true) := by
  simp [SFPacket.encode, fresh, zero]

theorem encode_compressed {p : SFPacket} {packetOption : UInt32} (fresh : p.encoded = false)
    (fits : p.getDataSize ≤ dataCapacity) (compressed : Compresses packetOption p.getDataSize)
    (packetSize : UInt16) :
    p.encode codec packetSize packetOption =
      (p.compressData codec packetSize).bind fun (p, ok) =>
        if ok then
          ((p.encryptData packetOption).bind (stampHeader codec · packetOption)).map (·, true)
        else some (p, false) := by
  have positive : p.getDataSize ≠ 0 := by
    have := compressed.2
    rw [packetCompressLimit] at this
    omega
  rw [SFPacket.encode, fresh, if_neg Bool.false_ne_true, if_neg (by omega), if_neg positive]
  exact if_pos compressed

theorem encode_plain {p : SFPacket} {packetOption : UInt32} (fresh : p.encoded = false)
    (fits : p.getDataSize ≤ dataCapacity) (positive : p.getDataSize ≠ 0)
    (plain : ¬ Compresses packetOption p.getDataSize) (packetSize : UInt16) :
    p.encode codec packetSize packetOption =
      ((p.encryptData (packetOption &&& ~~~packetOptionCompress)).bind
        (stampHeader codec · (packetOption &&& ~~~packetOptionCompress))).map (·, true) := by
  rw [SFPacket.encode, fresh, if_neg Bool.false_ne_true, if_neg (by omega), if_neg positive]
  exact if_neg plain

theorem checkCompressed_masked {h : SFPacketHeader} {packetOption : UInt32}
    (masked : h.packetOption = packetOption &&& ~~~packetOptionCompress) :
    h.checkCompressed = false := by
  have none : ~~~packetOptionCompress &&& packetOptionCompress = 0 := by decide
  rw [SFPacketHeader.checkCompressed, masked, UInt32.and_assoc, none, UInt32.and_zero]
  rfl

theorem dataSize_ofNat {n : Nat} (fits : n ≤ dataCapacity) : (UInt16.ofNat n).toNat = n := by
  rw [dataCapacity, maxPacketSize, headerSize] at fits
  rw [UInt16.toNat_ofNat', Nat.mod_eq_of_lt (by omega)]

theorem encode_sealed {packetID packetSize : UInt16} {packetOption : UInt32}
    {payload : List UInt8} {q : SFPacket} (fits : payload.length ≤ dataCapacity)
    (encoded : (compose packetID payload).bind (SFPacket.encode codec · packetSize packetOption) =
      some (q, true)) :
    ∃ body, Sealed codec packetID (stored codec packetSize packetOption payload) body q ∧
      (q.header.checkCompressed = true ↔ Compresses packetOption payload.length) ∧
      (Compresses packetOption payload.length →
        stored codec packetSize packetOption payload ≠ []) := by
  rw [compose_eq packetID payload fits, Option.bind_some] at encoded
  have size : (composed packetID payload).getDataSize = payload.length := dataSize_ofNat fits
  have data : (composed packetID payload).getData payload.length = some payload := by
    rw [getData_eq fits le_rfl]
    exact congrArg some (List.take_length)
  rw [stored]
  by_cases compressed : Compresses packetOption payload.length
  · rw [if_pos compressed]
    rw [encode_compressed codec rfl (size ▸ fits) (size ▸ compressed), compressData, size, data,
      Option.bind_some] at encoded
    dsimp only at encoded
    generalize codec.lzfCompress payload (unsignedSub packetSize.toNat headerSize) = dest at *
    by_cases overrun : dest.length > maxPacketSize
    · rw [if_pos overrun] at encoded
      contradiction
    rw [if_neg overrun] at encoded
    by_cases failed : dest.length = 0
    · rw [if_pos failed] at encoded
      simp at encoded
    rw [if_neg failed] at encoded
    by_cases room : dest.length ≤ dataCapacity
    · rw [putData_eq _ dest room, Option.map_some, Option.bind_some, if_pos rfl] at encoded
      obtain ⟨q', body, run, option, done⟩ := finish_sealed codec
        (p := (overwrite (composed packetID payload) dest).setDataSize dest.length)
        (dataSize_ofNat room) room (getData_overwrite _ room)
      rw [run] at encoded
      obtain ⟨rfl, -⟩ := Prod.mk.inj (Option.some.inj encoded)
      refine ⟨body, done, iff_of_true ?_ compressed, fun _ nil => failed (by rw [nil]; rfl)⟩
      rw [SFPacketHeader.checkCompressed, option]
      exact compressed.1
    · rw [putData_none _ dest (by omega)] at encoded
      contradiction
  · rw [if_neg compressed]
    by_cases zero : payload.length = 0
    · rw [encode_zero codec rfl (size.trans zero)] at encoded
      obtain ⟨rfl, -⟩ := Prod.mk.inj (Option.some.inj encoded)
      have off (flag : UInt32) : (0 &&& flag != 0) = false := by simp
      refine ⟨payload, ⟨rfl, size, fits, data, ?_, ?_⟩, iff_of_false ?_ compressed,
        fun other => absurd other compressed⟩
      · exact fun checked => absurd checked (by rw [Bool.not_eq_true]; exact off _)
      · exact (if_neg (by rw [Bool.not_eq_true]; exact off _)).symm
      · rw [Bool.not_eq_true]
        exact off _
    · rw [encode_plain codec rfl (size ▸ fits) (by omega) (size ▸ compressed)] at encoded
      obtain ⟨q', body, run, option, done⟩ := finish_sealed codec size fits data
      rw [run] at encoded
      obtain ⟨rfl, -⟩ := Prod.mk.inj (Option.some.inj encoded)
      refine ⟨body, done, iff_of_false ?_ compressed, fun other => absurd other compressed⟩
      rw [checkCompressed_masked option]
      exact Bool.false_ne_true

theorem read_load (object : SFPacket) {h : SFPacketHeader} {body : List UInt8}
    (size : h.dataSize.toNat = body.length) (fits : body.length ≤ dataCapacity) :
    (load object ⟨h, body⟩).getData (load object ⟨h, body⟩).getDataSize = some body := by
  change (load object ⟨h, body⟩).getData h.dataSize.toNat = some body
  rw [size, getData_eq fits le_rfl]
  exact congrArg some List.take_length

theorem decryptData_load (object : SFPacket) {h : SFPacketHeader} {src body : List UInt8}
    (size : h.dataSize.toNat = body.length) (fits : body.length ≤ dataCapacity)
    (cipher : body = if h.checkEncryption then SFEncryptionXOR.encrypt src else src) :
    ∃ p, (load object ⟨h, body⟩).decryptData = some p ∧ p.header = h ∧
      p.getData p.getDataSize = some src := by
  have read := read_load object size fits
  by_cases encrypted : h.checkEncryption = true
  · rw [if_pos encrypted] at cipher
    have length : src.length = body.length := by rw [cipher, SFEncryptionXOR.length_encrypt]
    have back : SFEncryptionXOR.decrypt body = src := by
      rw [cipher, SFEncryptionXOR.decrypt_encrypt]
    refine ⟨overwrite (load object ⟨h, body⟩) src, ?_, rfl, ?_⟩
    · rw [decryptData, read, Option.bind_some, back, putData_eq _ _ (length ▸ fits)]
      exact if_pos encrypted
    · change (overwrite _ src).getData h.dataSize.toNat = some src
      rw [size, ← length]
      exact getData_overwrite _ (length ▸ fits)
  · rw [if_neg encrypted] at cipher
    refine ⟨load object ⟨h, body⟩, ?_, rfl, by rw [read, cipher]⟩
    rw [decryptData]
    exact if_neg encrypted

/-- `Decode` on a received packet whose checksum is right. -/
theorem decode_load (object : SFPacket) {h : SFPacketHeader} {src body : List UInt8}
    (size : h.dataSize.toNat = body.length) (fits : body.length ≤ dataCapacity)
    (crc : h.checkDataCRC = true → h.dataCRC = codec.crc32 body)
    (cipher : body = if h.checkEncryption then SFEncryptionXOR.encrypt src else src)
    (packetSize : UInt16) (errorCode : Int) :
    ∃ p : SFPacket, p.header = h ∧ p.getData p.getDataSize = some src ∧
      (load object ⟨h, body⟩).decode codec packetSize errorCode =
        (p.uncompressData codec packetSize).map fun (p, ok) =>
          if ok then ({ p with packetID := p.header.packetID }, errorCode, true)
          else (p, packetIOErrorDataCompress, false) := by
  obtain ⟨p, decrypted, header, read⟩ := decryptData_load object size fits cipher
  refine ⟨p, header, read, ?_⟩
  have intact : (if (load object ⟨h, body⟩).header.checkDataCRC then
      (load object ⟨h, body⟩).checkDataCRC codec else some true) = some true := by
    split
    · rename_i checked
      rw [checkDataCRC, read_load object size fits, Option.map_some]
      exact congrArg some (beq_iff_eq.mpr (crc checked).symm)
    · rfl
  rw [SFPacket.decode, intact, Option.bind_some, decrypted]
  rfl

/-- The receiver takes the packet off its ring, decodes it and has the payload and the id. -/
def RoundTrips (object : SFPacket) (ring : SFIOBuffer) (packetSize packetID : UInt16)
    (payload : List UInt8) : Prop :=
  ∃ answer, SFPacketIOBuffer.getPacket ring {} SFPacket.dataCapacity packetSize = some answer ∧ answer.found = true ∧
    ∃ p errorCode, (load object ⟨answer.header, answer.data⟩).decode codec packetSize 0 =
        some (p, errorCode, true) ∧
      p.getData p.getDataSize = some payload ∧ p.getDataSize = payload.length ∧
      p.packetID = packetID ∧ p.header.packetID = packetID

theorem uncompressData_stored (packetSize : UInt16) {p : SFPacket} {packetSize' : UInt16}
    {packetOption : UInt32} {payload : List UInt8} (correct : codec.Correct)
    (fits : payload.length ≤ dataCapacity) (compressed : Compresses packetOption payload.length)
    (flag : p.header.checkCompressed = true)
    (nonempty : stored codec packetSize' packetOption payload ≠ [])
    (read : p.getData p.getDataSize = some (stored codec packetSize' packetOption payload)) :
    ∃ q, p.uncompressData codec packetSize =
      some (q, decide (payload.length + headerSize ≤ packetSize.toNat)) ∧
      (payload.length + headerSize ≤ packetSize.toNat →
        q = (overwrite { p with data := [] } payload).setDataSize payload.length) := by
  have large := compressed.2
  rw [packetCompressLimit] at large
  rw [stored, if_pos compressed] at nonempty read
  rw [uncompressData, if_pos flag, read, Option.bind_some]
  by_cases room : payload.length ≤ packetSize.toNat
  · rw [correct.restores _ _ _ nonempty room]
    dsimp only
    rw [putData_eq _ payload fits, Option.map_some, if_neg (by omega)]
    by_cases within : payload.length + headerSize ≤ packetSize.toNat
    · rw [if_neg (by omega), decide_eq_true within]
      exact ⟨_, rfl, fun _ => rfl⟩
    · rw [if_pos (by omega), decide_eq_false within]
      exact ⟨_, rfl, fun other => absurd other within⟩
  · rw [correct.refuses _ _ _ nonempty (by omega), decide_eq_false (by omega)]
    exact ⟨_, rfl, by omega⟩

theorem fits_iff {packetSize : UInt16} {size : Nat} (room : size ≤ dataCapacity) :
    Frame.Fits packetSize size ↔
      size + headerSize ≤ packetSize.toNat ∨ packetSize.toNat < headerSize := by
  rw [dataCapacity, maxPacketSize, headerSize] at room
  rw [Frame.Fits, unsignedSub, dataCapacity, maxPacketSize, headerSize]
  split <;> omega

/-- The receiving half, on a frame that fits or does not fit. -/
theorem roundTrips_iff_decode (object : SFPacket) {ring : SFIOBuffer}
    (valid : SFIOBuffer.Valid ring) (packetSize packetID : UInt16) (payload rest : List UInt8)
    (f : Frame) (wellFormed : f.WellFormed) (received : SFIOBuffer.contents ring = f.bytes ++ rest) :
    RoundTrips codec object ring packetSize packetID payload ↔
      Frame.Fits packetSize f.payload.length ∧
        ∃ p errorCode, (load object f).decode codec packetSize 0 = some (p, errorCode, true) ∧
          p.getData p.getDataSize = some payload ∧ p.getDataSize = payload.length ∧
          p.packetID = packetID ∧ p.header.packetID = packetID := by
  have agrees := SFPacketIOBuffer.getPacket_agrees valid {} packetSize
  have verdict := Frame.next_iff packetSize (SFIOBuffer.contents ring) f
  change Frame.next packetSize (SFIOBuffer.contents ring) = _ ↔ _ at verdict
  change SFPacketIOBuffer.Agrees ring (Frame.next packetSize (SFIOBuffer.contents ring)) _ at agrees
  have front : f.bytes <+: SFIOBuffer.contents ring := ⟨rest, received.symm⟩
  by_cases fits : Frame.Fits packetSize f.payload.length
  · rw [verdict.mpr ⟨⟨wellFormed, fits⟩, front⟩] at agrees
    rw [RoundTrips]
    generalize SFPacketIOBuffer.getPacket ring {} SFPacket.dataCapacity packetSize = answer at agrees
    cases agrees with
    | frame after valid' size rest' => simp [fits]
  · rw [iff_false_right (fun both => fits both.1)]
    rintro ⟨answer, run, found, -⟩
    generalize action : Frame.next packetSize (SFIOBuffer.contents ring) = result at agrees
    rw [run] at agrees
    cases agrees with
    | incomplete | refused => contradiction
    | frame g after valid' size rest' =>
        obtain ⟨⟨wellFormed', fits'⟩, -⟩ := (Frame.next_iff packetSize _ g).mp action
        have same : f.header = g.header := by
          rw [← Frame.frontHeader_front f rest, ← received, rest', Frame.frontHeader_front]
        rw [Frame.WellFormed] at wellFormed wellFormed'
        rw [← wellFormed', ← same, wellFormed] at fits'
        exact fits fits'

/-- A packet that `Encode` let through comes back intact if and only if its payload fits the
packet size that both sides use, or that size is below a header and the payload is not
compressed: then the receiver's limit wraps around and lets everything through. -/
theorem round_trip_iff (correct : codec.Correct) (object : SFPacket) {ring : SFIOBuffer}
    (valid : SFIOBuffer.Valid ring) (packetID packetSize : UInt16) (packetOption : UInt32)
    (payload : List UInt8) (q : SFPacket) (frame rest : List UInt8)
    (fits : payload.length ≤ dataCapacity)
    (encoded : (compose packetID payload).bind (SFPacket.encode codec · packetSize packetOption) =
      some (q, true))
    (sent : q.wire = some frame) (received : SFIOBuffer.contents ring = frame ++ rest) :
    RoundTrips codec object ring packetSize packetID payload ↔
      payload.length + headerSize ≤ packetSize.toNat ∨
        packetSize.toNat < headerSize ∧ ¬ Compresses packetOption payload.length := by
  obtain ⟨body, done, flag, nonempty⟩ := encode_sealed codec fits encoded
  have wire : frame = (⟨q.header, body⟩ : Frame).bytes := by
    rw [wire, getDataSize, done.dataSize, done.data] at sent
    exact (Option.some.inj sent).symm
  have length : body.length = (stored codec packetSize packetOption payload).length := by
    rw [done.cipher]
    split
    · exact SFEncryptionXOR.length_encrypt _
    · rfl
  obtain ⟨p, header, read, decoded⟩ :=
    decode_load codec object done.dataSize done.fits done.crc done.cipher packetSize 0
  rw [roundTrips_iff_decode codec object valid packetSize packetID payload rest ⟨q.header, body⟩
    done.dataSize (by rw [received, wire]), decoded]
  by_cases compressed : Compresses packetOption payload.length
  · obtain ⟨p', run, restored⟩ := uncompressData_stored codec packetSize correct fits compressed
      (by rw [header]; exact flag.mpr compressed) (nonempty compressed) read
    have within : Frame.Fits packetSize body.length := by
      refine ⟨?_, done.fits⟩
      rw [length, stored, if_pos compressed]
      exact correct.bounded _ _
    rw [run, and_iff_right within, Option.map_some]
    by_cases enough : payload.length + headerSize ≤ packetSize.toNat
    · rw [decide_eq_true enough, restored enough]
      refine iff_of_true ⟨_, _, rfl, ?_, dataSize_ofNat fits, ?_, ?_⟩ (.inl enough)
      · change (overwrite _ payload).getData (UInt16.ofNat payload.length).toNat = _
        rw [dataSize_ofNat fits]
        exact getData_overwrite _ fits
      · exact (congrArg _ header).trans done.packetID
      · exact (congrArg _ header).trans done.packetID
    · rw [decide_eq_false enough]
      simp [enough, compressed]
  · have plain : p.uncompressData codec packetSize = some (p, true) := by
      rw [uncompressData]
      exact if_neg (by rw [header, flag]; exact compressed)
    rw [stored, if_neg compressed] at read length
    have size : p.getDataSize = payload.length := by
      rw [getDataSize, header, done.dataSize, length]
    rw [plain, Option.map_some, length, fits_iff fits]
    have restored : ∃ p' errorCode, some (({ p with packetID := p.header.packetID } : SFPacket),
        (0 : Int), true) = some (p', errorCode, true) ∧ p'.getData p'.getDataSize = some payload ∧
        p'.getDataSize = payload.length ∧ p'.packetID = packetID ∧
        p'.header.packetID = packetID :=
      ⟨_, _, rfl, read, size, (congrArg _ header).trans done.packetID,
        (congrArg _ header).trans done.packetID⟩
    simp only [if_true, restored, and_true, compressed, not_false_iff]

theorem checksumOnly_correct : Codec.checksumOnly.Correct :=
  ⟨fun _ _ => Nat.zero_le _, fun _ _ _ nonempty => absurd rfl nonempty,
    fun _ _ _ nonempty => absurd rfl nonempty⟩

/-- A ring of 64 bytes that holds `bs`. -/
def ringOf (bs : List UInt8) : SFIOBuffer where
  iHead := 0
  iTail := bs.length
  iBufSize := 64
  pBuffer := bs ++ List.replicate (64 - bs.length) 0
  iUsedBufferSize := bs.length

def sealedSample : SFPacket where
  packetID := 7
  header := { packetID := 7, packetOption := 5, dataCRC := 4004127417, dataSize := 5 }
  data := [216, 225, 180, 171, 5]
  encoded := true

def sampleWire : List UInt8 := sealedSample.header.bytes ++ sealedSample.data

set_option maxRecDepth 20000 in
theorem round_trip_sample :
    RoundTrips Codec.checksumOnly {} (ringOf sampleWire) 64 7 [1, 2, 3, 4, 5] :=
  have valid : SFIOBuffer.Valid (ringOf sampleWire) :=
    ⟨by decide, by decide, by decide, by decide⟩
  (round_trip_iff Codec.checksumOnly checksumOnly_correct {} valid 7 64 5 [1, 2, 3, 4, 5]
    sealedSample sampleWire [] (by decide) (by decide) (by decide)
    (by decide)).mpr (.inl (by decide))

/-- With a packet size of 12, `Encode` accepts one byte of payload and the receiver refuses it. -/
theorem one_byte_refused :
    ¬ ∀ (object : SFPacket) (ring : SFIOBuffer) (packetID packetSize : UInt16)
        (packetOption : UInt32) (payload : List UInt8) (q : SFPacket) (frame : List UInt8),
      SFIOBuffer.Valid ring → packetSize.toNat ≤ maxPacketSize → payload.length ≤ dataCapacity →
      (compose packetID payload).bind
        (SFPacket.encode Codec.checksumOnly · packetSize packetOption) = some (q, true) →
      q.wire = some frame → SFIOBuffer.contents ring = frame →
      RoundTrips Codec.checksumOnly object ring packetSize packetID payload := by
  intro all
  let sent : SFPacket := { composed 7 [1] with encoded := true }
  obtain ⟨answer, run, found, -⟩ := all {} (ringOf (sent.header.bytes ++ [1])) 7 12 0 [1] sent
    (sent.header.bytes ++ [1]) ⟨by decide, by decide, by decide, by decide⟩ (by decide)
    (by decide) (by decide) (by decide) (by decide)
  have refused : (SFPacketIOBuffer.getPacket (ringOf (sent.header.bytes ++ [1])) {} SFPacket.dataCapacity 12).map
      (fun answer => answer.found) = some false := by decide
  rw [run, Option.map_some, found] at refused
  contradiction

end SFPacket

end Cgsf.Proof.Engine
