import Cgsf.Engine.Lzf
import Cgsf.Engine.Protocol
import Cgsf.Library.Lzf
import Cgsf.Proof.Engine.Packet

/-!
# How far `Decode` writes

The decompressor may write as many bytes as the packet size it is given, starting behind the
header. The extents of the payload, read as an LZF stream, tell how many it writes.
-/

namespace Cgsf.Proof.Engine
open Cgsf.Engine Library

namespace SFCompressLzf
open Cgsf.Engine.SFCompressLzf Lzf

theorem length_copyBack (distance len : Nat) (out : List UInt8) :
    (copyBack distance len out).length = out.length + len := by
  induction len generalizing out with
  | zero => rfl
  | succ len ih =>
      rw [copyBack, ih, List.length_append, List.length_singleton]
      omega

/-- What an instruction appends to the bytes before `op`. -/
def unpack (out : List UInt8) : Instruction → List UInt8
  | .literal run => out ++ run
  | .back distance len => copyBack distance len out

theorem length_unpack (out : List UInt8) (i : Instruction) :
    (unpack out i).length = out.length + i.size := by
  cases i with
  | literal run => exact List.length_append
  | back distance len => exact length_copyBack distance len out

theorem readLength_eq (len : Nat) (ip : List UInt8) : readLength len ip = parseLength len ip := by
  rcases ip with - | ⟨b, - | ⟨b', ip⟩⟩ <;> rfl

/-- One turn of the loop carries out the next instruction of the stream, or gives up. -/
theorem decompressLoop_turn (outLen fuel : Nat) (src out : List UInt8) :
    decompressLoop outLen (fuel + 1) src out =
      match parse src with
      | none => ⟨out, 0⟩
      | some (i, ip) =>
          if out.length + i.size ≤ outLen ∧ i.Reaches out.length then
            if ip = [] then ⟨unpack out i, (unpack out i).length⟩
            else decompressLoop outLen fuel ip (unpack out i)
          else ⟨out, 0⟩ := by
  cases src with
  | nil => rfl
  | cons ctrl ip =>
      have shift : ctrl.toNat >>> 5 = ctrl.toNat / 32 := Nat.shiftRight_eq_div_pow ..
      have mask : ctrl.toNat &&& 0x1f = ctrl.toNat % 32 := Nat.and_two_pow_sub_one_eq_mod _ 5
      have up : ∀ n, n <<< 8 = 256 * n := fun n => by rw [Nat.shiftLeft_eq, Nat.mul_comm]
      have limit : 1 <<< 5 = 32 := rfl
      rw [decompressLoop, parse]
      simp only [shift, mask, up, limit, readLength_eq]
      by_cases literal : ctrl.toNat < 32
      · simp only [if_pos literal]
        by_cases whole : ip.length < ctrl.toNat + 1
        · simp only [gt_iff_lt, whole, if_true, ite_self]
        · have run : (ip.take (ctrl.toNat + 1)).length = ctrl.toNat + 1 :=
            List.length_take_of_le (Nat.not_lt.mp whole)
          simp only [gt_iff_lt, whole, if_false, Instruction.size, Instruction.Reaches, and_true,
            unpack, run]
          by_cases room : out.length + (ctrl.toNat + 1) ≤ outLen
          · rw [if_neg (Nat.not_lt.mpr room), if_pos room]
          · rw [if_pos (Nat.not_le.mp room), if_neg room]
      · simp only [if_neg literal]
        cases parseLength (ctrl.toNat / 32) ip with
        | none => rfl
        | some found =>
            obtain ⟨len, low, rest⟩ := found
            simp only [Option.map_some, Instruction.size, Instruction.Reaches, unpack]
            generalize 256 * (ctrl.toNat % 32) + 1 + low.toNat = distance
            by_cases room : out.length + (len + 2) ≤ outLen
            · have small : ¬ out.length + len + 2 > outLen := by omega
              by_cases back : distance ≤ out.length
              · simp only [small, Nat.not_lt.mpr back, room, back, and_self, if_true, if_false]
              · simp only [small, Nat.not_le.mp back, back, and_false, if_true, if_false]
            · have large : out.length + len + 2 > outLen := by omega
              simp only [large, room, false_and, if_true, if_false]

theorem decompressLoop_grows (outLen fuel : Nat) (src out : List UInt8) :
    out.length ≤ (decompressLoop outLen fuel src out).written.length := by
  induction fuel generalizing src out with
  | zero => exact le_rfl
  | succ fuel ih =>
      rw [decompressLoop_turn]
      split
      · exact le_rfl
      · rename_i i ip _
        have longer : out.length ≤ (unpack out i).length := by
          rw [length_unpack]
          exact Nat.le_add_right _ _
        split
        · split
          · exact longer
          · exact longer.trans (ih ip _)
        · exact le_rfl

/-- The loop writes past a limit exactly if an extent lies between the limit and its room. -/
theorem decompressLoop_passes (outLen limit fuel : Nat) (src out : List UInt8)
    (before : out.length ≤ limit) :
    limit < (decompressLoop outLen fuel src out).written.length ↔
      ∃ s ∈ extents fuel out.length src, limit < s ∧ s ≤ outLen := by
  induction fuel generalizing src out with
  | zero => simp [decompressLoop, extents, before]
  | succ fuel ih =>
      rw [decompressLoop_turn, extents]
      cases parse src with
      | none => simp [before]
      | some turn =>
          obtain ⟨i, ip⟩ := turn
          simp only
          by_cases reaches : i.Reaches out.length
          · rw [if_pos reaches]
            simp only [reaches, and_true, List.exists_mem_cons_iff]
            have length := length_unpack out i
            by_cases room : out.length + i.size ≤ outLen
            · rw [if_pos room, ← length]
              by_cases past : limit < (unpack out i).length
              · refine iff_of_true ?_ (.inl ⟨past, length.trans_le room⟩)
                split
                · exact past
                · exact past.trans_le (decompressLoop_grows outLen fuel ip _)
              · rw [or_iff_right fun now => past now.1]
                split
                · rename_i last
                  rw [last, extents_nil]
                  simp [past]
                · exact ih ip _ (Nat.not_lt.mp past)
            · rw [if_neg room]
              refine iff_of_false (Nat.not_lt.mpr before) ?_
              rintro (⟨-, fits⟩ | ⟨s, member, -, fits⟩)
              · exact room fits
              · exact room ((extents_ge _ _ _ s member).trans fits)
          · rw [if_neg reaches, if_neg fun both => reaches both.2]
            simp [before]

theorem decompress_passes (src : List UInt8) (outLen limit : Nat) :
    limit < (decompress src outLen).written.length ↔
      ∃ s ∈ extents (src.length + 1) 0 src, limit < s ∧ s ≤ outLen :=
  decompressLoop_passes outLen limit _ src [] (Nat.zero_le _)

/-- The decompressor returns 0 or the number of bytes that it wrote. -/
theorem decompressLoop_size (outLen fuel : Nat) (src out : List UInt8) :
    (decompressLoop outLen fuel src out).size = 0 ∨
      (decompressLoop outLen fuel src out).size =
        (decompressLoop outLen fuel src out).written.length := by
  induction fuel generalizing src out with
  | zero => exact .inl rfl
  | succ fuel ih =>
      rw [decompressLoop_turn]
      split
      · exact .inl rfl
      · split
        · split
          · exact .inr rfl
          · exact ih _ _
        · exact .inl rfl

end SFCompressLzf

namespace SFEncryptionXOR
open Cgsf.Engine.SFEncryptionXOR

theorem length_decrypt (bs : List UInt8) : (decrypt bs).length = bs.length := by
  fun_induction decrypt bs with
  | case1 a b c d rest ih => simp [ih]; omega
  | case2 rest short => rfl

end SFEncryptionXOR

namespace SFPacket
open Cgsf.Engine.SFPacket SFCGSFPacketProtocol

variable (codec : Codec)

/-- The bytes that the header of a packet describes. -/
def described (p : SFPacket) : List UInt8 :=
  p.data.take p.getDataSize ++ List.replicate (p.getDataSize - p.data.length) 0

/-- The described bytes as the decompressor gets them. -/
def payload (p : SFPacket) : List UInt8 :=
  if p.header.checkEncryption then SFEncryptionXOR.decrypt (described p) else described p

def Intact (p : SFPacket) : Prop :=
  p.header.checkDataCRC = true → codec.crc32 (described p) = p.header.dataCRC

instance (p : SFPacket) : Decidable (Intact codec p) := inferInstanceAs (Decidable (_ → _))

/-- Some leading instructions of the compressed payload unpack to more bytes than lie behind the
header, though not to more than the packet size. -/
def Overruns (p : SFPacket) (packetSize : UInt16) : Prop :=
  p.header.checkCompressed = true ∧
    ∃ s ∈ Lzf.extents ((payload p).length + 1) 0 (payload p),
      dataCapacity < s ∧ s ≤ packetSize.toNat

instance (p : SFPacket) (packetSize : UInt16) : Decidable (Overruns p packetSize) :=
  inferInstanceAs (Decidable (_ ∧ _))

variable {p : SFPacket} (accepted : p.getDataSize ≤ dataCapacity)
include accepted

theorem getData_described : p.getData p.getDataSize = some (described p) := if_pos accepted

omit accepted in
theorem length_described (p : SFPacket) : (described p).length = p.getDataSize := by
  rw [described, List.length_append, List.length_take, List.length_replicate]
  omega

theorem decryptData_described :
    ∃ q, p.decryptData = some q ∧ q.header = p.header ∧ described q = payload p := by
  rw [decryptData, payload]
  split
  · have length : (SFEncryptionXOR.decrypt (described p)).length = p.getDataSize := by
      rw [SFEncryptionXOR.length_decrypt, length_described]
    rw [getData_described accepted, Option.bind_some, putData_eq p _ (length ▸ accepted)]
    refine ⟨_, rfl, rfl, ?_⟩
    have fits : (SFEncryptionXOR.decrypt (described p)).length ≤ dataCapacity := length ▸ accepted
    have read := getData_overwrite p fits
    rw [length] at read
    exact Option.some.inj ((getData_described (p := overwrite p _) accepted).symm.trans read)
  · exact ⟨p, rfl, rfl, rfl⟩

theorem uncompressInPlace_inside (packetSize : UInt16)
    (inside : p.header.checkCompressed = true →
      (SFCompressLzf.decompress (described p) packetSize.toNat).written.length ≤
        dataCapacity) :
    ∃ r, p.uncompressInPlace packetSize = some r ∧ (r.2 = false → r.1.header = p.header) := by
  rw [uncompressInPlace]
  split
  · rename_i compressed
    rw [getData_described accepted, Option.bind_some]
    have fits : (SFCompressLzf.uncompress (described p) packetSize.toNat).1.length ≤
        dataCapacity := inside compressed
    generalize SFCompressLzf.uncompress (described p) packetSize.toNat = unpacked at fits ⊢
    obtain ⟨dest, destSize, ok⟩ := unpacked
    simp only [putData_eq _ dest fits, Option.map_some]
    refine ⟨_, rfl, ?_⟩
    cases ok with
    | false => exact fun _ => rfl
    | true =>
        simp only [Bool.not_true, Bool.false_eq_true, if_false]
        split
        · exact fun _ => rfl
        · exact fun failed => absurd failed.symm Bool.false_ne_true
  · exact ⟨(p, true), rfl, fun _ => rfl⟩

theorem uncompressInPlace_outside (packetSize : UInt16)
    (compressed : p.header.checkCompressed = true)
    (outside : dataCapacity <
      (SFCompressLzf.decompress (described p) packetSize.toNat).written.length) :
    p.uncompressInPlace packetSize = none := by
  rw [uncompressInPlace, if_pos compressed, getData_described accepted, Option.bind_some]
  simp only [SFCompressLzf.uncompress]
  rw [putData_none _ _ outside, Option.map_none]

/-- `Decode` writes inside the packet buffer, and when it fails the header describes bytes inside
it. -/
def Bounded (p : SFPacket) (packetSize : UInt16) (errorCode : Int) : Prop :=
  ∃ q errorCode' ok, p.decodeInPlace codec packetSize errorCode = some (q, errorCode', ok) ∧
    (ok = false → q.getPacketSize ≤ maxPacketSize)

theorem decodeInPlace_damaged (damaged : ¬ Intact codec p) (packetSize : UInt16)
    (errorCode : Int) :
    p.decodeInPlace codec packetSize errorCode = some (p, packetIOErrorDataCRC, false) := by
  obtain ⟨checked, wrong⟩ := Classical.not_imp.mp damaged
  have verdict : p.checkDataCRC codec = some false := by
    rw [checkDataCRC, getData_described accepted, Option.map_some]
    exact congrArg some (beq_eq_false_iff_ne.mpr wrong)
  rw [decodeInPlace, if_pos checked, verdict]
  rfl

theorem decodeInPlace_intact (intact : Intact codec p) (packetSize : UInt16) (errorCode : Int) :
    ∃ q : SFPacket, q.header = p.header ∧ described q = payload p ∧
      p.decodeInPlace codec packetSize errorCode =
        (q.uncompressInPlace packetSize).map fun (q, ok) =>
          if ok then ({ q with packetID := q.header.packetID }, errorCode, true)
          else (q, packetIOErrorDataCompress, false) := by
  obtain ⟨q, decrypted, header, same⟩ := decryptData_described accepted
  have verdict : (if p.header.checkDataCRC then p.checkDataCRC codec else some true) =
      some true := by
    split
    · rename_i checked
      rw [checkDataCRC, getData_described accepted, Option.map_some]
      exact congrArg some (beq_iff_eq.mpr (intact checked))
    · rfl
  refine ⟨q, header, same, ?_⟩
  rw [decodeInPlace, verdict, Option.bind_some, decrypted]
  rfl

theorem bounded_iff (packetSize : UInt16) (errorCode : Int) :
    Bounded codec p packetSize errorCode ↔ ¬ (Intact codec p ∧ Overruns p packetSize) := by
  have size : p.getPacketSize ≤ maxPacketSize := by
    rw [getPacketSize]
    rw [dataCapacity] at accepted
    have : headerSize ≤ maxPacketSize := by decide
    omega
  by_cases intact : Intact codec p
  · obtain ⟨q, header, same, run⟩ :=
      decodeInPlace_intact codec accepted intact packetSize errorCode
    have accepted' : q.getDataSize ≤ dataCapacity := by
      rw [getDataSize, header]
      exact accepted
    have passes := Proof.Engine.SFCompressLzf.decompress_passes (described q) packetSize.toNat
      dataCapacity
    rw [same] at passes
    constructor
    · rintro ⟨r, errorCode', ok, decoded, -⟩ ⟨-, compressed, past⟩
      rw [run, uncompressInPlace_outside accepted' packetSize (header ▸ compressed)
        (same ▸ passes.mpr past)] at decoded
      cases decoded
    · intro within
      obtain ⟨⟨r, ok⟩, unpacked, kept⟩ := uncompressInPlace_inside accepted' packetSize
        fun compressed => same ▸ Nat.not_lt.mp fun past =>
          within ⟨intact, header ▸ compressed, passes.mp past⟩
      rw [Bounded, run, unpacked, Option.map_some]
      cases ok with
      | true => exact ⟨_, _, _, rfl, fun failed => absurd failed.symm Bool.false_ne_true⟩
      | false =>
          refine ⟨_, _, _, rfl, fun _ => ?_⟩
          change headerSize + r.header.dataSize.toNat ≤ maxPacketSize
          rw [kept rfl, header]
          exact size
  · refine iff_of_true ?_ fun both => intact both.1
    exact ⟨_, _, _, decodeInPlace_damaged codec accepted intact packetSize errorCode,
      fun _ => size⟩

/-! ## The decompressor as the codec has it -/

omit accepted

/-- A codec whose decompressor is the one of the library. -/
def withLzf : Codec :=
  { codec with
    lzfDecompress := fun src size =>
      let (dest, _, ok) := SFCompressLzf.uncompress src size
      if ok then dest else [] }

theorem uncompress_size {src : List UInt8} {size : Nat}
    (ok : (SFCompressLzf.uncompress src size).2.2 = true) :
    (SFCompressLzf.uncompress src size).2.1 = (SFCompressLzf.uncompress src size).1.length ∧
      (SFCompressLzf.uncompress src size).1.length ≠ 0 := by
  have positive : (SFCompressLzf.decompress src size).size > 0 := of_decide_eq_true ok
  have either := Proof.Engine.SFCompressLzf.decompressLoop_size size (src.length + 1) src []
  change (SFCompressLzf.decompress src size).size = 0 ∨ (SFCompressLzf.decompress src size).size =
    (SFCompressLzf.decompress src size).written.length at either
  have same := either.resolve_left (by omega)
  exact ⟨same, by change (SFCompressLzf.decompress src size).written.length ≠ 0; omega⟩

theorem uncompressInPlace_iff (packetSize : UInt16) (q : SFPacket) :
    p.uncompressInPlace packetSize = some (q, true) ↔
      p.uncompressData (withLzf codec) packetSize = some (q, true) := by
  rw [uncompressInPlace, uncompressData]
  split
  · cases p.getData p.getDataSize with
    | none => rfl
    | some src =>
        simp only [Option.bind_some, withLzf]
        by_cases ok : (SFCompressLzf.uncompress src packetSize.toNat).2.2 = true
        · obtain ⟨same, nonzero⟩ := uncompress_size ok
          simp only [ok, same, nonzero, Bool.not_true, Bool.false_eq_true, if_true, if_false]
        · rw [Bool.not_eq_true] at ok
          simp only [ok, Bool.not_false, Bool.false_eq_true, if_true, if_false, List.length_nil]
          simp
  · rfl

/-- Where `Decode` succeeds it does what it does with the codec's decompressor. -/
theorem decodeInPlace_iff (packetSize : UInt16) (errorCode errorCode' : Int) (q : SFPacket) :
    p.decodeInPlace codec packetSize errorCode = some (q, errorCode', true) ↔
      p.decode (withLzf codec) packetSize errorCode = some (q, errorCode', true) := by
  have inner (packetSize : UInt16) (r : SFPacket) :
      ((r.uncompressInPlace packetSize).map fun (p, ok) =>
          if ok then (({ p with packetID := p.header.packetID } : SFPacket), errorCode, true)
          else (p, packetIOErrorDataCompress, false)) = some (q, errorCode', true) ↔
        ((r.uncompressData (withLzf codec) packetSize).map fun (p, ok) =>
          if ok then (({ p with packetID := p.header.packetID } : SFPacket), errorCode, true)
          else (p, packetIOErrorDataCompress, false)) = some (q, errorCode', true) := by
    simp only [Option.map_eq_some_iff]
    constructor
    · rintro ⟨⟨u, ok⟩, unpacked, same⟩
      cases ok with
      | false => simp at same
      | true => exact ⟨(u, true), (uncompressInPlace_iff codec packetSize u).mp unpacked, same⟩
    · rintro ⟨⟨u, ok⟩, unpacked, same⟩
      cases ok with
      | false => simp at same
      | true => exact ⟨(u, true), (uncompressInPlace_iff codec packetSize u).mpr unpacked, same⟩
  rw [decodeInPlace, SFPacket.decode]
  have check : (if p.header.checkDataCRC then p.checkDataCRC (withLzf codec) else some true) =
      if p.header.checkDataCRC then p.checkDataCRC codec else some true := rfl
  rw [check]
  cases (if p.header.checkDataCRC then p.checkDataCRC codec else some true) with
  | none => rfl
  | some intact =>
      cases intact with
      | false => rfl
      | true =>
          cases p.decryptData with
          | none => rfl
          | some r => exact inner packetSize r

theorem room_of_found {ring : SFIOBuffer} {header : SFPacketHeader} {capacity : Nat}
    {size : UInt16} {answer : SFPacketIOBuffer.Answer}
    (run : SFPacketIOBuffer.getPacket ring header capacity size = some answer)
    (found : answer.found = true) :
    answer.data.length = answer.header.dataSize.toNat ∧ answer.data.length ≤ capacity := by
  rw [SFPacketIOBuffer.getPacket] at run
  split at run
  · obtain rfl := Option.some.inj run
    contradiction
  · obtain ⟨⟨after, bs⟩, -, run⟩ := Option.bind_eq_some_iff.mp run
    dsimp only at run
    generalize (if bs.length ≠ headerSize then after.setHead ring.iHead else after) = back at run
    split at run
    · obtain rfl := Option.some.inj run
      contradiction
    · split at run
      · obtain rfl := Option.some.inj run
        contradiction
      · obtain ⟨⟨last, data⟩, -, run⟩ := Option.bind_eq_some_iff.mp run
        dsimp only at run
        split at run
        · cases run
        · rename_i fits
          split at run
          · obtain rfl := Option.some.inj run
            contradiction
          · rename_i whole
            obtain rfl := Option.some.inj run
            exact ⟨not_not.mp whole, Nat.not_lt.mp fits⟩

/-- `GetPacket` hands over a packet that is initialized and filled from the ring. -/
theorem filled_of_getPacket {pool pool' : PacketPool} {t t' : SFCGSFPacketProtocol} {error : Int}
    (got : getPacket pool t = some (pool', t', error, some p)) :
    p.usCurrentReadPosition = headerSize ∧ p.data.length = p.getDataSize ∧
      p.data.length ≤ dataCapacity := by
  rw [getPacket] at got
  generalize pool.alloc {} = fresh at got
  obtain ⟨object, rest⟩ := fresh
  obtain ⟨answer, run, got⟩ := Option.bind_eq_some_iff.mp got
  dsimp only at got
  split at got
  · rename_i found
    simp only [Option.pure_def, Option.some.injEq, Prod.mk.injEq] at got
    obtain ⟨-, -, -, rfl⟩ := got
    exact ⟨rfl, room_of_found run found⟩
  · simp at got

/-- What `GetPacket` hands over fits the packet buffer. -/
theorem accepted_of_getPacket {pool pool' : PacketPool} {t t' : SFCGSFPacketProtocol} {error : Int}
    (got : getPacket pool t = some (pool', t', error, some p)) :
    p.getDataSize ≤ dataCapacity := by
  obtain ⟨-, length, fits⟩ := filled_of_getPacket got
  rwa [length] at fits

theorem decode_bounded_iff {pool pool' : PacketPool} {t t' : SFCGSFPacketProtocol} {error : Int}
    (got : getPacket pool t = some (pool', t', error, some p)) (packetSize : UInt16)
    (errorCode : Int) :
    Bounded codec p packetSize errorCode ↔ ¬ (Intact codec p ∧ Overruns p packetSize) :=
  bounded_iff codec (accepted_of_getPacket got) packetSize errorCode

/-- A receiver whose ring of 128 bytes holds `bs`. -/
def holding (bs : List UInt8) : SFCGSFPacketProtocol where
  ioSize := 128
  packetSize := 128
  packetOption := 0
  packetIOBuffer :=
    ⟨0, bs.length, 128, bs ++ List.replicate (128 - bs.length) 0, bs.length⟩

/-- "ABC" and the same three bytes again. -/
def shortFrame : Frame :=
  ⟨{ packetID := 7, packetOption := 2, dataSize := 6 }, [2, 65, 66, 67, 32, 2]⟩

set_option maxRecDepth 20000 in
theorem shortFrame_bounded :
    Bounded Codec.checksumOnly
      { header := shortFrame.header, data := shortFrame.payload } 8192 0 := by
  have got : getPacket ⟨[]⟩ (holding shortFrame.bytes) = some (⟨[]⟩,
      { holding shortFrame.bytes with
        packetIOBuffer := { (holding shortFrame.bytes).packetIOBuffer with
          iHead := 18, iUsedBufferSize := 0 } }, 0,
      some { header := shortFrame.header, data := shortFrame.payload }) := by
    decide
  exact (decode_bounded_iff Codec.checksumOnly got 8192 0).mpr (by decide)

/-- One byte and 31 times the 264 bytes behind the byte before: 8185 bytes. -/
def longFrame : Frame :=
  ⟨{ packetID := 7, packetOption := 2, dataSize := 95 },
    [0, 65] ++ (List.replicate 31 [224, 255, 0]).flatten⟩

set_option maxRecDepth 20000 in
theorem longFrame_overruns :
    ∃ pool t error, getPacket ⟨[]⟩ (holding longFrame.bytes) = some (pool, t, error,
        some { header := longFrame.header, data := longFrame.payload }) ∧
      ¬ Bounded Codec.checksumOnly { header := longFrame.header, data := longFrame.payload }
        8192 0 := by
  have got : getPacket ⟨[]⟩ (holding longFrame.bytes) = some (⟨[]⟩,
      { holding longFrame.bytes with
        packetIOBuffer := { (holding longFrame.bytes).packetIOBuffer with
          iHead := 107, iUsedBufferSize := 0 } }, 0,
      some { header := longFrame.header, data := longFrame.payload }) := by
    decide
  refine ⟨_, _, _, got, fun bounded => ?_⟩
  exact absurd bounded ((bounded_iff Codec.checksumOnly (accepted_of_getPacket got) 8192 0).not.mpr
    (not_not_intro (by decide)))

end SFPacket

end Cgsf.Proof.Engine
