import Cgsf.Engine.BufferProtocols
import Cgsf.Engine.JsonProtocol
import Cgsf.Engine.ProtobufProtocol
import Cgsf.Library.Transition
import Cgsf.Proof.Engine.PacketIOBuffer

/-!
# Clones of protocol objects

`Clone` allocates with the default sizes and copies the sizes of its source. A clone is equivalent
to its source where the two agree, and then it is the same object.
-/

namespace Cgsf.Proof.Engine
open Cgsf.Engine Cgsf.Engine.SFPacketProtocol Library

variable {σ ω π : Type}

inductive Operation (π : Type) where
  | receive (chunk : List UInt8)
  | encode (p : π)

inductive Output (π : Type) where
  | received (sent : List π) (ok : Bool)
  | encoded (p : π) (ok : Bool) (bytes : List UInt8)
  | fault

def outputs (T : Analyzer σ ω π) (serial : Int) (desc : SessionDesc) :
    ω → σ → List (Operation π) → List (Output π)
  | _, _, [] => []
  | w, t, .receive chunk :: operations =>
      match onReceive T serial desc w t chunk with
      | none => [.fault]
      | some r => .received r.sent r.ok :: outputs T serial desc r.shared r.analyzer operations
  | w, t, .encode p :: operations =>
      match T.encode t p with
      | none => [.fault]
      | some (t, p, ok, bytes) => .encoded p ok bytes :: outputs T serial desc w t operations

def SameBehaviour (T : Analyzer σ ω π) (t t' : σ) : Prop :=
  ∀ serial desc w operations,
    outputs T serial desc w t operations = outputs T serial desc w t' operations

/-- The buffers of an analyzer: how much was allocated, and whether `GetPacket` writes back to the
receive buffer. -/
structure Buffers (σ : Type) where
  receiveCapacity : σ → Nat
  encodeCapacity : σ → Option Nat
  putsBack : Bool

inductive Call (ω π : Type) where
  | addTransferredData (chunk : List UInt8)
  | getPacket (w : ω) (errorCode : Int)
  | encode (p : π)

inductive Steps (T : Analyzer σ ω π) (s s' : σ) : Call ω π → Prop where
  | addTransferredData (chunk : List UInt8) (ok : Bool)
      (run : T.addTransferredData s chunk = some (s', ok)) :
      Steps T s s' (.addTransferredData chunk)
  | getPacket (w w' : ω) (errorCode errorCode' : Int) (p : Option π)
      (run : T.getPacket w s errorCode = some (w', s', errorCode', p)) :
      Steps T s s' (.getPacket w errorCode)
  | encode (p p' : π) (ok : Bool) (bytes : List UInt8)
      (run : T.encode s p = some (s', p', ok, bytes)) : Steps T s s' (.encode p)

structure WritesInside (T : Analyzer σ ω π) (buffers : Buffers σ) (s : σ) : Prop where
  receive : ∀ chunk, T.addTransferredData s chunk ≠ none
  putBack : buffers.putsBack = true → ∀ w errorCode, T.getPacket w s errorCode ≠ none
  encode : buffers.encodeCapacity s ≠ none → ∀ p, T.encode s p ≠ none

def NoOverrun (T : Analyzer σ ω π) (buffers : Buffers σ) (t : σ) : Prop :=
  ∀ calls s, Run (fun s call s' => Steps T s s' call) t calls s → WritesInside T buffers s

structure CloneEquivalent (T : Analyzer σ ω π) (buffers : Buffers σ) (t t' : σ) : Prop where
  same : SameBehaviour T t t'
  source : NoOverrun T buffers t
  clone : NoOverrun T buffers t'
  receive : (buffers.receiveCapacity t' : Int) = (T.base t').ioSize
  encode : ∀ capacity ∈ buffers.encodeCapacity t', capacity = (T.base t').packetSize.toNat

/-- Every object that the constructor makes of these arguments has an equivalent clone. -/
def ClonesWell (T : Analyzer σ ω π) (buffers : Buffers σ) (bufferIOSize : Int)
    (packetDataSize : UInt16) (packetOption : UInt32) : Prop :=
  ∀ t, construct T bufferIOSize packetDataSize packetOption = some t →
    ∃ t', clone T t = some t' ∧ CloneEquivalent T buffers t t'

/-- What all protocols share: the sizes are stored as given, a copy of the sizes touches no buffer,
and an object of the default sizes differs from others by its buffers only. -/
structure DefaultClone (T : Analyzer σ ω π) (buffers : Buffers σ) (encodeSize : Option UInt16) :
    Prop where
  base_init : ∀ ioSize packetSize option t, T.initProtocol ioSize packetSize option = some t →
    T.base t = ⟨ioSize, packetSize, option⟩
  base_setBase : ∀ t base, T.base (T.setBase t base) = base
  receive_setBase : ∀ t base,
    buffers.receiveCapacity (T.setBase t base) = buffers.receiveCapacity t
  encode_setBase : ∀ t base, buffers.encodeCapacity (T.setBase t base) = buffers.encodeCapacity t
  init_default : ∃ t, constructDefault T = some t ∧
    buffers.receiveCapacity t = packetDefaultIOSize ∧
    buffers.encodeCapacity t = encodeSize.map UInt16.toNat
  init_same : ∀ packetSize option t t₀, (∀ size ∈ encodeSize, packetSize = size) →
    T.initProtocol packetDefaultIOSize packetSize option = some t → constructDefault T = some t₀ →
    T.setBase t₀ (T.base t) = t
  inside : ∀ packetSize option t, (∀ size ∈ encodeSize, packetSize = size) →
    T.initProtocol packetDefaultIOSize packetSize option = some t → NoOverrun T buffers t

theorem DefaultClone.clonesWell_iff {T : Analyzer σ ω π} {buffers : Buffers σ}
    {encodeSize : Option UInt16} (laws : DefaultClone T buffers encodeSize) (bufferIOSize : Int)
    (packetDataSize : UInt16) (packetOption : UInt32) :
    ClonesWell T buffers bufferIOSize packetDataSize packetOption ↔
      construct T bufferIOSize packetDataSize packetOption = none ∨
        (clampSizes bufferIOSize packetDataSize).1 = packetDefaultIOSize ∧
          ∀ size ∈ encodeSize, (clampSizes bufferIOSize packetDataSize).2 = size := by
  obtain ⟨t₀, default, receives, encodes⟩ := laws.init_default
  rw [ClonesWell, construct]
  generalize (clampSizes bufferIOSize packetDataSize).1 = ioSize,
    (clampSizes bufferIOSize packetDataSize).2 = packetSize
  have cloned (t : σ) : clone T t = some (T.setBase t₀ (T.base t)) := by
    rw [clone, default]
    rfl
  cases made : T.initProtocol ioSize packetSize packetOption with
  | none => simp
  | some t =>
      have sizes := laws.base_init _ _ _ _ made
      constructor
      · intro well
        obtain ⟨t', copy, equivalent⟩ := well t rfl
        obtain rfl := Option.some.inj ((cloned t).symm.trans copy)
        have receive := equivalent.receive
        have encode := equivalent.encode
        rw [laws.base_setBase, sizes, laws.receive_setBase, receives] at receive
        rw [laws.base_setBase, sizes, laws.encode_setBase, encodes] at encode
        refine .inr ⟨receive.symm, fun size member => ?_⟩
        exact UInt16.toNat_inj.mp (encode _ (Option.mem_map_of_mem _ member)).symm
      · rintro (nothing | ⟨rfl, exactly⟩) t' eq
        · contradiction
        · obtain rfl := Option.some.inj eq
          have same := laws.init_same _ _ _ _ exactly made default
          have inside := laws.inside _ _ _ exactly made
          refine ⟨t, by rw [cloned, same], fun _ _ _ _ => rfl, inside, inside, ?_, ?_⟩
          · rw [← same, laws.receive_setBase, receives, laws.base_setBase, sizes]
          · rw [← same, laws.encode_setBase, encodes, laws.base_setBase, sizes]
            rintro capacity member
            obtain ⟨size, known, rfl⟩ := Option.mem_map.mp member
            rw [exactly size known]

theorem noOverrun_of_invariant {T : Analyzer σ ω π} {buffers : Buffers σ} {I : σ → Prop}
    {t : σ} (start : I t) (preserved : ∀ s call s', I s → Steps T s s' call → I s')
    (inside : ∀ s, I s → WritesInside T buffers s) : NoOverrun T buffers t :=
  fun _ _ run => inside _ (run.invariant start preserved)

theorem defaultRing_valid : SFIOBuffer.Valid (SFIOBuffer.empty.allocIOBuf packetDefaultIOSize).1 :=
  (SFIOBuffer.allocIOBuf_valid _ _ (by decide)).1

namespace SFCGSFPacketProtocol
open Cgsf.Engine.SFCGSFPacketProtocol

def buffers : Buffers SFCGSFPacketProtocol where
  receiveCapacity := fun t => t.packetIOBuffer.iBufSize
  encodeCapacity := fun _ => none
  putsBack := false

def RingValid (t : SFCGSFPacketProtocol) : Prop := SFIOBuffer.Valid t.packetIOBuffer

theorem steps_ringValid (codec : Codec) {s s' : SFCGSFPacketProtocol}
    {call : Call PacketPool SFPacket} (valid : RingValid s)
    (action : Steps (analyzer codec) s s' call) : RingValid s' := by
  cases action with
  | addTransferredData chunk ok run =>
      obtain ⟨ring, added, appended, valid'⟩ := SFIOBuffer.appendData_valid valid chunk
      simp only [analyzer, addTransferredData, appended] at run
      cases run
      exact valid'
  | getPacket w w' errorCode errorCode' p run =>
      simp only [analyzer, getPacket, Option.bind_eq_bind, Option.bind_eq_some_iff] at run
      obtain ⟨answer, got, finish⟩ := run
      have valid' := SFPacketIOBuffer.getPacket_valid valid got
      split at finish <;> cases finish <;> exact valid'
  | encode p p' ok bytes run =>
      simp only [analyzer, encode, Option.bind_eq_bind, Option.bind_eq_some_iff] at run
      obtain ⟨⟨q, done⟩, -, finish⟩ := run
      cases done with
      | false =>
          cases finish
          exact valid
      | true =>
          obtain ⟨wire, -, finish⟩ := Option.bind_eq_some_iff.mp finish
          cases finish
          exact valid

theorem defaultClone (codec : Codec) : DefaultClone (analyzer codec) buffers none where
  base_init := by
    rintro _ _ _ _ ⟨⟩
    rfl
  base_setBase := fun _ _ => rfl
  receive_setBase := fun _ _ => rfl
  encode_setBase := fun _ _ => rfl
  init_default := ⟨_, rfl, rfl, rfl⟩
  init_same := by
    rintro _ _ _ _ - ⟨⟩ ⟨⟩
    rfl
  inside := by
    rintro packetSize option t - ⟨⟩
    have start : RingValid (initProtocol packetDefaultIOSize packetSize option) := defaultRing_valid
    refine noOverrun_of_invariant start
      (fun _ _ _ => steps_ringValid codec) fun s valid =>
        ⟨fun chunk => ?_, (absurd · Bool.false_ne_true), (absurd rfl ·)⟩
    obtain ⟨ring, added, appended, -⟩ := SFIOBuffer.appendData_valid valid chunk
    simp [analyzer, addTransferredData, appended]

end SFCGSFPacketProtocol

namespace SFMsgPackProtocol
open Cgsf.Engine.SFMsgPackProtocol

def buffers : Buffers SFMsgPackProtocol where
  receiveCapacity := fun t => t.packetIOBuffer.iBufSize
  encodeCapacity := fun _ => none
  putsBack := false

def RingValid (t : SFMsgPackProtocol) : Prop := SFIOBuffer.Valid t.packetIOBuffer

theorem steps_ringValid (reserved : Nat) {s s' : SFMsgPackProtocol}
    {call : Call Unit SFMsgPackPacket} (valid : RingValid s)
    (action : Steps (analyzer reserved) s s' call) : RingValid s' := by
  cases action with
  | addTransferredData chunk ok run =>
      obtain ⟨ring, added, appended, valid'⟩ := SFIOBuffer.appendData_valid valid chunk
      simp only [analyzer, addTransferredData, appended] at run
      cases run
      exact valid'
  | getPacket w w' errorCode errorCode' p run =>
      obtain ⟨⟨t, code, found⟩, got, same⟩ := Option.map_eq_some_iff.mp run
      obtain ⟨answer, read, finish⟩ := Option.map_eq_some_iff.mp got
      have valid' := SFPacketIOBuffer.getPacket_valid valid read
      cases same
      dsimp only at finish
      split at finish <;> cases finish <;> exact valid'
  | encode p p' ok bytes run =>
      cases run
      exact valid

theorem defaultClone (reserved : Nat) : DefaultClone (analyzer reserved) buffers none where
  base_init := by
    rintro _ _ _ _ ⟨⟩
    rfl
  base_setBase := fun _ _ => rfl
  receive_setBase := fun _ _ => rfl
  encode_setBase := fun _ _ => rfl
  init_default := ⟨_, rfl, rfl, rfl⟩
  init_same := by
    rintro _ _ _ _ - ⟨⟩ ⟨⟩
    rfl
  inside := by
    rintro packetSize option t - ⟨⟩
    have start : RingValid (initProtocol packetDefaultIOSize packetSize option) := defaultRing_valid
    refine noOverrun_of_invariant start
      (fun _ _ _ => steps_ringValid reserved) fun s valid =>
        ⟨fun chunk => ?_, (absurd · Bool.false_ne_true), (absurd rfl ·)⟩
    obtain ⟨ring, added, appended, -⟩ := SFIOBuffer.appendData_valid valid chunk
    simp [analyzer, addTransferredData, appended]

end SFMsgPackProtocol

namespace SFHTTPProtocol
open Cgsf.Engine.SFHTTPProtocol

variable {ρ : Type} (parser : HTTPParser ρ)

def buffers : Buffers SFHTTPProtocol where
  receiveCapacity := fun t => t.iOBuffer.iBufSize
  encodeCapacity := fun _ => none
  putsBack := true

def RingValid (t : SFHTTPProtocol) : Prop := SFIOBuffer.Valid t.iOBuffer

/-- The unused bytes go back to the ring. -/
theorem getPacket_ringValid {t : SFHTTPProtocol} (valid : RingValid t) :
    ∃ t' errorCode p, getPacket parser t = some (t', errorCode, p) ∧ RingValid t' := by
  rw [getPacket]
  split
  · exact ⟨_, _, _, rfl, valid⟩
  · obtain ⟨ring, recvData, data, valid'⟩ := SFIOBuffer.getData_valid valid recvDataSize
    rw [data, Option.bind_some]
    dsimp only
    split
    · exact ⟨_, _, _, rfl, valid'⟩
    · split
      · exact ⟨_, _, _, rfl, valid'⟩
      · rename_i request size _
        split
        · obtain ⟨ring', added, back, valid''⟩ := SFIOBuffer.appendData_valid valid' recvData
          rw [back]
          exact ⟨_, _, _, rfl, valid''⟩
        · split
          · obtain ⟨ring', added, back, valid''⟩ :=
              SFIOBuffer.appendData_valid valid' (recvData.drop (recvData.length - size))
            rw [back]
            exact ⟨_, _, _, rfl, valid''⟩
          · exact ⟨_, _, _, rfl, valid'⟩

theorem steps_ringValid {s s' : SFHTTPProtocol} {call : Call Unit (SFHTTPPacket ρ)}
    (valid : RingValid s) (action : Steps (analyzer parser) s s' call) : RingValid s' := by
  cases action with
  | addTransferredData chunk ok run =>
      obtain ⟨ring, added, appended, valid'⟩ := SFIOBuffer.appendData_valid valid chunk
      simp only [analyzer, addTransferredData, appended] at run
      cases run
      exact valid'
  | getPacket w w' errorCode errorCode' p run =>
      obtain ⟨t', code, found, got, valid'⟩ := getPacket_ringValid parser valid
      simp only [analyzer, got] at run
      cases run
      exact valid'
  | encode p p' ok bytes run =>
      simp only [analyzer, encode] at run
      split at run <;> cases run <;> exact valid

theorem defaultClone : DefaultClone (analyzer parser) buffers none where
  base_init := by
    rintro _ _ _ _ ⟨⟩
    rfl
  base_setBase := fun _ _ => rfl
  receive_setBase := fun _ _ => rfl
  encode_setBase := fun _ _ => rfl
  init_default := ⟨_, rfl, rfl, rfl⟩
  init_same := by
    rintro _ _ _ _ - ⟨⟩ ⟨⟩
    rfl
  inside := by
    rintro packetSize option t - ⟨⟩
    have start : RingValid (initProtocol packetDefaultIOSize packetSize option) := defaultRing_valid
    refine noOverrun_of_invariant start
      (fun _ _ _ => steps_ringValid parser) fun s valid =>
        ⟨fun chunk => ?_, fun _ w code => ?_, (absurd rfl ·)⟩
    · obtain ⟨ring, added, appended, -⟩ := SFIOBuffer.appendData_valid valid chunk
      simp [analyzer, addTransferredData, appended]
    · obtain ⟨t', code', found, got, -⟩ := getPacket_ringValid parser valid
      simp [analyzer, got]

end SFHTTPProtocol

namespace SFEchoProtocol
open Cgsf.Engine.SFEchoProtocol

def buffers : Buffers SFEchoProtocol where
  receiveCapacity := fun t => t.buffer.uMaxSize
  encodeCapacity := fun _ => none
  putsBack := false

theorem defaultClone : DefaultClone analyzer buffers none where
  base_init := by
    rintro _ _ _ _ ⟨⟩
    rfl
  base_setBase := fun _ _ => rfl
  receive_setBase := fun _ _ => rfl
  encode_setBase := fun _ _ => rfl
  init_default := ⟨_, rfl, rfl, rfl⟩
  init_same := by
    rintro _ _ _ _ - ⟨⟩ ⟨⟩
    rfl
  inside := fun _ _ _ _ _ _ _ _ =>
    ⟨fun _ => Option.some_ne_none _, (absurd · Bool.false_ne_true), (absurd rfl ·)⟩

end SFEchoProtocol

namespace SFProtobufProtocol
open Cgsf.Engine.SFProtobufProtocol

variable {μ : Type} (messages : MessageCodec μ)
variable (createIncomingPacketFromPacketId : UInt16 → Option (SFProtobufPacket μ))

def buffers : Buffers SFProtobufProtocol where
  receiveCapacity := fun t => t.buffer.uMaxSize
  encodeCapacity := fun t => some t.oBuffer.uMaxSize
  putsBack := false

theorem defaultClone :
    DefaultClone (analyzer messages createIncomingPacketFromPacketId) buffers (some 8192) where
  base_init := by
    rintro _ _ _ _ ⟨⟩
    rfl
  base_setBase := fun _ _ => rfl
  receive_setBase := fun _ _ => rfl
  encode_setBase := fun _ _ => rfl
  init_default := ⟨_, rfl, rfl, rfl⟩
  init_same := by
    rintro _ _ _ _ - ⟨⟩ ⟨⟩
    rfl
  inside := fun _ _ _ _ _ _ _ _ =>
    ⟨fun _ => Option.some_ne_none _, (absurd · Bool.false_ne_true), fun _ _ => Option.some_ne_none _⟩

end SFProtobufProtocol

namespace SFJsonProtocol
open Cgsf.Engine.SFJsonProtocol

variable {ν : Type} (json : JsonCodec ν)

def buffers : Buffers SFJsonProtocol where
  receiveCapacity := fun t => t.builder.bufferPtr.length
  encodeCapacity := fun t => some t.buffer.length
  putsBack := false

structure Allocated (t : SFJsonProtocol) : Prop where
  receive : (t.builder.bufferPtr.length : Int) = t.builder.ioSize
  encode : t.buffer.length = t.packetSize.toNat
  header : headerSize ≤ t.packetSize.toNat

theorem addBuffer_fits {b : JsonBuilder} (whole : (b.bufferPtr.length : Int) = b.ioSize)
    (buffer : List UInt8) : ∃ b' ok, b.addBuffer buffer = some (b', ok) ∧
      (b'.bufferPtr.length : Int) = b'.ioSize := by
  rw [JsonBuilder.addBuffer]
  split
  · exact ⟨b, false, rfl, whole⟩
  · obtain ⟨bufferPtr, written, same⟩ :=
      write?_fits b.bufferPtr b.writtenOffset buffer (by omega)
    rw [written]
    exact ⟨_, true, rfl, by rw [same]; exact whole⟩

theorem makeBuffer_length (node : ν) (bufferLen : Nat) :
    (JsonBuilder.makeBuffer json node bufferLen).length ≤ bufferLen := by
  rw [JsonBuilder.makeBuffer]
  split
  · exact Nat.zero_le _
  · omega

theorem encode_fits {t : SFJsonProtocol} (allocated : Allocated t) (p : SFJsonPacket ν) :
    ∃ buffer bytes, encode json t p = some ({ t with buffer }, p, true, bytes) ∧
      buffer.length = t.packetSize.toNat := by
  have length := allocated.encode
  have large := allocated.header
  have content := makeBuffer_length json p.node (unsignedSub t.packetSize.toNat headerSize)
  rw [unsignedSub, if_pos large] at content
  have two : headerSize = 12 := rfl
  obtain ⟨cleared, clear, sameCleared⟩ :=
    write?_fits t.buffer 0 (List.replicate t.packetSize.toNat 0) (by simp [length])
  obtain ⟨headed, head, sameHeaded⟩ := write?_fits cleared 0 p.header.bytes
    (by rw [SFPacketHeader.length_bytes]; omega)
  rw [encode, clear, Option.bind_some, head, Option.bind_some, unsignedSub, if_pos large]
  dsimp only
  generalize JsonBuilder.makeBuffer json p.node (t.packetSize.toNat - headerSize) = text at content ⊢
  obtain ⟨filled, fill, sameFilled⟩ := write?_fits headed headerSize text (by omega)
  obtain ⟨stamped, stamp, sameStamped⟩ := write?_fits filled 10 (leBytes 2 text.length)
    (by rw [leBytes_length]; omega)
  refine ⟨stamped, stamped.take (headerSize + text.length), ?_, by omega⟩
  rw [fill, Option.bind_some, stamp, Option.bind_some, read?, if_pos (by omega), List.drop_zero]
  rfl

theorem getCompleteNode_allocated {t t' : SFJsonProtocol} {p p' : SFJsonPacket ν} {ok : Bool}
    (allocated : Allocated t) (run : getCompleteNode json t p = some (t', p', ok)) :
    Allocated t' := by
  rw [getCompleteNode] at run
  split at run
  · cases run
    exact allocated
  · obtain ⟨bs, -, run⟩ := Option.bind_eq_some_iff.mp run
    dsimp only at run
    split at run
    · cases run
      exact allocated
    · split at run
      · cases run
        exact allocated
      · obtain ⟨popped, pop, same⟩ := Option.map_eq_some_iff.mp run
        obtain ⟨content, -, finish⟩ := Option.map_eq_some_iff.mp pop
        cases same
        refine ⟨?_, allocated.encode, allocated.header⟩
        have receive := allocated.receive
        dsimp only at finish
        split at finish
        · cases finish
          exact receive
        · split at finish <;> cases finish <;> exact receive

theorem steps_allocated {s s' : SFJsonProtocol} {call : Call Unit (SFJsonPacket ν)}
    (allocated : Allocated s) (action : Steps (analyzer json) s s' call) : Allocated s' := by
  cases action with
  | addTransferredData chunk ok run =>
      obtain ⟨builder, added, appended, whole⟩ := addBuffer_fits allocated.receive chunk
      simp only [analyzer, addTransferredData, appended] at run
      cases run
      exact ⟨whole, allocated.encode, allocated.header⟩
  | getPacket w w' errorCode errorCode' p run =>
      obtain ⟨⟨t, code, found⟩, got, same⟩ := Option.map_eq_some_iff.mp run
      obtain ⟨⟨t', p', ok⟩, completed, finish⟩ := Option.map_eq_some_iff.mp got
      cases same
      cases finish
      exact getCompleteNode_allocated json allocated completed
  | encode p p' ok bytes run =>
      obtain ⟨buffer, bytes', encoded, length⟩ := encode_fits json allocated p
      obtain ⟨rfl, -⟩ := Prod.ext_iff.mp (Option.some.inj (encoded.symm.trans run))
      exact ⟨allocated.receive, length, allocated.header⟩

theorem initProtocol_spec (ioSize : Int) (packetSize : UInt16) (option : UInt32)
    (admitted : 0 ≤ ioSize) :
    ∃ t, initProtocol ioSize packetSize option = some t ∧
      (t.builder.bufferPtr.length : Int) = ioSize ∧ t.builder.ioSize = ioSize ∧
        t.buffer.length = packetSize.toNat ∧ t.packetSize = packetSize := by
  rw [initProtocol, JsonBuilder.prepareBuffer, if_neg (by omega), Option.map_some]
  refine ⟨_, rfl, ?_, rfl, List.length_replicate, rfl⟩
  rw [List.length_replicate, Int.toNat_of_nonneg admitted]

theorem initProtocol_allocated {packetSize : UInt16} {option : UInt32} {t : SFJsonProtocol}
    (exactly : packetSize = packetDefaultPacketSize)
    (made : initProtocol packetDefaultIOSize packetSize option = some t) : Allocated t := by
  obtain ⟨t', made', receive, size, encode, same⟩ :=
    initProtocol_spec packetDefaultIOSize packetSize option (by decide)
  obtain rfl := Option.some.inj (made'.symm.trans made)
  have header : headerSize ≤ packetDefaultPacketSize.toNat := by decide
  exact ⟨receive.trans size.symm, encode.trans (by rw [same]), by rwa [same, exactly]⟩

theorem defaultClone : DefaultClone (analyzer json) buffers (some packetDefaultPacketSize) where
  base_init := by
    intro ioSize packetSize option t made
    obtain ⟨builder, -, rfl⟩ := Option.map_eq_some_iff.mp made
    rfl
  base_setBase := fun _ _ => rfl
  receive_setBase := fun _ _ => rfl
  encode_setBase := fun _ _ => rfl
  init_default := by
    obtain ⟨t, made, receive, -, encode, -⟩ :=
      initProtocol_spec packetDefaultIOSize packetDefaultPacketSize 0 (by decide)
    exact ⟨t, made, receive, congrArg some encode⟩
  init_same := by
    intro packetSize option t t₀ exactly made default
    obtain rfl := exactly _ rfl
    have made : initProtocol packetDefaultIOSize packetDefaultPacketSize option = some t := made
    have default : initProtocol packetDefaultIOSize packetDefaultPacketSize 0 = some t₀ := default
    obtain ⟨builder, prepared, rfl⟩ := Option.map_eq_some_iff.mp made
    obtain ⟨builder', prepared', rfl⟩ := Option.map_eq_some_iff.mp default
    obtain rfl := Option.some.inj (prepared.symm.trans prepared')
    rfl
  inside := by
    intro packetSize option t exactly made
    refine noOverrun_of_invariant (initProtocol_allocated (exactly _ rfl) made)
      (fun _ _ _ => steps_allocated json) fun s allocated =>
        ⟨fun chunk => ?_, (absurd · Bool.false_ne_true), fun _ p => ?_⟩
    · obtain ⟨builder, added, appended, -⟩ := addBuffer_fits allocated.receive chunk
      simp [analyzer, addTransferredData, appended]
    · obtain ⟨buffer, bytes, encoded, -⟩ := encode_fits json allocated p
      simp [analyzer, encoded]

theorem encode_overruns {t : SFJsonProtocol} (p : SFJsonPacket ν)
    (short : t.buffer.length < t.packetSize.toNat) : encode json t p = none := by
  rw [encode, write?, if_neg (by rw [List.length_replicate]; omega)]
  rfl

/-- The clone's encode buffer has the default size, and `Encode` clears the copied size. -/
theorem clone_encode_overruns {t t' : SFJsonProtocol} (p : SFJsonPacket ν)
    (copy : clone (analyzer json) t = some t')
    (large : packetDefaultPacketSize.toNat < t.packetSize.toNat) : encode json t' p = none := by
  obtain ⟨t₀, default, -, encodes⟩ := (defaultClone json).init_default
  rw [clone, default] at copy
  cases copy
  have length : t₀.buffer.length = packetDefaultPacketSize.toNat := Option.some.inj encodes
  exact encode_overruns json p (length.trans_lt large)

end SFJsonProtocol

namespace SFAvroProtocol
open Cgsf.Engine.SFAvroProtocol

variable (createIncomingPacketFromPacketId : UInt16 → Option SFAvroPacket)

def buffers : Buffers SFAvroProtocol where
  receiveCapacity := fun t => t.packetIOBuffer.iBufSize
  encodeCapacity := fun t => some t.buffer.length
  putsBack := false

/-- `Encode` copies `sizeof(T)` bytes whatever the size of the buffer. -/
theorem encode_overruns (t : SFAvroProtocol) :
    encode t { packet := List.replicate t.buffer.length 0 } = none := by
  rw [encode]
  cases head : write? t.buffer 0 (SFPacketHeader.bytes {}) with
  | none => rfl
  | some buffer =>
      have room : 0 + (SFPacketHeader.bytes {}).length ≤ t.buffer.length := by
        by_contra short
        rw [write?, if_neg short] at head
        contradiction
      obtain ⟨buffer', head', same⟩ := write?_fits t.buffer 0 (SFPacketHeader.bytes {}) room
      obtain rfl := Option.some.inj (head'.symm.trans head)
      rw [Option.bind_some, write?, if_neg (by rw [same, List.length_replicate, headerSize]; omega)]
      rfl

theorem not_clonesWell (bufferIOSize : Int) (packetDataSize : UInt16) (packetOption : UInt32) :
    ¬ ClonesWell (analyzer createIncomingPacketFromPacketId) buffers bufferIOSize packetDataSize
      packetOption := by
  intro well
  obtain ⟨t', -, equivalent⟩ := well _ rfl
  exact (equivalent.source [] _ .start).encode (Option.some_ne_none _) _ (encode_overruns _)

end SFAvroProtocol

namespace SFPacketProtocol

theorem construct_json {ν : Type} (json : JsonCodec ν) (bufferIOSize : Int)
    (packetDataSize : UInt16) (packetOption : UInt32) :
    construct (SFJsonProtocol.analyzer json) bufferIOSize packetDataSize packetOption = none ↔
      (clampSizes bufferIOSize packetDataSize).1 < 0 := by
  change Option.map _ (JsonBuilder.prepareBuffer _) = none ↔ _
  rw [Option.map_eq_none_iff, JsonBuilder.prepareBuffer]
  split <;> simp_all

/-- When clones are equivalent to their source, protocol by protocol: the sizes that the
constructor settles on have to be the ones that `Clone` allocates with. -/
theorem clones_well_iff {ρ μ ν : Type} (codec : Codec) (reserved : Nat) (parser : HTTPParser ρ)
    (messages : MessageCodec μ) (newProtobuf : UInt16 → Option (SFProtobufPacket μ))
    (json : JsonCodec ν) (newAvro : UInt16 → Option SFAvroPacket) (bufferIOSize : Int)
    (packetDataSize : UInt16) (packetOption : UInt32) :
    (ClonesWell (SFCGSFPacketProtocol.analyzer codec) SFCGSFPacketProtocol.buffers bufferIOSize
        packetDataSize packetOption ↔ (clampSizes bufferIOSize packetDataSize).1 = 8192) ∧
      (ClonesWell (SFMsgPackProtocol.analyzer reserved) SFMsgPackProtocol.buffers bufferIOSize
        packetDataSize packetOption ↔ (clampSizes bufferIOSize packetDataSize).1 = 8192) ∧
      (ClonesWell (SFHTTPProtocol.analyzer parser) SFHTTPProtocol.buffers bufferIOSize
        packetDataSize packetOption ↔ (clampSizes bufferIOSize packetDataSize).1 = 8192) ∧
      (ClonesWell SFEchoProtocol.analyzer SFEchoProtocol.buffers bufferIOSize packetDataSize
        packetOption ↔ (clampSizes bufferIOSize packetDataSize).1 = 8192) ∧
      (ClonesWell (SFProtobufProtocol.analyzer messages newProtobuf) SFProtobufProtocol.buffers
        bufferIOSize packetDataSize packetOption ↔
          (clampSizes bufferIOSize packetDataSize).1 = 8192 ∧
            (clampSizes bufferIOSize packetDataSize).2 = 8192) ∧
      (ClonesWell (SFJsonProtocol.analyzer json) SFJsonProtocol.buffers bufferIOSize packetDataSize
        packetOption ↔
          (clampSizes bufferIOSize packetDataSize).1 < 0 ∨
            (clampSizes bufferIOSize packetDataSize).1 = 8192 ∧
              (clampSizes bufferIOSize packetDataSize).2 = 4096) ∧
      ¬ ClonesWell (SFAvroProtocol.analyzer newAvro) SFAvroProtocol.buffers bufferIOSize
        packetDataSize packetOption := by
  refine ⟨?_, ?_, ?_, ?_, ?_, ?_, SFAvroProtocol.not_clonesWell newAvro _ _ _⟩
  · rw [(SFCGSFPacketProtocol.defaultClone codec).clonesWell_iff]
    simp [construct, SFCGSFPacketProtocol.analyzer, packetDefaultIOSize]
  · rw [(SFMsgPackProtocol.defaultClone reserved).clonesWell_iff]
    simp [construct, SFMsgPackProtocol.analyzer, packetDefaultIOSize]
  · rw [(SFHTTPProtocol.defaultClone parser).clonesWell_iff]
    simp [construct, SFHTTPProtocol.analyzer, packetDefaultIOSize]
  · rw [SFEchoProtocol.defaultClone.clonesWell_iff]
    simp [construct, SFEchoProtocol.analyzer, packetDefaultIOSize]
  · rw [(SFProtobufProtocol.defaultClone messages newProtobuf).clonesWell_iff]
    simp [construct, SFProtobufProtocol.analyzer, packetDefaultIOSize]
  · rw [(SFJsonProtocol.defaultClone json).clonesWell_iff, construct_json]
    simp [packetDefaultIOSize, packetDefaultPacketSize]

def emptyObject : JsonCodec Unit := ⟨(), fun _ _ => ((), true), fun _ => [123, 125]⟩

/-- The clone clears 8192 bytes of an encode buffer of 4096. -/
theorem json_clone_overruns :
    ¬ ClonesWell (SFJsonProtocol.analyzer emptyObject) SFJsonProtocol.buffers 16384 8192 0 := by
  intro well
  cases made : construct (SFJsonProtocol.analyzer emptyObject) 16384 8192 0 with
  | none => exact absurd ((construct_json _ _ _ _).mp made) (by decide)
  | some t =>
      obtain ⟨t', copy, equivalent⟩ := well t made
      have sizes := (SFJsonProtocol.defaultClone emptyObject).base_init _ _ _ _ made
      have size : t.packetSize = 8192 := congrArg SFBasePacketProtocol.packetSize sizes
      have overrun := SFJsonProtocol.clone_encode_overruns emptyObject { node := () } copy
        (by rw [size]; decide)
      exact (equivalent.clone [] _ .start).encode (Option.some_ne_none _) _ overrun

end SFPacketProtocol

end Cgsf.Proof.Engine
