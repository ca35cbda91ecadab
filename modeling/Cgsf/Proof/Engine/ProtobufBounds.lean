import Cgsf.Engine.ProtobufProtocol
import Cgsf.Proof.Engine.ProtobufProgress

/-!
# What the protobuf deframer reads

The declared length is checked against the buffered bytes, but not against the eight bytes that
every frame has: the index of the end marker and the payload's length wrap around for some lengths
below eight.
-/

namespace Cgsf.Proof.Engine.SFProtobufProtocol
open Cgsf.Engine Library Cgsf.Engine.SFProtobufProtocol

variable {μ : Type} (messages : MessageCodec μ) (create : UInt16 → Option (SFProtobufPacket μ))

/-- Whatever memory holds behind the buffered bytes, only these are read, and a payload that is
decoded lies between the header and the end marker of the declared length. -/
def DeframesInside (bs : List UInt8) : Prop :=
  ∀ memory, Holds memory bs → (deframe create bs.length).Within memory bs.length ∧
    ∀ call, (deframe create bs.length).run memory = some call →
      call.offset = 6 ∧ 6 + call.length + 2 = declared bs ∧ declared bs ≤ bs.length

/-- The declared length is one that the deframer subtracts too much from. -/
def Underflows (bs : List UInt8) : Prop :=
  start bs = signatureStart ∧ declared bs ≤ bs.length ∧ (declared bs < 2 ∨
    declared bs < 8 ∧ ending bs = signatureEnd ∧ (create (frameId bs)).isSome = true)

instance (bs : List UInt8) : Decidable (Underflows create bs) :=
  inferInstanceAs (Decidable (_ ∧ _ ∧ (_ ∨ _ ∧ _ ∧ _)))

theorem inside_iff_of_holds {memory : Nat → UInt8} {bs : List UInt8} (holds : Holds memory bs)
    (long : 8 ≤ bs.length) (held : bs.length ≤ receiveBufferSize) :
    ((deframe create bs.length).Within memory bs.length ∧
      ∀ call, (deframe create bs.length).run memory = some call →
        call.offset = 6 ∧ 6 + call.length + 2 = declared bs ∧ declared bs ≤ bs.length) ↔
      ¬ Underflows create bs := by
  rw [receiveBufferSize] at held
  have first : leValue [memory 0, memory 1] = start bs := holds.word 0 (by omega)
  have second : leValue [memory 2, memory 3] = declared bs := holds.word 2 (by omega)
  have third : UInt16.ofNat (leValue [memory 4, memory 5]) = frameId bs :=
    congrArg UInt16.ofNat (holds.word 4 (by omega))
  rw [deframe, if_neg (by omega)]
  simp only [Reader.within_read, Reader.run_read, first, second, third]
  by_cases marked : start bs = signatureStart
  swap
  · rw [if_pos marked]
    simp [Underflows, marked]
    omega
  rw [if_neg (not_not.mpr marked)]
  by_cases inside : declared bs ≤ bs.length
  swap
  · rw [if_pos (by omega)]
    simp [Underflows, inside]
    omega
  rw [if_neg (by omega)]
  by_cases tiny : declared bs < 2
  · refine iff_of_false (fun both => ?_) (not_not.mpr ⟨marked, inside, .inl tiny⟩)
    have far := ((Reader.within_read ..).mp both.1.2.2.2.2.2.2).1
    rw [unsignedSub, if_neg (by omega)] at far
    omega
  have last : leValue [memory (unsignedSub (declared bs) 2),
      memory ((unsignedSub (declared bs) 2 + 1) % 2 ^ 32)] = ending bs := by
    rw [unsignedSub, if_pos (by omega), Nat.mod_eq_of_lt (by omega)]
    exact holds.word (declared bs - 2) (by omega)
  simp only [Reader.within_read, Reader.run_read, last]
  have reads : 0 < bs.length ∧ 2 < bs.length ∧ 4 < bs.length ∧ 1 < bs.length ∧ 3 < bs.length ∧
      5 < bs.length ∧ unsignedSub (declared bs) 2 < bs.length ∧
      (unsignedSub (declared bs) 2 + 1) % 2 ^ 32 < bs.length := by
    rw [unsignedSub, if_pos (by omega), Nat.mod_eq_of_lt (by omega)]
    omega
  simp only [reads, true_and]
  by_cases ended : ending bs = signatureEnd
  swap
  · rw [if_pos ended]
    simp [Underflows, ended, tiny]
  rw [if_neg (not_not.mpr ended)]
  cases known : create (frameId bs) with
  | none => simp [Underflows, known, tiny]
  | some p =>
      have call : Underflows create bs ↔ declared bs < 8 := by
        simp [Underflows, marked, inside, tiny, ended, known]
      rw [call]
      simp only [Reader.within_done, Reader.run_done, true_and, Option.some.injEq, forall_eq']
      constructor
      · rintro ⟨size, -⟩ small
        rw [unsignedSub, if_neg (by omega)] at size
        omega
      · intro large
        rw [unsignedSub, if_pos (by omega)]
        omega

/-- The deframer stays inside the buffered bytes exactly unless the declared length is too small:
below two, or below eight with an end marker in its place and a known id. -/
theorem deframes_inside_iff (bs : List UInt8) (long : 8 ≤ bs.length)
    (held : bs.length ≤ receiveBufferSize) : DeframesInside create bs ↔ ¬ Underflows create bs := by
  constructor
  · intro inside
    have holds : Holds (bs.getD · 0) bs := fun _ _ => rfl
    exact (inside_iff_of_holds create holds long held).mp (inside _ holds)
  · exact fun enough memory holds => (inside_iff_of_holds create holds long held).mpr enough

/-- The deframer of the receive path faults on exactly these buffers. -/
theorem tryDeframe_fault_iff (b : DataBuffer) (long : 8 ≤ b.data.length)
    (held : b.data.length ≤ receiveBufferSize) :
    tryDeframeIncomingPacket messages create b = none ↔ Underflows create b.data := by
  rw [receiveBufferSize] at held
  rw [tryDeframeIncomingPacket, DataBuffer.getDataSize, if_neg (by omega),
    readWord_inside (by omega), readWord_inside (by omega), readWord_inside (by omega)]
  change (if start b.data ≠ signatureStart then some ⟨.corruptPacket, none, frameId b.data, 0⟩
      else if declared b.data > b.data.length then some ⟨.incompletePacket, none, frameId b.data, 0⟩
      else (readWord b (unsignedSub (declared b.data) 2)).bind fun sEnd =>
        if sEnd ≠ signatureEnd then some ⟨.corruptPacket, none, frameId b.data, 0⟩
        else makePacket messages create b (frameId b.data) (declared b.data)) = none ↔ _
  by_cases marked : start b.data = signatureStart
  swap
  · simp [Underflows, marked]
  rw [if_neg (not_not.mpr marked)]
  by_cases inside : declared b.data ≤ b.data.length
  swap
  · simp [Underflows, inside, Nat.lt_of_not_le inside]
  rw [if_neg (by omega)]
  by_cases tiny : declared b.data < 2
  · rw [readWord_outside (by rw [unsignedSub, if_neg (by omega)]; omega)]
    exact iff_of_true rfl ⟨marked, inside, .inl tiny⟩
  rw [unsignedSub, if_pos (by omega), readWord_inside (by omega), Option.bind_some]
  change (if ending b.data ≠ signatureEnd then some ⟨.corruptPacket, none, frameId b.data, 0⟩
    else makePacket messages create b (frameId b.data) (declared b.data)) = none ↔ _
  by_cases ended : ending b.data = signatureEnd
  swap
  · simp [Underflows, ended, tiny]
  rw [if_neg (not_not.mpr ended), makePacket]
  cases known : create (frameId b.data) with
  | none => simp [Underflows, known, tiny]
  | some p =>
      simp only [Option.map_eq_none_iff, Underflows, marked, inside, tiny, ended, known, true_and,
        Option.isSome_some, and_true, false_or]
      rw [read?, unsignedSub]
      split <;> split <;> simp <;> omega

def declaring (packetLen : Nat) : List UInt8 :=
  leBytes 2 signatureStart ++ leBytes 2 packetLen ++ leBytes 2 0 ++ leBytes 2 0

theorem deframes_inside_login :
    DeframesInside (Casual.SFCGProtobufProtocol.createIncomingPacketFromPacketId fun _ => ())
      (frame Casual.CGSF.login [1, 2]) :=
  (deframes_inside_iff _ (frame Casual.CGSF.login [1, 2]) (by decide) (by decide)).mpr (by decide)

theorem zero_length_reads_outside :
    ¬ ∀ bs : List UInt8, 8 ≤ bs.length → bs.length ≤ receiveBufferSize →
      DeframesInside (Casual.SFCGProtobufProtocol.createIncomingPacketFromPacketId fun _ => ()) bs := by
  intro all
  obtain ⟨within, -⟩ := all (declaring 0) (by decide) (by decide) ((declaring 0).getD · 0)
    fun _ _ => rfl
  have far : ¬ (2 ^ 32 - 2 < (declaring 0).length) := by decide
  exact far (within _ (by decide))

end Cgsf.Proof.Engine.SFProtobufProtocol
