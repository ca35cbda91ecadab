import Cgsf.P2P.PuPktStructure

/-!
# The relay handlers on a datagram in memory

Behind the check of the length the fixed fields are those of the datagram. The destinations and the
body are read wherever the datagram's own fields say they are.
-/

namespace Cgsf.Proof.P2P
open Cgsf.P2P Library

/-- The number in `width` bytes of a datagram. -/
def field (d : List UInt8) (position width : Nat) : Nat :=
  beValue ((d.drop position).take width)

def packetType (d : List UInt8) : UInt8 := d.getD 0 0

section
variable {memory : Nat → UInt8} {size : Nat}

theorem within_bStoInt (position : Nat) :
    (bStoInt position).Within memory size ↔ position + 2 ≤ size := by
  rw [bStoInt, Reader.within_bind, Reader.within_bytes]
  simp

theorem within_bStoLong (position : Nat) :
    (bStoLong position).Within memory size ↔ position + 4 ≤ size := by
  rw [bStoLong, Reader.within_bind, Reader.within_bytes]
  simp

variable {d : List UInt8} (holds : Holds memory d)
include holds

theorem run_bytes_holds (position width : Nat) (inside : position + width ≤ d.length) :
    (Reader.bytes position width).run memory = (d.drop position).take width := by
  rw [Reader.run_bytes, holds.field position width inside]

theorem run_bStoInt (position : Nat) (inside : position + 2 ≤ d.length) :
    (bStoInt position).run memory = field d position 2 := by
  rw [bStoInt, Reader.run_bind, run_bytes_holds holds position 2 inside]
  rfl

theorem run_bStoLong (position : Nat) (inside : position + 4 ≤ d.length) :
    (bStoLong position).run memory = field d position 4 := by
  rw [bStoLong, Reader.run_bind, run_bytes_holds holds position 4 inside]
  rfl

theorem memory_eq (i : Nat) (inside : i < d.length) : memory i = d.getD i 0 := holds i inside

end

/-- The nested packet, as the fields of the datagram describe it. -/
def nested (send : Send) (d : List UInt8) (position : Nat) (stDstRemote : SockAddr) :
    Reader (List Datagram) :=
  send stDstRemote (d.getD 12 0) (d.getD 13 0) (field d 4 4) (field d 8 4) (field d 2 2) position

def destination (d : List UInt8) : SockAddr := ⟨field d 14 4, field d 18 2⟩

def destSize (d : List UInt8) : Nat := (d.getD 14 0).toNat

/-- Where `PktHandleRelayDataEx` takes the body from. -/
def startEx (d : List UInt8) : Nat := 6 * destSize d + 15

def destinations (d : List UInt8) : List SockAddr :=
  (List.range (destSize d)).map fun i => ⟨field d (15 + 6 * i) 4, field d (19 + 6 * i) 2⟩

@[simp] theorem length_destinations (d : List UInt8) :
    (destinations d).length = destSize d := by
  simp [destinations]

/-- The checks before a relay handler looks at anything else. -/
def Relays (d : List UInt8) : Prop := 20 ≤ d.length ∧ d.getD 12 0 ≠ puPktHeadTypeRelayData

instance (d : List UInt8) : Decidable (Relays d) := inferInstanceAs (Decidable (_ ∧ _))

section
variable {memory : Nat → UInt8} {d : List UInt8} (holds : Holds memory d) (send : Send)
include holds

theorem relayTo_nested (position : Nat) (stDstRemote : SockAddr) (long : 20 ≤ d.length) :
    ((relayTo send position stDstRemote).Within memory d.length ↔
        (nested send d position stDstRemote).Within memory d.length) ∧
      (relayTo send position stDstRemote).run memory =
        (nested send d position stDstRemote).run memory := by
  have type := memory_eq holds 12 (by omega)
  have addrType := memory_eq holds 13 (by omega)
  have seq := run_bStoLong holds 4 (by omega)
  have serial := run_bStoLong holds 8 (by omega)
  have len := run_bStoInt holds 2 (by omega)
  rw [relayTo, nested]
  constructor
  · simp only [Reader.within_read, Reader.within_bind, within_bStoInt, within_bStoLong, seq, serial,
      len, type, addrType]
    constructor
    · rintro ⟨-, -, -, -, -, sending⟩
      exact sending
    · exact fun sending => ⟨by omega, by omega, by omega, by omega, by omega, sending⟩
  · simp only [Reader.run_read, Reader.run_bind, seq, serial, len, type, addrType]

theorem relayToAll_nested (position : Nat) (dests : List SockAddr) (long : 20 ≤ d.length) :
    ((relayToAll send position dests).Within memory d.length ↔
        ∀ dst ∈ dests, (nested send d position dst).Within memory d.length) ∧
      (relayToAll send position dests).run memory =
        dests.flatMap fun dst => (nested send d position dst).run memory := by
  induction dests with
  | nil => exact ⟨iff_of_true (Reader.within_done memory d.length []) nofun, rfl⟩
  | cons dst dests ih =>
      obtain ⟨reads, sends⟩ := relayTo_nested holds send position dst long
      rw [relayToAll]
      constructor
      · rw [Reader.within_bind, Reader.within_bind, List.forall_mem_cons, reads, ih.1]
        simp
      · rw [Reader.run_bind, Reader.run_bind, Reader.run_done, List.flatMap_cons, sends, ih.2]

theorem destHeads_inside (position count : Nat) :
    ((destHeads position count).Within memory d.length ↔
        count = 0 ∨ position + 6 * count ≤ d.length) ∧
      (position + 6 * count ≤ d.length → (destHeads position count).run memory =
        (List.range count).map fun i =>
          ⟨field d (position + 6 * i) 4, field d (position + 4 + 6 * i) 2⟩) := by
  induction count generalizing position with
  | zero => exact ⟨iff_of_true (Reader.within_done memory d.length []) (.inl rfl), fun _ => rfl⟩
  | succ count ih =>
      obtain ⟨reads, dests⟩ := ih (position + 6)
      rw [destHeads, puPacketRelayDestHeadExLen]
      constructor
      · rw [Reader.within_bind, Reader.within_bind, Reader.within_bytes, reads]
        simp only [Reader.within_done, and_true]
        omega
      · intro inside
        rw [Reader.run_bind, Reader.run_bind, Reader.run_done, dests (by omega),
          run_bytes_holds holds position 6 (by omega), List.range_succ_eq_map, List.map_cons,
          List.map_map]
        have addr : ((d.drop position).take 6).take 4 = (d.drop position).take 4 := by
          rw [List.take_take]
          rfl
        have port : ((d.drop position).take 6).drop 4 = (d.drop (position + 4)).take 2 := by
          rw [List.drop_take, List.drop_drop]
        rw [addr, port]
        refine congrArg _ (List.map_congr_left fun i _ => ?_)
        rw [Function.comp_apply, Nat.succ_eq_add_one, Nat.mul_add, Nat.mul_one,
          show position + 6 + 6 * i = position + (6 * i + 6) by omega,
          show position + 6 + 4 + 6 * i = position + 4 + (6 * i + 6) by omega]

theorem relayData_nested :
    ((relayData send d.length).Within memory d.length ↔
        (Relays d → (nested send d 20 (destination d)).Within memory d.length)) ∧
      (relayData send d.length).run memory =
        if Relays d then (nested send d 20 (destination d)).run memory else [] := by
  rw [relayData, puPacketRelayHeadLen]
  by_cases long : 20 ≤ d.length
  swap
  · rw [if_pos (by omega), if_neg (fun relays => long relays.1)]
    exact ⟨iff_of_true (Reader.within_done memory d.length []) (fun relays => absurd relays.1 long),
      rfl⟩
  have type := memory_eq holds 12 (by omega)
  rw [if_neg (by omega), Reader.within_read, Reader.run_read, type]
  by_cases relay : d.getD 12 0 = puPktHeadTypeRelayData
  · rw [if_pos relay, if_neg (fun relays => relays.2 relay)]
    exact ⟨iff_of_true ⟨by omega, Reader.within_done memory d.length []⟩
      (fun relays => absurd relay relays.2), rfl⟩
  have relays : Relays d := ⟨long, relay⟩
  have addr := run_bStoLong holds 14 (by omega)
  have port := run_bStoInt holds 18 (by omega)
  obtain ⟨reads, sends⟩ := relayTo_nested holds send 20 (destination d) long
  rw [if_neg relay, if_pos relays, forall_prop_of_true relays]
  constructor
  · rw [Reader.within_bind, Reader.within_bind, within_bStoLong, within_bStoInt, addr, port, ← reads]
    constructor
    · rintro ⟨-, -, -, sending⟩
      exact sending
    · exact fun sending => ⟨by omega, by omega, by omega, sending⟩
  · rw [Reader.run_bind, Reader.run_bind, addr, port]
    exact sends

theorem relayDataEx_run (relays : Relays d) :
    (relayDataEx send d.length).run memory =
      ((destHeads 15 (destSize d)).run memory).flatMap fun dst =>
        (nested send d (startEx d) dst).run memory := by
  have type := memory_eq holds 12 (Nat.lt_of_lt_of_le (by omega) relays.1)
  have size := memory_eq holds 14 (Nat.lt_of_lt_of_le (by omega) relays.1)
  rw [relayDataEx, puPacketRelayHeadLen, if_neg (Nat.not_lt.mpr relays.1), Reader.run_read, type,
    if_neg relays.2, Reader.run_read, size, Reader.run_bind]
  exact (relayToAll_nested holds send (startEx d) _ relays.1).2

theorem relayDataEx_refused (refused : ¬ Relays d) :
    (relayDataEx send d.length).Within memory d.length ∧
      (relayDataEx send d.length).run memory = [] := by
  rw [relayDataEx, puPacketRelayHeadLen]
  by_cases long : 20 ≤ d.length
  · have relay : d.getD 12 0 = puPktHeadTypeRelayData := not_not.mp (not_and.mp refused long)
    rw [if_neg (by omega), Reader.within_read, Reader.run_read, memory_eq holds 12 (by omega),
      if_pos relay]
    exact ⟨⟨by omega, Reader.within_done memory d.length []⟩, rfl⟩
  · rw [if_pos (by omega)]
    exact ⟨Reader.within_done memory d.length [], rfl⟩

theorem destHeads_destinations (inside : startEx d ≤ d.length) :
    (destHeads 15 (destSize d)).run memory = destinations d := by
  rw [startEx] at inside
  exact (destHeads_inside holds 15 (destSize d)).2 (by omega)

theorem relayDataEx_within (relays : Relays d) :
    (relayDataEx send d.length).Within memory d.length ↔
      destSize d = 0 ∨ startEx d ≤ d.length ∧
        ∀ dst ∈ destinations d, (nested send d (startEx d) dst).Within memory d.length := by
  have long := relays.1
  have type := memory_eq holds 12 (by omega)
  have size := memory_eq holds 14 (by omega)
  have reads := (destHeads_inside holds 15 (destSize d)).1
  rw [relayDataEx, puPacketRelayHeadLen, if_neg (by omega), Reader.within_read, type,
    if_neg relays.2, Reader.within_read, size, Reader.within_bind]
  change _ ∧ _ ∧ (destHeads 15 (destSize d)).Within memory d.length ∧ _ ↔ _
  rw [reads]
  by_cases inside : startEx d ≤ d.length
  · have within := (relayToAll_nested holds send (startEx d) (destinations d) long).1
    change _ ∧ _ ∧ _ ∧ (relayToAll send (startEx d)
      ((destHeads 15 (destSize d)).run memory)).Within memory d.length ↔ _
    rw [destHeads_destinations holds inside, within]
    constructor
    · exact fun reads => .inr ⟨inside, reads.2.2.2⟩
    · rw [startEx] at inside
      rintro (none | ⟨-, all⟩)
      · refine ⟨by omega, by omega, .inl none, ?_⟩
        rw [List.eq_nil_of_length_eq_zero ((length_destinations d).trans none)]
        exact nofun
      · exact ⟨by omega, by omega, .inr (by omega), all⟩
  · rw [startEx] at inside ⊢
    exact iff_of_false (by omega) (by omega)

end

end Cgsf.Proof.P2P
