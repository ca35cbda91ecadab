import Cgsf.P2P.Relays
import Cgsf.Proof.P2P.Relay

/-!
# Confinement of the relay server

A relay server that stays inside the datagram it received sends what the datagram says and nothing
else, whatever an earlier datagram left in the receive buffer.
-/

namespace Cgsf.Proof.P2P.CRelaySlave
open Cgsf.P2P Library Cgsf.P2P.CRelaySlave

/-- The body of the nested packet lies inside the datagram, or is too long to be sent at all. -/
def Carries (d : List UInt8) (position : Nat) : Prop :=
  relayPktMaxSize ≤ 12 + field d 2 2 ∨ position + field d 2 2 ≤ d.length

instance (d : List UInt8) (position : Nat) : Decidable (Carries d position) :=
  inferInstanceAs (Decidable (_ ∨ _))

/-- The lengths, the count and the type of the datagram stay inside it and inside the table. -/
def Enclosed (d : List UInt8) : Prop :=
  d.length < 12 ∨
    packetType d ≠ 255 ∧
    (packetType d = puPktHeadTypeRelayData → Relays d → Carries d 20) ∧
    (packetType d = puPktHeadTypeRelayDataEx → Relays d →
      destSize d = 0 ∨ startEx d ≤ d.length ∧ Carries d (startEx d))

instance (d : List UInt8) : Decidable (Enclosed d) :=
  inferInstanceAs (Decidable (_ ∨ _ ∧ (_ → _ → _) ∧ (_ → _ → _)))

/-- With these bytes in front of any stale ones, the member called is one of the table, nothing
behind the bytes is read, relayed bodies are parts of the datagram, and other stale bytes would make
no difference. -/
structure Confined (d : List UInt8) (stRemote : SockAddr) (rcvData : Nat → UInt8) : Prop where
  dispatch : (doRound stRemote d.length).run rcvData ≠ none
  reads : (doRound stRemote d.length).Within rcvData d.length
  bodies : packetType d = puPktHeadTypeRelayData ∨ packetType d = puPktHeadTypeRelayDataEx →
    ∀ sent, (doRound stRemote d.length).run rcvData = some sent →
      ∀ p ∈ sent, p.data.drop 12 <:+: d
  alike : ∀ rcvData', Holds rcvData' d →
    (doRound stRemote d.length).run rcvData' = (doRound stRemote d.length).run rcvData

section
variable {memory : Nat → UInt8} {size : Nat}

theorem within_send (stRemote : SockAddr) (byType byAddrType : UInt8)
    (ulSeq ulSerial uiLen position : Nat) :
    (send stRemote byType byAddrType ulSeq ulSerial uiLen position).Within memory size ↔
      relayPktMaxSize ≤ 12 + uiLen ∨ uiLen = 0 ∨ position + uiLen ≤ size := by
  rw [send, puPacketHeadLen]
  by_cases long : 12 + uiLen ≥ relayPktMaxSize
  · rw [if_pos long]
    exact iff_of_true (Reader.within_done memory size []) (.inl long)
  · rw [if_neg long, Reader.within_bind, Reader.within_bytes]
    simp only [Reader.within_done, and_true]
    omega

theorem within_reply (stRemote : SockAddr) (byType byAddrType : UInt8) (ulSeq ulSerial : Nat)
    (long : 12 ≤ size) :
    (send stRemote byType byAddrType ulSeq ulSerial (size - 12) 12).Within memory size := by
  rw [within_send]
  omega

theorem within_reqEcho (stRemote : SockAddr) (long : 12 ≤ size) :
    (pktHandleReqEcho stRemote size).Within memory size := by
  simp only [pktHandleReqEcho, Reader.within_read, Reader.within_bind, within_bStoLong]
  exact ⟨by omega, by omega, by omega, within_reply _ _ _ _ _ long⟩

theorem within_reqCheckExternalIp (stRemote : SockAddr) (long : 12 ≤ size) :
    (pktHandleReqCheckExternalIp stRemote size).Within memory size := by
  simp only [pktHandleReqCheckExternalIp, Reader.within_read, Reader.within_bind, within_bStoLong,
    Reader.within_done]
  exact ⟨by omega, by omega, by omega, trivial⟩

theorem within_answerRequest (bodyLen : Nat) (byType : UInt8) (stRemote : SockAddr)
    (long : 12 ≤ size) :
    (answerRequest bodyLen (fun stRemote => send stRemote byType) stRemote size).Within
      memory size := by
  rw [answerRequest, Reader.within_bind, within_bStoInt]
  refine ⟨by omega, ?_⟩
  split
  · exact Reader.within_done memory size []
  · rw [Reader.within_read]
    refine ⟨by omega, ?_⟩
    split
    · simp only [Reader.within_bind, within_bStoLong]
      exact ⟨by omega, by omega, within_reply _ _ _ _ _ long⟩
    · exact Reader.within_done memory size []

end

theorem within_nested {d : List UInt8} {rcvData : Nat → UInt8} (stRemote : SockAddr)
    (position : Nat) (inside : position ≤ d.length) :
    (nested send d position stRemote).Within rcvData d.length ↔ Carries d position := by
  rw [nested, within_send, Carries]
  omega

theorem set_at {α : Type} {table : List α} {size : Nat} (length : table.length = size)
    (byType entry : UInt8) (inside : entry.toNat < size) (value : α) :
    (table.set entry.toNat value).length = size ∧
      (table.set entry.toNat value)[byType.toNat]? =
        if byType = entry then some value else table[byType.toNat]? := by
  refine ⟨List.length_set.trans length, ?_⟩
  rw [List.getElem?_set, length, if_pos inside]
  by_cases same : byType = entry
  · rw [if_pos (by rw [same]), if_pos same]
  · rw [if_neg (fun eq => same (UInt8.toNat_inj.mp eq.symm)), if_neg same]

theorem pfFunc_inside (byType : UInt8) (inside : byType ≠ 255) :
    pfFunc[byType.toNat]? =
      if byType = puPktHeadTypeRelayDataEx then some (some pktHandleRelayDataEx)
      else if byType = puPktHeadTypeReqFin then some (some pktHandleReqFin)
      else if byType = puPktHeadTypeReqSyn then some (some pktHandleReqSyn)
      else if byType = puPktHeadTypeReqCheckExternalIp then some (some pktHandleReqCheckExternalIp)
      else if byType = puPktHeadTypeRelayData then some (some pktHandleRelayData)
      else if byType = puPktHeadTypeReqEcho then some (some pktHandleReqEcho)
      else some none := by
  have small : byType.toNat < puPktHeadTypeEnd := by
    have lt := byType.toNat_lt
    have ne : byType.toNat ≠ 255 := fun eq => inside (UInt8.toNat_inj.mp eq)
    rw [puPktHeadTypeEnd]
    omega
  have empty : (List.replicate puPktHeadTypeEnd (none : Option RelayPktFunc))[byType.toNat]? =
      some none := by
    rw [List.getElem?_replicate, if_pos small]
  have length : (List.replicate puPktHeadTypeEnd (none : Option RelayPktFunc)).length =
      puPktHeadTypeEnd := List.length_replicate
  obtain ⟨length, echo⟩ := set_at length byType puPktHeadTypeReqEcho (by decide)
    (some pktHandleReqEcho)
  obtain ⟨length, relay⟩ := set_at length byType puPktHeadTypeRelayData (by decide)
    (some pktHandleRelayData)
  obtain ⟨length, check⟩ := set_at length byType puPktHeadTypeReqCheckExternalIp (by decide)
    (some pktHandleReqCheckExternalIp)
  obtain ⟨length, syn⟩ := set_at length byType puPktHeadTypeReqSyn (by decide)
    (some pktHandleReqSyn)
  obtain ⟨length, fin⟩ := set_at length byType puPktHeadTypeReqFin (by decide)
    (some pktHandleReqFin)
  obtain ⟨-, relayEx⟩ := set_at length byType puPktHeadTypeRelayDataEx (by decide)
    (some pktHandleRelayDataEx)
  rw [pfFunc, relayEx, fin, syn, check, relay, echo, empty]

theorem pfFunc_outside : pfFunc[(255 : UInt8).toNat]? = none := by
  have length : pfFunc.length = puPktHeadTypeEnd := by
    simp only [pfFunc, List.length_set]
    exact List.length_replicate
  rw [List.getElem?_eq_none_iff, length]
  decide

section
variable {rcvData : Nat → UInt8} {d : List UInt8} (holds : Holds rcvData d) (stRemote : SockAddr)
include holds

theorem nested_body {position : Nat} (carries : Carries d position) :
    ∀ p ∈ (nested send d position stRemote).run rcvData, p.data.drop 12 <:+: d := by
  rw [nested, send, puPacketHeadLen]
  intro p member
  split at member
  · cases member
  · rename_i short
    have inside := carries.resolve_left short
    rw [Reader.run_bind, Reader.run_done, run_bytes_holds holds _ _ inside] at member
    obtain rfl := List.mem_singleton.mp member
    rw [List.drop_left' (by simp [PuPacketHead.bytes])]
    exact (List.take_prefix _ _).isInfix.trans (List.drop_suffix _ _).isInfix

theorem doRound_dispatch (long : 12 ≤ d.length) :
    ((doRound stRemote d.length).run rcvData = none ↔ pfFunc[(packetType d).toNat]? = none) ∧
      (pfFunc[(packetType d).toNat]? = some none →
        (doRound stRemote d.length).Within rcvData d.length ∧
          (doRound stRemote d.length).run rcvData = some []) ∧
      ∀ handler, pfFunc[(packetType d).toNat]? = some (some handler) →
        ((doRound stRemote d.length).Within rcvData d.length ↔
          (handler stRemote d.length).Within rcvData d.length) ∧
        (doRound stRemote d.length).run rcvData =
          some ((handler stRemote d.length).run rcvData) := by
  have type : rcvData 0 = packetType d := memory_eq holds 0 (by omega)
  rw [doRound, puPacketHeadLen, if_neg (by omega), Reader.run_read, Reader.within_read, type]
  cases pfFunc[(packetType d).toNat]? with
  | none => exact ⟨iff_of_true rfl rfl, nofun, nofun⟩
  | some entry =>
      cases entry with
      | none =>
          refine ⟨iff_of_false nofun nofun, fun _ => ⟨⟨by omega, ?_⟩, rfl⟩, nofun⟩
          exact Reader.within_done rcvData d.length (some [])
      | some handler =>
          refine ⟨iff_of_false (by simp [Reader.run_bind]) nofun, nofun, ?_⟩
          rintro _ ⟨⟩
          refine ⟨?_, by rw [Reader.run_bind, Reader.run_done]⟩
          rw [Reader.within_bind]
          simp only [Reader.within_done, and_true, and_iff_right_iff_imp]
          omega

theorem pktHandleRelayData_within :
    (pktHandleRelayData stRemote d.length).Within rcvData d.length ↔
      (Relays d → Carries d 20) := by
  rw [pktHandleRelayData, (relayData_nested holds send).1]
  exact forall_congr' fun relays => within_nested _ 20 relays.1

theorem pktHandleRelayData_bodies (carries : Relays d → Carries d 20) :
    ∀ p ∈ (pktHandleRelayData stRemote d.length).run rcvData, p.data.drop 12 <:+: d := by
  rw [pktHandleRelayData, (relayData_nested holds send).2]
  split
  · exact nested_body holds _ (carries ‹_›)
  · exact nofun

theorem pktHandleRelayDataEx_within :
    (pktHandleRelayDataEx stRemote d.length).Within rcvData d.length ↔
      (Relays d → destSize d = 0 ∨ startEx d ≤ d.length ∧ Carries d (startEx d)) := by
  rw [pktHandleRelayDataEx]
  by_cases relays : Relays d
  swap
  · exact iff_of_true (relayDataEx_refused holds send relays).1 (fun holds => absurd holds relays)
  rw [forall_prop_of_true relays, relayDataEx_within holds send relays]
  by_cases none : destSize d = 0
  · exact iff_of_true (.inl none) (.inl none)
  rw [or_iff_right none, or_iff_right none]
  refine and_congr_right fun inside => ?_
  obtain ⟨dst, member⟩ := List.exists_mem_of_length_pos
    (Nat.pos_of_ne_zero ((length_destinations d).symm ▸ none))
  constructor
  · exact fun all => (within_nested dst _ inside).mp (all dst member)
  · exact fun carries dst _ => (within_nested dst _ inside).mpr carries

theorem pktHandleRelayDataEx_bodies (enclosed : Relays d →
      destSize d = 0 ∨ startEx d ≤ d.length ∧ Carries d (startEx d)) :
    ∀ p ∈ (pktHandleRelayDataEx stRemote d.length).run rcvData, p.data.drop 12 <:+: d := by
  rw [pktHandleRelayDataEx]
  by_cases relays : Relays d
  · rw [relayDataEx_run holds send relays]
    intro p member
    obtain ⟨dst, listed, sent⟩ := List.mem_flatMap.mp member
    rcases enclosed relays with none | ⟨inside, carries⟩
    · rw [none] at listed
      cases listed
    · exact nested_body holds dst carries p sent
  · rw [(relayDataEx_refused holds send relays).2]
    exact nofun

end

/-- A member of the table is a relay handler or stays inside every datagram. -/
theorem pfFunc_entry {byType : UInt8} {handler : RelayPktFunc}
    (listed : pfFunc[byType.toNat]? = some (some handler)) :
    byType = puPktHeadTypeRelayDataEx ∧ handler = pktHandleRelayDataEx ∨
      byType = puPktHeadTypeRelayData ∧ handler = pktHandleRelayData ∨
      (byType ≠ puPktHeadTypeRelayDataEx ∧ byType ≠ puPktHeadTypeRelayData ∧
        ∀ stRemote memory size, 12 ≤ size → (handler stRemote size).Within memory size) := by
  by_cases outside : byType = 255
  · rw [outside, pfFunc_outside] at listed
    cases listed
  rw [pfFunc_inside byType outside] at listed
  split_ifs at listed with ex fin syn check relay echo <;> cases listed
  · exact .inl ⟨ex, rfl⟩
  · exact .inr (.inr ⟨ex, by rw [fin]; decide, fun stRemote _ _ long =>
      within_answerRequest puPacketFinBodyLen puPktHeadTypeResFin stRemote long⟩)
  · exact .inr (.inr ⟨ex, by rw [syn]; decide, fun stRemote _ _ long =>
      within_answerRequest puPacketSynBodyLen puPktHeadTypeResSyn stRemote long⟩)
  · exact .inr (.inr ⟨ex, by rw [check]; decide, fun stRemote _ _ long =>
      within_reqCheckExternalIp stRemote long⟩)
  · exact .inr (.inl ⟨relay, rfl⟩)
  · exact .inr (.inr ⟨ex, relay, fun stRemote _ _ long => within_reqEcho stRemote long⟩)

/-- The relay server is confined to a datagram, whatever else its buffer holds, exactly if the
datagram encloses all that it makes the server read. -/
theorem confined_iff (d : List UInt8) :
    (∀ stRemote rcvData, Holds rcvData d → Confined d stRemote rcvData) ↔ Enclosed d := by
  by_cases long : 12 ≤ d.length
  swap
  · have ignored (stRemote : SockAddr) : doRound stRemote d.length = .done (some []) := by
      rw [doRound, puPacketHeadLen, if_pos (by omega)]
    refine iff_of_true (fun stRemote rcvData _ => ⟨?_, ?_, ?_, ?_⟩) (.inl (by omega))
    · rw [ignored]
      exact nofun
    · rw [ignored]
      exact Reader.within_done _ _ _
    · rintro - sent run
      rw [ignored] at run
      obtain rfl := Option.some.inj run
      exact nofun
    · rintro rcvData' -
      rw [ignored]
      rfl
  rw [Enclosed, or_iff_right (by omega)]
  constructor
  · intro all
    have holds : Holds (d.getD · 0) d := fun _ _ => rfl
    obtain ⟨dispatch, reads, -, -⟩ := all ⟨0, 0⟩ _ holds
    obtain ⟨outside, -, listed⟩ := doRound_dispatch holds ⟨0, 0⟩ long
    have inside : packetType d ≠ 255 := by
      intro type
      rw [type, pfFunc_outside] at outside
      exact dispatch (outside.mpr rfl)
    refine ⟨inside, fun relay => ?_, fun relay => ?_⟩
    · have entry := pfFunc_inside _ inside
      rw [relay] at entry listed
      exact (pktHandleRelayData_within holds _).mp (((listed _ entry).1).mp reads)
    · have entry := pfFunc_inside _ inside
      rw [relay] at entry listed
      exact (pktHandleRelayDataEx_within holds _).mp (((listed _ entry).1).mp reads)
  · rintro ⟨inside, relay, relayEx⟩ stRemote rcvData holds
    obtain ⟨outside, unlisted, listed⟩ := doRound_dispatch holds stRemote long
    have called : pfFunc[(packetType d).toNat]? ≠ none := by
      rw [pfFunc_inside _ inside]
      split_ifs <;> exact nofun
    have confined (reads : (doRound stRemote d.length).Within rcvData d.length)
        (bodies : packetType d = puPktHeadTypeRelayData ∨
            packetType d = puPktHeadTypeRelayDataEx →
          ∀ sent, (doRound stRemote d.length).run rcvData = some sent →
            ∀ p ∈ sent, p.data.drop 12 <:+: d) : Confined d stRemote rcvData := by
      refine ⟨mt outside.mp called, reads, bodies, fun rcvData' holds' => ?_⟩
      have same : ∀ i < d.length, rcvData i = rcvData' i :=
        fun i lt => (holds i lt).trans (holds' i lt).symm
      exact (Reader.run_congr same _ reads).1.symm
    cases entry : pfFunc[(packetType d).toNat]? with
    | none => exact absurd entry called
    | some member =>
        cases member with
        | none =>
            obtain ⟨reads, run⟩ := unlisted entry
            refine confined reads fun _ sent sends => ?_
            obtain rfl := Option.some.inj (run.symm.trans sends)
            exact nofun
        | some handler =>
            obtain ⟨reads, run⟩ := listed handler entry
            rcases pfFunc_entry entry with ⟨type, rfl⟩ | ⟨type, rfl⟩ | ⟨notEx, not, within⟩
            · refine confined (reads.mpr ((pktHandleRelayDataEx_within holds _).mpr (relayEx type)))
                fun _ sent sends => ?_
              obtain rfl := Option.some.inj (run.symm.trans sends)
              exact pktHandleRelayDataEx_bodies holds stRemote (relayEx type)
            · refine confined (reads.mpr ((pktHandleRelayData_within holds _).mpr (relay type)))
                fun _ sent sends => ?_
              obtain rfl := Option.some.inj (run.symm.trans sends)
              exact pktHandleRelayData_bodies holds stRemote (relay type)
            · refine confined (reads.mpr (within stRemote rcvData d.length long)) fun types => ?_
              exact absurd types (not_or.mpr ⟨not, notEx⟩)

/-- What a relay server sends for a sequence of enclosed datagrams does not depend on what its buffer
held before. -/
theorem doRounds_alike (datagrams : List (SockAddr × List UInt8))
    (enclosed : ∀ received ∈ datagrams, Enclosed received.2) (rcvData rcvData' : Nat → UInt8) :
    doRounds rcvData datagrams ≠ none ∧
      doRounds rcvData datagrams = doRounds rcvData' datagrams := by
  induction datagrams generalizing rcvData rcvData' with
  | nil => exact ⟨nofun, rfl⟩
  | cons received rest ih =>
      obtain ⟨stRemote, d⟩ := received
      have confined := (confined_iff d).mpr (enclosed _ (List.mem_cons_self ..)) stRemote
        (receive rcvData d) (holds_over rcvData d)
      obtain ⟨called, same⟩ := ih (fun received member =>
        enclosed received (List.mem_cons_of_mem _ member)) (receive rcvData d) (receive rcvData' d)
      rw [doRounds, doRounds, confined.alike (receive rcvData' d) (holds_over rcvData' d), ← same]
      refine ⟨fun outside => ?_, rfl⟩
      obtain ⟨sent, run⟩ := Option.ne_none_iff_exists'.mp confined.dispatch
      rw [run, Option.bind_some] at outside
      exact called (Option.map_eq_none_iff.mp outside)

/-- A relay datagram without a body that says it has one of four bytes. -/
def hollow : List UInt8 := [9, 2, 0, 4] ++ List.replicate 8 0 ++ [8, 2, 127, 0, 0, 1, 4, 0]

/-- Four bytes of what was received before go to the destination. -/
theorem hollow_leaks :
    ¬ ∀ (d : List UInt8) (stRemote : SockAddr) (rcvData : Nat → UInt8), Holds rcvData d →
      Confined d stRemote rcvData := by
  intro all
  have confined := all hollow ⟨0, 0⟩ (hollow.getD · 0) fun _ _ => rfl
  have alike := confined.alike (hollow.getD · 1) (by unfold Holds; decide)
  exact absurd alike (by decide)

end Cgsf.Proof.P2P.CRelaySlave
