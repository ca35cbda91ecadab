import Cgsf.P2P.RelayDataEx
import Cgsf.Proof.P2P.Amplification

/-!
# A packet of several destinations and the relay that receives it
-/

namespace Cgsf.Proof.P2P
open Cgsf.P2P Library

/-! ## The fields of the packet -/

theorem field_append {front word rest : List UInt8} {position width n : Nat}
    (before : front.length = position) (lt : n < 256 ^ width) (word_eq : word = beBytes width n) :
    field (front ++ (word ++ rest)) position width = n := by
  rw [field, field_of_append front word rest position width before (by rw [word_eq, beBytes_length]),
    word_eq, beValue_beBytes_of_lt width n lt]

namespace RelayRequest

variable (request : RelayRequest)

theorem length_stHd : request.stHd.length = 15 := by
  simp [RelayRequest.stHd, PuPacketHead.bytes]

theorem length_stDestHead :
    request.stDestHead.length = 6 * request.vectorStDstRemote.length := by
  rw [RelayRequest.stDestHead]
  induction request.vectorStDstRemote with
  | nil => rfl
  | cons dst dests ih =>
      rw [List.flatMap_cons, List.length_append, ih, List.length_append, beBytes_length,
        beBytes_length, List.length_cons]
      omega

/-- The buffer has room for 252 destinations. -/
theorem byDestHead_isSome :
    request.byDestHead.isSome ↔ request.vectorStDstRemote.length ≤ 252 := by
  rw [RelayRequest.byDestHead, Option.isSome_ite, length_stHd, length_stDestHead,
    puPacketRelayDestHeadExLen, puPeersMaxCount]
  omega

def packet : List UInt8 := request.stHd ++ request.stDestHead ++ request.pbyBuff

theorem length_packet : (packet request).length =
    15 + 6 * request.vectorStDstRemote.length + request.pbyBuff.length := by
  rw [packet, List.length_append, List.length_append, length_stHd, length_stDestHead]

theorem packet_len : field (packet request) 2 2 = request.pbyBuff.length := by
  rw [packet, RelayRequest.stHd, PuPacketHead.bytes]
  simp only [List.append_assoc]
  exact field_append rfl request.uiLen rfl

theorem packet_seq : field (packet request) 4 4 = request.ulSeq.toNat := by
  rw [packet, RelayRequest.stHd, PuPacketHead.bytes]
  simp only [List.append_assoc]
  rw [← List.append_assoc [_, _]]
  exact field_append rfl request.ulSeq.toNat_lt rfl

theorem packet_serial : field (packet request) 8 4 = request.ulSerial.toNat := by
  rw [packet, RelayRequest.stHd, PuPacketHead.bytes]
  simp only [List.append_assoc]
  rw [← List.append_assoc [_, _], ← List.append_assoc (_ ++ _)]
  exact field_append rfl request.ulSerial.toNat_lt rfl

theorem packet_getD (i : Nat) (below : i < 3) : (packet request).getD (12 + i) 0 =
    [request.enumType, request.enumAddrType,
      UInt8.ofNat request.vectorStDstRemote.length].getD i 0 := by
  have length : (PuPacketHead.mk puPktHeadTypeRelayDataEx puPeerAddrTypeRelay request.pbyBuff.length
      request.ulSeq.toNat request.ulSerial.toNat).bytes.length = 12 := by
    simp [PuPacketHead.bytes]
  rw [packet, RelayRequest.stHd, List.append_assoc, List.append_assoc, ← length,
    List.getD_append_right _ _ _ _ (by omega), Nat.add_sub_cancel_left,
    List.getD_append _ _ _ _ (by simpa using below)]

theorem packet_destSize : destSize (packet request) = request.vectorStDstRemote.length := by
  have few := request.few
  rw [puPeersMaxCount] at few
  rw [destSize, packet_getD request 2 (by omega)]
  exact UInt8.toNat_ofNat_of_lt' (Nat.lt_succ_of_lt few)

theorem packet_drop (i : Nat) : (packet request).drop (15 + 6 * i) =
    ((request.vectorStDstRemote.drop i).flatMap fun dst =>
      beBytes 4 dst.addr ++ beBytes 2 dst.port) ++
    request.pbyBuff.drop (6 * (i - request.vectorStDstRemote.length)) := by
  have rows : request.stDestHead.drop (6 * i) =
      (request.vectorStDstRemote.drop i).flatMap fun dst =>
        beBytes 4 dst.addr ++ beBytes 2 dst.port :=
    drop_flatMap request.vectorStDstRemote (fun dst _ => by simp) i
  rw [packet, List.append_assoc, ← List.drop_drop, List.drop_left' (length_stHd request),
    List.drop_append, length_stDestHead, ← Nat.mul_sub, rows]

/-- The relay reads the destinations of the list. -/
theorem destinations_packet : destinations (packet request) = request.vectorStDstRemote := by
  refine List.ext_getElem ((length_destinations _).trans (packet_destSize request)) ?_
  intro i left right
  have here := packet_drop request i
  obtain ⟨addr, port⟩ := request.wide _ (List.getElem_mem right)
  rw [List.drop_eq_getElem_cons right, List.flatMap_cons] at here
  simp only [destinations, List.getElem_map, List.getElem_range]
  generalize request.vectorStDstRemote[i] = dst at here addr port ⊢
  have read_addr : field (packet request) (15 + 6 * i) 4 = dst.addr := by
    rw [field, here, List.append_assoc, List.append_assoc, List.take_left' (beBytes_length 4 _),
      beValue_beBytes_of_lt 4 _ addr]
  have read_port : field (packet request) (19 + 6 * i) 2 = dst.port := by
    rw [field, show 19 + 6 * i = 15 + 6 * i + 4 by omega, ← List.drop_drop, here,
      List.append_assoc, List.append_assoc, List.drop_left' (beBytes_length 4 _),
      List.take_left' (beBytes_length 2 _), beValue_beBytes_of_lt 2 _ port]
  rw [read_addr, read_port]

theorem packet_body : (packet request).drop (startEx (packet request)) = request.pbyBuff := by
  rw [startEx, packet_destSize, Nat.add_comm, packet_drop, List.drop_length, Nat.sub_self]
  rfl

/-! ## What a relay makes of it -/

theorem packet_admitted (relay : Relay)
    (takes : relay.Takes request.ulSerial request.pbyBuff.length) :
    Relay.Admits relay (packet request) := by
  cases relay with
  | slave => trivial
  | peers c => exact (packet_serial request).trans takes.1.symm

section
variable {memory : Nat → UInt8} (holds : Holds memory (packet request)) (relay : Relay)
  (takes : relay.Takes request.ulSerial request.pbyBuff.length)
include holds takes

theorem nested_packet (dst : SockAddr) :
    (nested (Relay.sender relay) (packet request) (startEx (packet request)) dst).run memory =
      [⟨relay.remote dst, (PuPacketHead.mk request.enumType request.enumAddrType
        request.pbyBuff.length request.ulSeq.toNat request.ulSerial.toNat).bytes ++
          request.pbyBuff⟩] := by
  have type : (packet request).getD 12 0 = request.enumType := packet_getD request 0 (by omega)
  have addrType : (packet request).getD 13 0 = request.enumAddrType :=
    packet_getD request 1 (by omega)
  have inside : startEx (packet request) + request.pbyBuff.length ≤ (packet request).length := by
    rw [startEx, packet_destSize, length_packet]
    omega
  have body : (Reader.bytes (startEx (packet request)) request.pbyBuff.length).run memory =
      request.pbyBuff := by
    rw [run_bytes_holds holds _ _ inside, packet_body, List.take_length]
  rw [nested, type, addrType, packet_seq, packet_serial, packet_len]
  cases relay with
  | slave =>
      rw [Relay.sender, CRelaySlave.send, if_neg (Nat.not_le.mpr takes), Reader.run_bind, body]
      rfl
  | peers c =>
      rw [Relay.sender, CCtrlPeers.sendToPeer, CCtrlPeers.send, if_neg (Nat.not_le.mpr takes.2),
        Reader.run_bind, body, takes.1]
      rfl

/-- A packet too short for the handler has no destinations. -/
theorem run_packet : (relay.pktHandleRelayDataEx (packet request).length).run memory =
    request.forwarded relay := by
  have length := length_packet request
  have type : (packet request).getD 12 0 = request.enumType := packet_getD request 0 (by omega)
  rw [Relay.pktHandleRelayDataEx_run relay holds (by omega)]
  by_cases long : 20 ≤ (packet request).length
  · have relays : Relays (packet request) := ⟨long, by rw [type]; exact request.nested⟩
    have inside : startEx (packet request) ≤ (packet request).length := by
      rw [startEx, packet_destSize]
      omega
    rw [if_pos ⟨packet_admitted request relay takes, relays⟩, destHeads_destinations holds inside,
      destinations_packet, RelayRequest.forwarded]
    simp only [nested_packet request holds relay takes]
    exact List.map_eq_flatMap.symm
  · have none : request.vectorStDstRemote = [] :=
      List.eq_nil_of_length_eq_zero (by omega)
    rw [if_neg (fun both => long both.2.1), RelayRequest.forwarded, none, List.map_nil]

end

/-- The destinations reach exactly their relays where there are at most 252 of them. -/
theorem relayed_iff (request : RelayRequest) (ulMaxSndPktLen : Nat) (stRemote : SockAddr) :
    request.Relayed ulMaxSndPktLen stRemote ↔ request.vectorStDstRemote.length ≤ 252 := by
  rw [← byDestHead_isSome]
  constructor
  · rintro ⟨sent, built, -⟩
    rw [CCtrlPeers.sendRelayDataEx, Option.map_eq_some_iff] at built
    obtain ⟨head, some, -⟩ := built
    rw [some, Option.isSome_some]
  · intro room
    obtain ⟨head, some⟩ := Option.isSome_iff_exists.mp room
    have head_eq : head = request.stHd ++ request.stDestHead := by
      rw [RelayRequest.byDestHead] at some
      exact (Option.some.inj (Option.ite_none_right_eq_some.mp some).2).symm
    refine ⟨_, by rw [CCtrlPeers.sendRelayDataEx, some, Option.map_some], fun p member => ?_⟩
    split at member
    · cases member
    obtain rfl := List.mem_singleton.mp member
    subst head_eq
    refine ⟨rfl, packet_destSize request, fun relay rcvData takes => ?_⟩
    exact run_packet request (holds_over rcvData (packet request)) relay takes

def crowded : RelayRequest where
  vectorStDstRemote := List.replicate 253 ⟨1, 1⟩
  ulSeq := 1
  ulSerial := 1
  pbyBuff := []
  few := by rw [List.length_replicate]; decide
  wide := fun dst member => by rw [List.eq_of_mem_replicate member]; decide
  nested := by decide
  uiLen := by decide

set_option maxRecDepth 20000 in
/-- The head and 253 destinations are three bytes longer than `byDestHead`. -/
theorem crowded_overflows : ¬ ∀ (request : RelayRequest) (ulMaxSndPktLen : Nat)
    (stRemote : SockAddr), request.Relayed ulMaxSndPktLen stRemote := by
  intro all
  obtain ⟨sent, built, -⟩ := all crowded 1500 ⟨2, 2⟩
  have overflows : CCtrlPeers.sendRelayDataEx 1500 ⟨2, 2⟩ crowded = none := by decide
  rw [overflows] at built
  cases built

end RelayRequest

end Cgsf.Proof.P2P
