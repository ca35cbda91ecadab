import Cgsf.P2P.P2PManager
import Cgsf.Proof.BaseLayer.SFFastCRC

/-!
# Datagrams of the SDL client and server

The two check routines agree when the library starts from 0, and from no other value.
-/

namespace Cgsf.Proof.P2P
open Cgsf.P2P Cgsf.BaseLayer Library Proof.BaseLayer

variable {crc32 : DWORD → List (BitVec 8) → DWORD} {dwCRC : DWORD}

/-! ## The two check routines -/

theorem clientPacketCRC_eq (bytes : List (BitVec 8)) :
    clientPacketCRC bytes = crcFrom crcPolynomial 0 bytes := by
  rw [clientPacketCRC, SFFastCRC.getSimpleCRC, simpleLoop_eq, foldl_do1, crcFrom]
  exact BitVec.xor_allOnes

theorem crcPolynomial_msb : crcPolynomial.msb = true := by decide

/-- A check value that was computed from 0 is found again from no other value. -/
theorem check_iff (running : RunningCRC crc32) (bytes : List (BitVec 8)) :
    SFFastCRC.getZLibCRC crc32 bytes dwCRC = crcFrom crcPolynomial 0 bytes ↔ dwCRC = 0 := by
  rw [SFFastCRC.getZLibCRC, running]
  exact crcFrom_inj crcPolynomial_msb

/-! ## One packet -/

theorem length_putDword (d : DWORD) : (putDword d).length = 4 := rfl

theorem getWord_putWord (w : WORD) (rest : List (BitVec 8)) : getWord (putWord w ++ rest) = w := by
  change w.extractLsb' 8 8 ++ w.extractLsb' 0 8 = w
  apply BitVec.eq_of_getLsbD_eq
  intro i inside
  rw [BitVec.getLsbD_append]
  split
  · rename_i low
    simp [low]
  · rename_i high
    have small : i - 8 < 8 := by omega
    have shifted : 8 + (i - 8) = i := by omega
    simp only [BitVec.getLsbD_extractLsb', small, shifted, decide_true, Bool.true_and]

theorem getDword_putDword (d : DWORD) (rest : List (BitVec 8)) : getDword (putDword d ++ rest) = d := by
  have low : getWord (putDword d ++ rest) = d.extractLsb' 0 16 := by
    rw [putDword, List.append_assoc, getWord_putWord]
  have high : getWord ((putDword d ++ rest).drop 2) = d.extractLsb' 16 16 :=
    getWord_putWord (d.extractLsb' 16 16) rest
  rw [getDword, low, high]
  apply BitVec.eq_of_getLsbD_eq
  intro i inside
  rw [BitVec.getLsbD_append]
  split
  · rename_i low
    simp [low]
  · rename_i high
    have small : i - 16 < 16 := by omega
    have shifted : 16 + (i - 16) = i := by omega
    simp only [BitVec.getLsbD_extractLsb', small, shifted, decide_true, Bool.true_and]

theorem not_lt_minusOne_iff (crc : DWORD) : ¬crc < (-1 : DWORD) ↔ crc = -1 := by
  have top : (-1 : DWORD).toNat = 2 ^ 32 - 1 := rfl
  have bound := crc.isLt
  rw [BitVec.lt_def, ← BitVec.toNat_inj, top]
  omega

/-- The check value that `EncodePacket` writes. -/
def packetCheck (bytes : List (BitVec 8)) : DWORD := crcFrom crcPolynomial 0 (bytes.drop 4)

variable {pData : PData} {pPacket : UDPpacket} {len : Nat}

/-- The bytes that are given to `EncodePacket`. -/
def givenBytes (pData : PData) (pPacket : UDPpacket) (len : Nat) : List (BitVec 8) :=
  (pData.bytes pPacket).take len

theorem encodePacket_check (pData : PData) (pPacket : UDPpacket) (len : Nat) :
    clientPacketCRC (((pData.bytes pPacket).drop 4).take (len - 4)) =
      packetCheck (givenBytes pData pPacket len) := by
  rw [clientPacketCRC_eq, packetCheck, givenBytes, List.drop_take]

/-- Only one of the 2 ^ 32 check values is let through. -/
theorem encodePacket_succeeds_iff : (encodePacket pData pPacket len).1 = true ↔
    packetCheck (givenBytes pData pPacket len) = -1 := by
  rw [encodePacket, encodePacket_check, ← not_lt_minusOne_iff]
  split
  · rename_i less
    exact iff_of_false Bool.false_ne_true (not_not.mpr less)
  · rename_i whole
    cases pData <;> exact iff_of_true rfl whole

/-- A packet that is refused is sent as it was. -/
theorem encodePacket_refused (refused : packetCheck (givenBytes pData pPacket len) ≠ -1) :
    (encodePacket pData pPacket len).2 = pPacket := by
  have less := not_not.mp fun whole => refused ((not_lt_minusOne_iff _).mp whole)
  rw [encodePacket, encodePacket_check, if_pos less]

/-- What is sent after a packet was encoded. -/
theorem encodePacket_datagram (succeeds : packetCheck (givenBytes pData pPacket len) = -1)
    (header : netPacketHeaderSize ≤ len) (has : len ≤ (pData.bytes pPacket).length) :
    (encodePacket pData pPacket len).2.datagram =
      (putDword (-1) ++ (pData.bytes pPacket).drop 4).take
        (if pData = .own then pPacket.len else len) := by
  have header : 8 ≤ len := header
  rw [encodePacket, encodePacket_check, succeeds, if_neg (BitVec.lt_irrefl _)]
  cases pData with
  | own => rfl
  | memory bytes =>
      have has : len ≤ bytes.length := has
      have whole : ((putDword (-1) ++ bytes.drop 4).take len).length = len := by
        rw [List.length_take, List.length_append, length_putDword, List.length_drop]
        omega
      exact List.take_left' whole

theorem take_written (bytes : List (BitVec 8)) (header : netPacketHeaderSize ≤ len) :
    (putDword (-1) ++ bytes.drop 4).take len = putDword (-1) ++ (bytes.take len).drop 4 := by
  have header : 8 ≤ len := header
  have word : (putDword (-1)).length ≤ len := by
    rw [length_putDword]
    omega
  rw [List.take_append, List.take_of_length_le word, length_putDword, List.drop_take]

/-- Exactly which packets the client encodes and the receiver accepts. -/
theorem encodePacket_carries_iff (running : RunningCRC crc32) (allocated : pPacket.Allocated)
    (has : len ≤ (pData.bytes pPacket).length) (header : netPacketHeaderSize ≤ len) :
    ((encodePacket pData pPacket len).1 = true ∧
        Carries crc32 dwCRC (givenBytes pData pPacket len)
          (encodePacket pData pPacket len).2.datagram) ↔
      packetCheck (givenBytes pData pPacket len) = -1 ∧ dwCRC = 0 ∧ netPacketHeaderSize < len ∧
        (pData = .own → pPacket.len = len) := by
  rw [encodePacket_succeeds_iff]
  refine and_congr_right fun succeeds => ?_
  have given : (givenBytes pData pPacket len).length = len := List.length_take_of_le has
  have datagram := encodePacket_datagram succeeds header has
  have length : (encodePacket pData pPacket len).2.datagram.length = len ↔
      (pData = .own → pPacket.len = len) := by
    have header : 8 ≤ len := header
    rw [datagram, List.length_take, List.length_append, length_putDword, List.length_drop]
    by_cases own : pData = .own
    · subst own
      have room := allocated.room
      have inside := allocated.inside
      have size : (PData.own.bytes pPacket).length = pPacket.data.length := rfl
      rw [if_pos rfl, size]
      simp only [true_implies]
      omega
    · rw [if_neg own]
      refine iff_of_true ?_ fun is => absurd is own
      omega
  have sent (own : pData = .own → pPacket.len = len) :
      (encodePacket pData pPacket len).2.datagram =
        putDword (-1) ++ (givenBytes pData pPacket len).drop 4 := by
    have same : (if pData = .own then pPacket.len else len) = len := by
      split
      · rename_i is
        exact own is
      · rfl
    rw [datagram, same, take_written _ header]
    rfl
  have check : checks crc32 dwCRC (putDword (-1) ++ (givenBytes pData pPacket len).drop 4) = true ↔
      netPacketHeaderSize < len ∧ dwCRC = 0 := by
    have size : (putDword (-1) ++ (givenBytes pData pPacket len).drop 4).length = len := by
      have header : 8 ≤ len := header
      rw [List.length_append, length_putDword, List.length_drop, given]
      omega
    have behind : (putDword (-1) ++ (givenBytes pData pPacket len).drop 4).drop 4 =
        (givenBytes pData pPacket len).drop 4 := List.drop_left' (length_putDword _)
    rw [checks, decide_eq_true_eq, size, behind, getDword_putDword, ← succeeds, packetCheck,
      check_iff running]
  constructor
  · intro carries
    have own := length.mp (carries.length.trans given)
    have accepted := carries.accepted
    rw [sent own, check] at accepted
    exact ⟨accepted.2, accepted.1, own⟩
  · rintro ⟨start, long, own⟩
    refine ⟨(length.mpr own).trans given.symm, ?_, ?_⟩
    · rw [sent own]
      exact List.drop_left' (length_putDword _)
    · rw [sent own, check]
      exact ⟨long, start⟩

/-! ## A batch -/

variable {side : Side} {packets : List UDPpacket}

theorem dispatch_valid_iff (running : RunningCRC crc32) {p : UDPpacket} {handler : Handler}
    (valid : ValidFor side p handler) : dispatch side crc32 dwCRC p = some handler ↔ dwCRC = 0 := by
  have checked : checks crc32 dwCRC p.datagram = true ↔ dwCRC = 0 := by
    rw [checks, decide_eq_true_eq, valid.checked, check_iff running, and_iff_right valid.long]
  rw [dispatch]
  by_cases start : dwCRC = 0
  · rw [if_pos ⟨valid.bound, checked.mpr start⟩, valid.known]
    exact iff_of_true rfl start
  · rw [if_neg fun both => start (checked.mp both.2)]
    exact iff_of_false (by simp) start

theorem dispatch_valid {p : UDPpacket} {handler handler' : Handler} (valid : ValidFor side p handler)
    (reaches : dispatch side crc32 dwCRC p = some handler') : handler' = handler := by
  rw [dispatch] at reaches
  split at reaches
  · exact Option.some.inj (reaches.symm.trans valid.known)
  · contradiction

/-- The loop returns from the last packet that passes. -/
theorem mem_dispatchLoop_iff {dwCRC : Nat → DWORD} {k n : Nat} {handler : Handler} :
    (n, handler) ∈ dispatchLoop side crc32 dwCRC packets k ↔
      n < k ∧ packets[n]?.bind (dispatch side crc32 (dwCRC n)) = some handler ∧
        ∀ m, n < m → m < k → packets[m]?.bind (dispatch side crc32 (dwCRC m)) = none := by
  induction k with
  | zero => simp [dispatchLoop]
  | succ k ih =>
      rw [dispatchLoop]
      split
      · rename_i other passes
        rw [List.mem_singleton, Prod.mk.injEq]
        constructor
        · rintro ⟨rfl, rfl⟩
          exact ⟨Nat.lt_succ_self n, passes, fun m above below => absurd above (by omega)⟩
        · rintro ⟨below, reaches, last⟩
          rcases Nat.lt_succ_iff_lt_or_eq.mp below with less | rfl
          · rw [last k less (Nat.lt_succ_self k)] at passes
            contradiction
          · exact ⟨rfl, Option.some.inj (reaches.symm.trans passes)⟩
      · rename_i fails
        rw [ih]
        constructor
        · rintro ⟨below, reaches, last⟩
          refine ⟨Nat.lt_succ_of_lt below, reaches, fun m above less => ?_⟩
          rcases Nat.lt_succ_iff_lt_or_eq.mp less with less | rfl
          · exact last m above less
          · exact fails
        · rintro ⟨below, reaches, last⟩
          rcases Nat.lt_succ_iff_lt_or_eq.mp below with less | rfl
          · exact ⟨less, reaches, fun m above below => last m above (Nat.lt_succ_of_lt below)⟩
          · rw [fails] at reaches
            contradiction

theorem dispatchLoop_length_le (dwCRC : Nat → DWORD) (k : Nat) :
    (dispatchLoop side crc32 dwCRC packets k).length ≤ 1 := by
  induction k with
  | zero => exact Nat.zero_le 1
  | succ k ih =>
      rw [dispatchLoop]
      split
      · exact le_refl 1
      · exact ih

theorem filter_dispatchLoop_iff {dwCRC : Nat → DWORD} {k n : Nat} {handler : Handler} :
    ((dispatchLoop side crc32 dwCRC packets k).filter fun h => h.1 = n) = [(n, handler)] ↔
      (n, handler) ∈ dispatchLoop side crc32 dwCRC packets k := by
  have short : (dispatchLoop side crc32 dwCRC packets k).length ≤ 1 := dispatchLoop_length_le dwCRC k
  generalize dispatchLoop side crc32 dwCRC packets k = handled at short
  match handled, short with
  | [], _ => simp
  | [(m, other)], _ =>
      rw [List.mem_singleton, List.filter_cons, List.filter_nil]
      by_cases same : m = n
      · simp [same, eq_comm]
      · simp [same, Ne.symm same]

/-- Of a batch only what is looked at first is handled, and only when the library starts from 0. -/
theorem handlesEach_iff (running : RunningCRC crc32) {allocated : Bool} {dwCRC : Nat → DWORD} :
    HandlesEach side allocated crc32 dwCRC packets ↔ allocated = true ∧
      ∀ n p handler, packets[n]? = some p → ValidFor side p handler → dwCRC n = 0 ∧
        ∀ m q, n < m → packets[m]? = some q → dispatch side crc32 (dwCRC m) q = none := by
  rw [HandlesEach, handleReceived]
  cases allocated with
  | false => simp
  | true =>
      simp only [if_true, Option.some.injEq, exists_eq_left', true_and]
      refine forall_congr' fun n => forall_congr' fun p => forall_congr' fun handler =>
        forall_congr' fun there => forall_congr' fun valid => ?_
      have inside : n < packets.length := (List.getElem?_eq_some_iff.mp there).1
      rw [filter_dispatchLoop_iff, mem_dispatchLoop_iff, and_iff_right inside, there,
        Option.bind_some, dispatch_valid_iff running valid]
      refine and_congr_right fun _ => forall_congr' fun m => ?_
      constructor
      · intro fails q above is
        have none := fails above (List.getElem?_eq_some_iff.mp is).1
        rwa [is] at none
      · intro fails above below
        rw [List.getElem?_eq_getElem below]
        exact fails _ above (List.getElem?_eq_getElem below)

/-! ## Both programs -/

theorem processPublicIP_not_sent {externalAdress : IPaddress} {padding : WORD × WORD}
    {datagram : List (BitVec 8)} :
    processPublicIP crc32 externalAdress padding ≠ .sent datagram := by
  rw [processPublicIP]
  split <;> simp

theorem datagrams_agree_iff (running : RunningCRC crc32) :
    (∀ pData pPacket len dwCRC, pPacket.Allocated → len ≤ (pData.bytes pPacket).length →
      netPacketHeaderSize ≤ len → len ≤ maxSdlP2PPacketSize →
        (((encodePacket pData pPacket len).1 = true ∧
            Carries crc32 dwCRC (givenBytes pData pPacket len)
              (encodePacket pData pPacket len).2.datagram) ↔
          packetCheck (givenBytes pData pPacket len) = -1 ∧ dwCRC = 0 ∧ netPacketHeaderSize < len ∧
            (pData = .own → pPacket.len = len))) ∧
      (∀ externalAdress padding dwCRC, ¬∃ datagram,
        processPublicIP crc32 externalAdress padding = .sent datagram ∧
          Carries crc32 dwCRC (putDword 0 ++ publicIPBody externalAdress padding) datagram) ∧
      ∀ side allocated dwCRC packets, HandlesEach side allocated crc32 dwCRC packets ↔
        allocated = true ∧ ∀ n p handler, packets[n]? = some p → ValidFor side p handler →
          dwCRC n = 0 ∧ ∀ m q, n < m → packets[m]? = some q →
            dispatch side crc32 (dwCRC m) q = none := by
  refine ⟨?_, ?_, ?_⟩
  · intro pData pPacket len dwCRC allocated has header _
    exact encodePacket_carries_iff running allocated has header
  · rintro externalAdress padding dwCRC ⟨datagram, sent, -⟩
    exact processPublicIP_not_sent sent
  · intro side allocated dwCRC packets
    exact handlesEach_iff running

/-- A ping that is refused goes out as what the packet held before. -/
theorem sendUDPPingPongPacket_stale {garbage : DWORD × WORD} {sendTime : DWORD}
    (refused : packetCheck (pingPongBytes garbage udpPktPingPongReq sendTime) ≠ -1) :
    sendUDPPingPongPacket garbage sendTime pPacket = pPacket :=
  encodePacket_refused refused

/-- An answer that is refused keeps the check value of the request. -/
theorem processPingPongReq_stale (refused : packetCheck ((pPacket.data.take 4 ++
      putWord udpPktPingPongRes ++ pPacket.data.drop 6).take pPacket.len) ≠ -1)
    (header : 4 ≤ pPacket.data.length) :
    (processPingPongReq pPacket).data.take 4 = pPacket.data.take 4 := by
  have stale := @encodePacket_refused .own { pPacket with
    data := pPacket.data.take 4 ++ putWord udpPktPingPongRes ++ pPacket.data.drop 6 } _ refused
  rw [processPingPongReq, stale]
  dsimp only
  rw [List.append_assoc, List.take_append_of_le_length (by rw [List.length_take]; omega),
    List.take_take, min_self]

def freshPacket : UDPpacket := ⟨0, List.replicate 1024 0, 0, ⟨0, 0⟩⟩

theorem freshPacket_allocated : freshPacket.Allocated :=
  ⟨List.length_replicate, Nat.zero_le _⟩

/-- One send time in 2 ^ 32 gives the check value that is let through. -/
def luckyPing : PData := .memory (pingPongBytes (0, 0) udpPktPingPongReq 1698643942)

set_option maxRecDepth 20000 in
theorem luckyPing_encoded : (encodePacket luckyPing freshPacket 12).1 = true ∧
    Carries (crcFrom crcPolynomial) 0 (givenBytes luckyPing freshPacket 12)
      (encodePacket luckyPing freshPacket 12).2.datagram :=
  ((datagrams_agree_iff fun _ _ => rfl).1 _ freshPacket 12 0 freshPacket_allocated (by decide)
    (by decide) (by decide)).mpr ⟨by decide, rfl, by decide, fun own => by cases own⟩

def unencodedPing : List (BitVec 8) := pingPongBytes (0, 0) udpPktPingPongReq 0

/-- A ping that carries its check value. -/
def validPing : UDPpacket :=
  ⟨0, putDword (packetCheck unencodedPing) ++ unencodedPing.drop 4, 12, ⟨0, 0⟩⟩

set_option maxRecDepth 20000 in
/-- Every other packet is refused, and two that are valid are not both handled. -/
theorem pingPong_refused : (encodePacket (.memory unencodedPing) freshPacket 12).1 = false ∧
    ∃ ping : UDPpacket, ValidFor .client ping .pingPongReq ∧
      ¬HandlesEach .client true (crcFrom crcPolynomial) (fun _ => 0) [ping, ping] := by
  have valid : ValidFor .client validPing .pingPongReq :=
    ⟨by decide, by decide, by decide, by decide⟩
  refine ⟨by decide, validPing, valid, ?_⟩
  rintro ⟨handled, result, each⟩
  have first := each 0 _ .pingPongReq rfl valid
  rw [handleReceived, if_pos rfl] at result
  obtain rfl := Option.some.inj result
  revert first
  decide

end Cgsf.Proof.P2P
