import Cgsf.P2P.RelayDataEx

/-!
# Dividing the work of relaying
-/

namespace Cgsf.Proof.P2P
open Cgsf.Library Cgsf.P2P

/-! ## Sizes and positions -/

theorem ulongSub_of_le {a b : Nat} (fits : a < 2 ^ 32) (le : b ≤ a) : ulongSub a b = a - b := by
  rw [ulongSub]
  omega

theorem ulDivSize_eq {d r : Nat} (above : 0 < d) (positive : 0 < r) (left : d < 2 ^ 22)
    (right : r < 2 ^ 22) : ulDivSize d r = (2 * d + r) / (2 * r) := by
  rw [ulDivSize, roundBinary_natCast above (by omega), roundBinary_natCast positive (by omega)]
  exact floor_roundBinary_div above positive left right

section Positions

variable {d size uli : Nat} (short : d < 2 ^ 22) (within : uli * size ≤ d)
include short within

theorem relaySize_eq : relaySize d size uli = min size (d - uli * size) := by
  rw [relaySize, Nat.mod_eq_of_lt (by omega), ulongSub_of_le (by omega) within]
  simp only [gt_iff_lt]
  split_ifs <;> omega

/-- A shorter last share is not read from where the share before it ends. -/
theorem relayPositions_eq : relayPositions d size uli =
    List.range' (uli * min size (d - uli * size)) (min size (d - uli * size)) := by
  have share : uli * min size (d - uli * size) ≤ uli * size := by
    gcongr
    exact min_le_left ..
  rw [relayPositions, relaySize_eq short within, Nat.mod_eq_of_lt (by omega)]

theorem lt_of_mem_relayPositions {i : Nat} (member : i ∈ relayPositions d size uli) :
    i < d ∧ i < (uli + 1) * size := by
  rw [relayPositions_eq short within, List.mem_range'_1] at member
  obtain ⟨-, below⟩ := member
  have share : uli * min size (d - uli * size) ≤ uli * size := by
    gcongr
    exact min_le_left ..
  rw [Nat.succ_mul]
  omega

end Positions

theorem flatMap_range' (size count : Nat) :
    ((List.range count).flatMap fun uli => List.range' (uli * size) size) =
      List.range (count * size) := by
  induction count with
  | zero => simp
  | succ count ih =>
      rw [List.range_succ, List.flatMap_append, ih, List.flatMap_singleton, Nat.succ_mul,
        List.range_add, ← List.range'_eq_map_range]

/-! ## When the shares fit -/

/-- The shares are whole for each relay, or for all but the last, which has none. -/
def Shared (d r : Nat) : Prop := r ∣ d ∨ (r - 1) ∣ d ∧ 2 * d ≤ r * (r - 1)

instance (d r : Nat) : Decidable (Shared d r) := inferInstanceAs (Decidable (_ ∨ _))

section Shares

variable {d r : Nat} (above : 0 < d) (positive : 0 < r) (left : d < 2 ^ 22) (right : r < 2 ^ 22)
include above positive left right

theorem ulDivSize_of_shared (shared : Shared d r) :
    ulDivSize d r * r = d ∨ ulDivSize d r * (r - 1) = d := by
  rw [ulDivSize_eq above positive left right]
  rcases shared with ⟨share, rfl⟩ | ⟨⟨share, rfl⟩, most⟩
  · left
    have quotient : (2 * (r * share) + r) / (2 * r) = share :=
      Nat.div_eq_of_lt_le (by linarith) (by linarith)
    rw [quotient, Nat.mul_comm]
  · right
    obtain ⟨r, rfl⟩ := Nat.exists_eq_succ_of_ne_zero positive.ne'
    rw [Nat.succ_sub_one] at above most ⊢
    have r_pos : 0 < r := Nat.pos_of_mul_pos_right above
    have least : 2 * share ≤ r + 1 := by
      have scaled : r * (2 * share) ≤ r * (r + 1) := by linarith
      exact Nat.le_of_mul_le_mul_left scaled r_pos
    have quotient : (2 * (r * share) + (r + 1)) / (2 * (r + 1)) = share :=
      Nat.div_eq_of_lt_le (by linarith) (by linarith)
    rw [quotient, Nat.mul_comm]

omit above positive right in
theorem flatMap_relayPositions {size count : Nat} (whole : count * size = d) :
    (List.range count).flatMap (relayPositions d size) = List.range d := by
  rw [← whole, ← flatMap_range', whole]
  refine List.flatMap_congr ?_
  intro uli member
  have share : (uli + 1) * size ≤ d := by
    rw [← whole]
    gcongr
    exact List.mem_range.mp member
  have fits : size ≤ d - uli * size := by
    rw [Nat.succ_mul] at share
    omega
  rw [relayPositions_eq left (by rw [Nat.succ_mul] at share; omega), min_eq_left fits]

theorem positions_of_shared (shared : Shared d r) :
    (∀ uli < r, uli * ulDivSize d r ≤ d) ∧
      (List.range r).flatMap (relayPositions d (ulDivSize d r)) = List.range d := by
  rcases ulDivSize_of_shared above positive left right shared with whole | whole
  · rw [Nat.mul_comm] at whole
    refine ⟨?_, flatMap_relayPositions left whole⟩
    intro uli below
    calc uli * ulDivSize d r ≤ r * ulDivSize d r := by gcongr
      _ = d := whole
  · rw [Nat.mul_comm] at whole
    have within : ∀ uli < r, uli * ulDivSize d r ≤ d := by
      intro uli below
      calc uli * ulDivSize d r ≤ (r - 1) * ulDivSize d r := by
            gcongr
            omega
        _ = d := whole
    refine ⟨within, ?_⟩
    have none : relayPositions d (ulDivSize d r) (r - 1) = [] := by
      rw [relayPositions_eq left (within (r - 1) (by omega)), whole, Nat.sub_self, Nat.min_zero]
      rfl
    obtain ⟨count, rfl⟩ := Nat.exists_eq_succ_of_ne_zero positive.ne'
    rw [Nat.succ_sub_one] at none whole
    rw [List.range_succ, List.flatMap_append, flatMap_relayPositions left whole,
      List.flatMap_singleton, none, List.append_nil]

/-- The last destination is read by a relay with a whole share, or nothing is left for the last
relay. -/
theorem shared_of_last (within : ∀ uli < r, uli * ulDivSize d r ≤ d)
    (last : d - 1 ∈ (List.range r).flatMap (relayPositions d (ulDivSize d r))) : Shared d r := by
  obtain ⟨uli, known, member⟩ := List.mem_flatMap.mp last
  have below := List.mem_range.mp known
  have size_eq := ulDivSize_eq above positive left right
  generalize ulDivSize d r = size at within member size_eq
  obtain ⟨count, rfl⟩ := Nat.exists_eq_succ_of_ne_zero positive.ne'
  have all := within count (by omega)
  obtain ⟨-, inside⟩ := lt_of_mem_relayPositions left (within uli below) member
  by_cases final : uli = count
  · subst final
    left
    rw [relayPositions_eq left all, List.mem_range'_1] at member
    rcases le_or_gt size (d - uli * size) with whole | partly
    · rw [min_eq_left whole] at member
      rw [Nat.succ_mul] at inside
      exact ⟨size, by rw [Nat.succ_mul]; omega⟩
    · rw [min_eq_right partly.le] at member
      -- the last share is read `uli` destinations too early at least
      have early : uli * (d - uli * size) + uli ≤ uli * size := by
        calc uli * (d - uli * size) + uli = uli * (d - uli * size + 1) := (Nat.mul_succ ..).symm
          _ ≤ uli * size := by gcongr; omega
      obtain rfl : uli = 0 := by omega
      exact one_dvd d
  · have earlier : (uli + 1) * size ≤ count * size := by
      gcongr
      omega
    have whole : count * size = d := by omega
    right
    rw [Nat.succ_sub_one]
    refine ⟨⟨size, whole.symm⟩, ?_⟩
    have lower : size * (2 * (count + 1)) ≤ 2 * d + (count + 1) := by
      rw [size_eq]
      exact Nat.div_mul_le_self _ _
    rw [← whole] at lower ⊢
    nlinarith

end Shares

/-! ## The packets -/

open PeerTable in
theorem relayPackets_append (sends later : List PeerSend) :
    relayPackets (sends ++ later) = relayPackets sends ++ relayPackets later :=
  List.filterMap_append ..

theorem relayPackets_map {α : Type} (l : List α) (remote : α → SockAddr)
    (dests : α → List CPeerInfoNode) (ulSeq : UInt32) :
    PeerTable.relayPackets (l.map fun x => .relayDataEx (remote x) (dests x) ulSeq) =
      l.map fun x => (remote x, (dests x).map (·.byIndex)) := by
  induction l with
  | nil => rfl
  | cons x l ih =>
      rw [List.map_cons, List.map_cons, ← ih]
      rfl

/-- The walk sends no packet to a relay, and collects whom it needs one for. -/
theorem foldl_visit (iDataType : UInt32) (peers : List CPeerInfoNode) (pass : DataPass) :
    (peers.foldl (DataPass.visit iDataType) pass).vectorRelayDestPeer =
        pass.vectorRelayDestPeer ++ (peers.filter fun peer =>
          iDataType &&& peer.dataType ≠ 0 ∧ peer.connFlagL = false ∧
            peer.connFlagE2 = false).map (·.incSeq) ∧
      PeerTable.relayPackets (peers.foldl (DataPass.visit iDataType) pass).sends =
        PeerTable.relayPackets pass.sends := by
  induction peers generalizing pass with
  | nil => simp
  | cons peer peers ih =>
      obtain ⟨dests, packets⟩ := ih (pass.visit iDataType peer)
      rw [List.foldl_cons, dests, packets, DataPass.visit]
      by_cases typed : iDataType &&& peer.dataType ≠ 0
      · cases localFlag : peer.connFlagL with
        | true => simp [typed, localFlag, CPeerInfoNode.incSeq, PeerTable.relayPackets]
        | false =>
            cases externalFlag : peer.connFlagE2 with
            | true =>
                simp [typed, localFlag, externalFlag, CPeerInfoNode.incSeq,
                  PeerTable.relayPackets]
            | false => simp [typed, localFlag, externalFlag, CPeerInfoNode.incSeq]
      · simp [typed]

theorem mapM_of_forall {α β : Type} {f : α → Option β} {g : α → β} {l : List α}
    (all : ∀ x ∈ l, f x = some (g x)) : l.mapM f = some (l.map g) := by
  induction l with
  | nil => rfl
  | cons x l ih =>
      obtain ⟨first, rest⟩ := List.forall_mem_cons.mp all
      rw [List.mapM_cons, first, ih rest]
      rfl

section Table

variable (table : PeerTable) (iDataType : UInt32)

def destIndices : List UInt8 := (table.needRelay iDataType).map (·.byIndex)

theorem pass_indices : ((table.peers.foldl (DataPass.visit iDataType) {}).vectorRelayDestPeer).map
    (·.byIndex) = destIndices table iDataType := by
  rw [(foldl_visit iDataType table.peers {}).1, List.nil_append, List.map_map]
  rfl

theorem pass_length : (table.peers.foldl (DataPass.visit iDataType) {}).vectorRelayDestPeer.length =
    (table.needRelay iDataType).length := by
  have indices := congrArg List.length (pass_indices table iDataType)
  simpa [destIndices] using indices

theorem length_needRelay : (table.needRelay iDataType).length < puPeersMaxCount :=
  (List.length_filter_le _ _).trans_lt table.within

theorem length_relayAble : table.relayAble.length < puPeersMaxCount :=
  (List.length_filter_le _ _).trans_lt table.within

theorem destIndices_nodup : (destIndices table iDataType).Nodup :=
  table.unique.sublist (List.filter_sublist.map _)

variable {table iDataType} {first : Bool}

theorem divideRelay_spec {relays dests : List CPeerInfoNode} (ulSeq : UInt32)
    (short : dests.length < 2 ^ 22)
    (within : ∀ uli < relays.length, uli * ulDivSize dests.length relays.length ≤ dests.length) :
    CCtrlPeers.divideRelay relays dests ulSeq =
      some (relays.zipIdx.map fun (relay, uli) => .relayDataEx relay.remoteE
        ((relayPositions dests.length (ulDivSize dests.length relays.length) uli).map
          fun i => dests.getD i {}) ulSeq) := by
  apply mapM_of_forall
  rintro ⟨relay, uli⟩ member
  have below : uli < relays.length := List.snd_lt_of_mem_zipIdx member
  have copied : (relayPositions dests.length (ulDivSize dests.length relays.length) uli).mapM
      (dests[·]?) = some ((relayPositions dests.length
        (ulDivSize dests.length relays.length) uli).map fun i => dests.getD i {}) := by
    apply mapM_of_forall
    intro i member
    have inside := (lt_of_mem_relayPositions short (within uli below) member).1
    rw [List.getD_eq_getElem _ _ inside, List.getElem?_eq_getElem inside]
  simp only [copied]
  rfl

/-- What the peers that relay are sent, destination by destination. -/
theorem tryDataForPeersEx_divided (divided : table.Divided first)
    (some_need : table.needRelay iDataType ≠ [])
    (within : ∀ uli < table.relayAble.length,
      uli * ulDivSize (table.needRelay iDataType).length table.relayAble.length ≤
        (table.needRelay iDataType).length) :
    ∃ outcome, CCtrlPeers.tryDataForPeersEx table.peers first iDataType = some outcome ∧
      (PeerTable.relayPackets outcome.1).map (·.1) = table.relayAble.map (·.remoteE) ∧
      (PeerTable.relayPackets outcome.1).flatMap (·.2) =
        ((List.range table.relayAble.length).flatMap
          (relayPositions (table.needRelay iDataType).length
            (ulDivSize (table.needRelay iDataType).length table.relayAble.length))).map
          fun i => (destIndices table iDataType).getD i 0 := by
  have lengths := pass_length table iDataType
  have indices := pass_indices table iDataType
  have packets := (foldl_visit iDataType table.peers {}).2
  have short := length_needRelay table iDataType
  simp only [puPeersMaxCount] at short
  rw [CCtrlPeers.tryDataForPeersEx]
  generalize table.peers.foldl (DataPass.visit iDataType) {} = pass at lengths indices packets
  have dests : pass.vectorRelayDestPeer ≠ [] := by
    rw [← List.length_pos_iff, lengths, List.length_pos_iff]
    exact some_need
  rw [if_neg dests, if_pos (show table.peers.filter (·.relayAblePeer) ≠ [] ∧ first = false from
    divided)]
  change ∃ outcome, ((CCtrlPeers.divideRelay table.relayAble pass.vectorRelayDestPeer
    pass.ulSeq).bind fun relayed => some (pass.sends ++ relayed, pass.peers)) = some outcome ∧ _
  rw [divideRelay_spec pass.ulSeq (by omega) (by rw [lengths]; exact within), Option.bind_some]
  refine ⟨_, rfl, ?_⟩
  rw [relayPackets_append, packets, lengths]
  have named (i : Nat) : (pass.vectorRelayDestPeer.getD i {}).byIndex =
      (destIndices table iDataType).getD i 0 := by
    rw [← indices, List.getD_eq_getElem?_getD, List.getD_eq_getElem?_getD, List.getElem?_map]
    cases pass.vectorRelayDestPeer[i]? <;> rfl
  have sent := relayPackets_map table.relayAble.zipIdx (fun x => x.1.remoteE) (fun x =>
    (relayPositions (table.needRelay iDataType).length
      (ulDivSize (table.needRelay iDataType).length table.relayAble.length) x.2).map
      fun i => pass.vectorRelayDestPeer.getD i {}) pass.ulSeq
  simp only [List.map_map, Function.comp_def, named] at sent
  rw [sent]
  constructor
  · simp only [PeerTable.relayPackets, List.filterMap_nil, List.nil_append, List.map_map]
    conv_rhs => rw [← List.zipIdx_map_fst 0 table.relayAble, List.map_map]
    rfl
  · simp only [PeerTable.relayPackets, List.filterMap_nil, List.nil_append, List.flatMap_map]
    rw [List.range_eq_range', ← List.zipIdx_map_snd 0 table.relayAble, List.map_flatMap,
      List.flatMap_map]

theorem relaysOnce_of_nil (nobody : table.needRelay iDataType = []) :
    table.RelaysOnce first iDataType := by
  have packets := (foldl_visit iDataType table.peers {}).2
  have lengths := pass_length table iDataType
  rw [nobody, List.length_nil, List.length_eq_zero_iff] at lengths
  have result : CCtrlPeers.tryDataForPeersEx table.peers first iDataType =
      some ((table.peers.foldl (DataPass.visit iDataType) {}).sends,
        (table.peers.foldl (DataPass.visit iDataType) {}).peers) := if_pos lengths
  refine ⟨_, result, ?_, fun _ some_need => absurd nobody some_need⟩
  rw [packets, nobody]
  exact List.Perm.refl _

/-- The relay server is sent all destinations in one packet. -/
theorem relaysOnce_of_not_divided (server : ¬ table.Divided first)
    (some_need : table.needRelay iDataType ≠ []) : table.RelaysOnce first iDataType := by
  have packets := (foldl_visit iDataType table.peers {}).2
  have lengths := pass_length table iDataType
  have indices := pass_indices table iDataType
  obtain ⟨peer, peers, listed⟩ : ∃ peer peers, table.peers = peer :: peers := by
    apply List.exists_cons_of_ne_nil
    intro empty
    exact some_need (by rw [PeerTable.needRelay, empty]; rfl)
  have result : CCtrlPeers.tryDataForPeersEx table.peers first iDataType =
      some ((table.peers.foldl (DataPass.visit iDataType) {}).sends ++
          [.relayDataEx peer.remoteR
            (table.peers.foldl (DataPass.visit iDataType) {}).vectorRelayDestPeer
            (table.peers.foldl (DataPass.visit iDataType) {}).ulSeq],
        (table.peers.foldl (DataPass.visit iDataType) {}).peers) := by
    have dests : (table.peers.foldl (DataPass.visit iDataType) {}).vectorRelayDestPeer ≠ [] := by
      rw [← List.length_pos_iff, lengths, List.length_pos_iff]
      exact some_need
    rw [CCtrlPeers.tryDataForPeersEx]
    simp only [if_neg dests]
    rw [if_neg (show ¬ (table.peers.filter (·.relayAblePeer) ≠ [] ∧ first = false) from server),
      listed]
    rfl
  refine ⟨_, result, ?_, fun divided => absurd divided server⟩
  rw [relayPackets_append, packets]
  simp only [PeerTable.relayPackets, List.filterMap_nil, List.nil_append, List.filterMap_cons,
    List.flatMap_cons, List.flatMap_nil, List.append_nil]
  rw [indices]
  exact List.Perm.refl _

theorem relaysOnce_of_shared (divided : table.Divided first)
    (some_need : table.needRelay iDataType ≠ [])
    (shared : Shared (table.needRelay iDataType).length table.relayAble.length) :
    table.RelaysOnce first iDataType := by
  have short := length_needRelay table iDataType
  have few := length_relayAble table
  simp only [puPeersMaxCount] at short few
  obtain ⟨within, positions⟩ := positions_of_shared (List.length_pos_iff.mpr some_need)
    (List.length_pos_iff.mpr divided.1) (by omega) (by omega) shared
  obtain ⟨outcome, result, remotes, sent⟩ := tryDataForPeersEx_divided divided some_need within
  refine ⟨outcome, result, ?_, fun _ _ => ⟨remotes, within⟩⟩
  have whole : (List.range (table.needRelay iDataType).length).map
      (fun i => (destIndices table iDataType).getD i 0) = destIndices table iDataType := by
    apply List.ext_getElem
    · simp [destIndices]
    · intro i _ below
      rw [List.getElem_map, List.getElem_range, List.getD_eq_getElem _ _ below]
  rw [sent, positions, whole]
  exact List.Perm.refl _

/-- The packet with the last destination tells how the work is shared. -/
theorem shared_of_relaysOnce (divided : table.Divided first)
    (some_need : table.needRelay iDataType ≠ []) (once : table.RelaysOnce first iDataType) :
    Shared (table.needRelay iDataType).length table.relayAble.length := by
  have short := length_needRelay table iDataType
  have few := length_relayAble table
  simp only [puPeersMaxCount] at short few
  have above := List.length_pos_iff.mpr some_need
  obtain ⟨outcome, result, each, shares⟩ := once
  obtain ⟨-, within⟩ := shares divided some_need
  obtain ⟨outcome', result', -, sent⟩ := tryDataForPeersEx_divided divided some_need within
  obtain rfl := Option.some.inj (result.symm.trans result')
  have size : (destIndices table iDataType).length = (table.needRelay iDataType).length := by
    simp [destIndices]
  have last : (table.needRelay iDataType).length - 1 < (destIndices table iDataType).length := by
    omega
  apply shared_of_last above (List.length_pos_iff.mpr divided.1) (by omega) (by omega) within
  have member := each.mem_iff.mpr (List.getElem_mem last)
  rw [sent, List.mem_map] at member
  obtain ⟨i, read, same⟩ := member
  obtain ⟨uli, known, there⟩ := List.mem_flatMap.mp read
  have inside := (lt_of_mem_relayPositions (by omega) (within uli (List.mem_range.mp known)) there).1
  rw [List.getD_eq_getElem _ _ (by omega)] at same
  obtain rfl := (destIndices_nodup table iDataType).getElem_inj_iff.mp same
  exact read

end Table

/-- Every destination is relayed once exactly when the peers that relay do not share the work, or
their number divides that of the destinations, or the number without the last one does and the last
one is left without work. -/
theorem relaysOnce_iff (table : PeerTable) (first : Bool) (iDataType : UInt32) :
    table.RelaysOnce first iDataType ↔
      (table.Divided first → Shared (table.needRelay iDataType).length table.relayAble.length) := by
  by_cases some_need : table.needRelay iDataType = []
  · refine iff_of_true (relaysOnce_of_nil some_need) fun _ => .inl ?_
    rw [some_need]
    exact dvd_zero _
  · by_cases divided : table.Divided first
    · rw [forall_prop_of_true divided]
      exact ⟨shared_of_relaysOnce divided some_need, relaysOnce_of_shared divided some_need⟩
    · exact iff_of_true (relaysOnce_of_not_divided divided some_need)
        (fun yes => absurd yes divided)

/-- Ten peers that are reached over a relay, three of which relay. -/
def tenPeers : PeerTable where
  peers := (List.range 10).map fun i =>
    { byIndex := UInt8.ofNat (i + 1), relayAblePeer := i < 3, dataType := 1,
      remoteE := ⟨i + 1, 7000⟩ }
  unique := by decide
  within := by decide

/-- Three packets of three leave one destination out. -/
theorem tenPeers_notRelayed : ¬ tenPeers.RelaysOnce false 1 := by
  intro once
  have shared := shared_of_relaysOnce ⟨by decide, rfl⟩ (by decide) once
  exact absurd shared (by decide)

end Cgsf.Proof.P2P
