import Cgsf.Library.Transition
import Cgsf.P2P.PeerPaths
import Mathlib.Data.List.Nodup

/-!
# Which path to a peer is chosen

The check of a relay does not look at the second external path, the check of that path not at the
first, and what is silent for too long is lost without another choice. `IsPeerConnection` does not
look at the second external path either.
-/

namespace Cgsf.Proof.P2P
open Cgsf.P2P Library

namespace CPeerInfoNode

variable {node node' : CPeerInfoNode} {checked : Bool} {enumAddrType : PeerAddrType}

def order : List PeerAddrType := [.local, .external, .external2, .relay]

/-- What the table promises of a peer. -/
def Consistent (node : CPeerInfoNode) (checked : Bool) : Prop :=
  (node.peerAddrType ≠ .none → node.connFlag node.peerAddrType = true) ∧
    (checked = true → node.peerAddrType = node.choose order ∧
      (node.isConnection = true ↔ ∃ path, node.connFlag path = true))

/-- A peer that was never checked is known over the relay only, and no path to it is chosen. -/
structure Fresh (node : CPeerInfoNode) : Prop where
  type : node.peerAddrType = .none
  flagL : node.connFlagL = false
  flagE : node.connFlagE = false
  flagE2 : node.connFlagE2 = false

structure Settled (node : CPeerInfoNode) : Prop where
  type : node.peerAddrType = node.choose order
  second : node.connFlagE2 = true →
    node.connFlagL = true ∨ node.connFlagE = true ∨ node.connFlagR = true

theorem connFlag_choose (types : List PeerAddrType) (up : node.choose types ≠ .none) :
    node.connFlag (node.choose types) = true := by
  rw [CPeerInfoNode.choose] at up ⊢
  cases found : types.find? node.connFlag with
  | none => exact absurd (by rw [found]; rfl) up
  | some type => exact List.find?_some found

theorem exists_path : (∃ path, node.connFlag path = true) ↔
    node.connFlagL = true ∨ node.connFlagE = true ∨ node.connFlagE2 = true ∨
      node.connFlagR = true := by
  constructor
  · rintro ⟨path, up⟩
    cases path <;> simp_all [CPeerInfoNode.connFlag]
  · rintro (up | up | up | up)
    · exact ⟨.local, up⟩
    · exact ⟨.external, up⟩
    · exact ⟨.external2, up⟩
    · exact ⟨.relay, up⟩

theorem isConnection_iff : node.isConnection = true ↔
    node.connFlagL = true ∨ node.connFlagE = true ∨ node.connFlagR = true := by
  rw [CPeerInfoNode.isConnection]
  cases node.connFlagL <;> cases node.connFlagE <;> cases node.connFlagR <;> simp

theorem settled_iff : Settled node ↔ Consistent node true := by
  have conn : (node.isConnection = true ↔ ∃ path, node.connFlag path = true) ↔
      (node.connFlagE2 = true →
        node.connFlagL = true ∨ node.connFlagE = true ∨ node.connFlagR = true) := by
    rw [isConnection_iff, exists_path]
    tauto
  constructor
  · intro settled
    refine ⟨fun up => ?_, fun _ => ⟨settled.type, conn.mpr settled.second⟩⟩
    rw [settled.type] at up ⊢
    exact connFlag_choose order up
  · rintro ⟨-, agreed⟩
    obtain ⟨type, answers⟩ := agreed rfl
    exact ⟨type, conn.mp answers⟩

theorem Fresh.consistent (fresh : Fresh node) : Consistent node false :=
  ⟨fun chosen => absurd fresh.type chosen, fun never => absurd never Bool.false_ne_true⟩

/-- The peer is as the checks on it have left it. -/
def Kept (node : CPeerInfoNode) : Bool → Prop
  | true => Settled node
  | false => Fresh node

theorem Kept.consistent (kept : Kept node checked) : Consistent node checked := by
  cases checked with
  | true => exact settled_iff.mp kept
  | false => exact Fresh.consistent kept

/-- Neither check of these types may find only the second external path, nor may that path come up
behind the first or be the only one. -/
def ConnectKeeps (node : CPeerInfoNode) : PeerAddrType → Prop
  | .relay => ¬(node.connFlagL = false ∧ node.connFlagE = false ∧ node.connFlagE2 = true)
  | .external2 => ¬(node.connFlagL = false ∧ (node.connFlagE = true ∨ node.connFlagR = false))
  | .local | .external | .none | .relayPeer => True

/-- The second external path is not left alone. -/
def DisconnectKeeps (node : CPeerInfoNode) : PeerAddrType → Prop
  | .relay => ¬(node.connFlagL = false ∧ node.connFlagE = false ∧ node.connFlagE2 = true)
  | .external => ¬(node.connFlagL = false ∧ node.connFlagR = false ∧ node.connFlagE2 = true)
  | .local => ¬(node.connFlagE = false ∧ node.connFlagR = false ∧ node.connFlagE2 = true)
  | .external2 | .none | .relayPeer => True

/-- The path in use has not been silent for too long. -/
def TryKeeps (node : CPeerInfoNode) (uiPeriod : UInt16) (tCurrent : Int) : Prop :=
  ¬(node.connFlagL = true ∧ uiPeriod.toNat < tCurrent - node.lastRcvTimeL) ∧
    ¬(node.connFlagL = false ∧ node.connFlagE = false ∧ node.connFlagE2 = true ∧
      uiPeriod.toNat < tCurrent - node.lastRcvTimeE2)

theorem choose_order : node.choose order =
    if node.connFlagL = true then .local else if node.connFlagE = true then .external
    else if node.connFlagE2 = true then .external2 else if node.connFlagR = true then .relay
    else .none := by
  rw [CPeerInfoNode.choose, order]
  split_ifs with local' external external2 relay <;>
    simp_all [CPeerInfoNode.connFlag, List.find?]

theorem settled_flags : Settled node ↔
    (node.peerAddrType =
      if node.connFlagL = true then .local else if node.connFlagE = true then .external
      else if node.connFlagE2 = true then .external2 else if node.connFlagR = true then .relay
      else .none) ∧
    (node.connFlagE2 = true →
      node.connFlagL = true ∨ node.connFlagE = true ∨ node.connFlagR = true) := by
  rw [← choose_order]
  exact ⟨fun settled => ⟨settled.type, settled.second⟩, fun both => ⟨both.1, both.2⟩⟩

/-- Where one of the direct paths is up, the first of them is chosen. -/
theorem Kept.direct (kept : Kept node checked) (up : node.connFlagL = true ∨
    node.connFlagE = true ∨ node.connFlagE2 = true) :
    node.peerAddrType = if node.connFlagL = true then .local
      else if node.connFlagE = true then .external else .external2 := by
  cases checked with
  | true =>
      rw [(settled_flags.mp kept).1]
      split_ifs <;> simp_all
  | false => simp_all [kept.flagL, kept.flagE, kept.flagE2]

theorem connectCheck_settled (kept : Kept node checked)
    (run : node.connectCheck enumAddrType = some node') :
    Settled node' ↔ ConnectKeeps node enumAddrType := by
  have direct := kept.direct
  cases enumAddrType with
  | «local» =>
      obtain rfl := Option.some.inj run
      simp [settled_flags, CPeerInfoNode.setConnFlag, ConnectKeeps]
  | external =>
      obtain rfl := Option.some.inj run
      cases flagL : node.connFlagL <;>
        simp_all [settled_flags, CPeerInfoNode.setConnFlag, ConnectKeeps]
  | external2 =>
      obtain rfl := Option.some.inj run
      cases flagL : node.connFlagL <;> cases flagE : node.connFlagE <;>
        simp_all [settled_flags, CPeerInfoNode.setConnFlag, ConnectKeeps]
  | relay =>
      obtain rfl := Option.some.inj run
      cases flagL : node.connFlagL <;> cases flagE : node.connFlagE <;>
        cases flagE2 : node.connFlagE2 <;>
        simp_all [settled_flags, CPeerInfoNode.setConnFlag, ConnectKeeps]
  | none => cases run
  | relayPeer => cases run

theorem disconnectCheck_kept (kept : Kept node checked)
    (run : node.disconnectCheck enumAddrType = some node') :
    (DisconnectKeeps node enumAddrType → Kept node' checked) ∧
      (Consistent node' checked → DisconnectKeeps node enumAddrType) := by
  cases checked with
  | true =>
      rw [← settled_iff]
      change (_ → Settled node') ∧ _
      rw [← iff_iff_implies_and_implies]
      have type := (settled_flags.mp kept).1
      cases enumAddrType with
      | none => cases run
      | relayPeer => cases run
      | _ =>
          obtain rfl := Option.some.inj run
          cases flagL : node.connFlagL <;> cases flagE : node.connFlagE <;>
            cases flagE2 : node.connFlagE2 <;> cases flagR : node.connFlagR <;>
            simp_all [settled_flags, CPeerInfoNode.setConnFlag, DisconnectKeeps,
              CPeerInfoNode.lose, CPeerInfoNode.choose, CPeerInfoNode.connFlag, List.find?]
  | false =>
      have fresh : Fresh node := kept
      constructor
      · intro _
        change Fresh node'
        cases enumAddrType with
        | none => cases run
        | relayPeer => cases run
        | _ =>
            obtain rfl := Option.some.inj run
            constructor <;> simp [CPeerInfoNode.lose, CPeerInfoNode.setConnFlag, fresh.type,
              fresh.flagL, fresh.flagE, fresh.flagE2]
      · intro _
        cases enumAddrType <;> simp [DisconnectKeeps, fresh.flagE2]

theorem tryCheck_kept (kept : Kept node checked) (uiPeriod : UInt16) (tCurrent : Int) :
    (TryKeeps node uiPeriod tCurrent → Kept (node.tryCheck uiPeriod tCurrent) checked) ∧
      (Consistent (node.tryCheck uiPeriod tCurrent) checked → TryKeeps node uiPeriod tCurrent) := by
  cases checked with
  | true =>
      rw [← settled_iff]
      change (_ → Settled _) ∧ _
      rw [← iff_iff_implies_and_implies]
      obtain ⟨type, second⟩ := settled_flags.mp kept
      rw [CPeerInfoNode.tryCheck, CPeerInfoNode.incSeq, TryKeeps, settled_flags]
      cases flagL : node.connFlagL with
      | true =>
          by_cases silent : uiPeriod.toNat < tCurrent - node.lastRcvTimeL
          · have lost : PeerAddrType.local ≠ if node.connFlagE = true then .external
                else if node.connFlagE2 = true then .external2
                else if node.connFlagR = true then .relay else .none := by
              split_ifs <;> decide
            simp [flagL, silent, type, lost]
          · simp [flagL, silent, type]
      | false =>
          cases flagE2 : node.connFlagE2 with
          | true =>
              by_cases silent : uiPeriod.toNat < tCurrent - node.lastRcvTimeE2
              · cases flagE : node.connFlagE <;> cases flagR : node.connFlagR <;>
                  simp [flagL, flagE, flagE2, silent, type]
              · simpa [flagL, flagE2, silent, type] using second flagE2
          | false => simp [flagL, flagE2, type]
  | false =>
      have fresh : Fresh node := kept
      constructor
      · intro _
        change Fresh _
        rw [CPeerInfoNode.tryCheck, CPeerInfoNode.incSeq]
        constructor <;> simp [fresh.type, fresh.flagL, fresh.flagE, fresh.flagE2]
      · intro _
        simp [TryKeeps, fresh.flagL, fresh.flagE2]

theorem Kept.congr (kept : Kept node checked) (type : node'.peerAddrType = node.peerAddrType)
    (flagL : node'.connFlagL = node.connFlagL) (flagE : node'.connFlagE = node.connFlagE)
    (flagE2 : node'.connFlagE2 = node.connFlagE2) (flagR : node'.connFlagR = node.connFlagR) :
    Kept node' checked := by
  cases checked with
  | true =>
      change Settled node'
      rw [settled_flags, type, flagL, flagE, flagE2, flagR]
      exact settled_flags.mp kept
  | false =>
      have fresh : Fresh node := kept
      exact ⟨type.trans fresh.type, flagL.trans fresh.flagL, flagE.trans fresh.flagE,
        flagE2.trans fresh.flagE2⟩

theorem setLastRcvTime_kept (kept : Kept node checked) (tTime : Int)
    (enumAddrType : PeerAddrType) : Kept (node.setLastRcvTime tTime enumAddrType) checked := by
  cases enumAddrType <;> exact kept.congr rfl rfl rfl rfl rfl

/-! ## The index stays -/

@[simp] theorem setConnFlag_byIndex (bConnFlag : Bool) :
    (node.setConnFlag bConnFlag enumAddrType).byIndex = node.byIndex := by
  cases enumAddrType <;> rfl

theorem connectCheck_byIndex (run : node.connectCheck enumAddrType = some node') :
    node'.byIndex = node.byIndex := by
  cases enumAddrType with
  | none => cases run
  | relayPeer => cases run
  | _ =>
      obtain rfl := Option.some.inj run
      first
      | rfl
      | split <;> rfl

theorem disconnectCheck_byIndex (run : node.disconnectCheck enumAddrType = some node') :
    node'.byIndex = node.byIndex := by
  have lose (type : PeerAddrType) (others : List PeerAddrType) :
      (node.lose type others).byIndex = node.byIndex := by
    rw [CPeerInfoNode.lose]
    split <;> exact setConnFlag_byIndex false
  cases enumAddrType with
  | none => cases run
  | relayPeer => cases run
  | _ =>
      obtain rfl := Option.some.inj run
      exact lose _ _

theorem tryCheck_byIndex (uiPeriod : UInt16) (tCurrent : Int) :
    (node.tryCheck uiPeriod tCurrent).byIndex = node.byIndex := by
  rw [CPeerInfoNode.tryCheck]
  split_ifs <;> rfl

theorem setLastRcvTime_byIndex (tTime : Int) :
    (node.setLastRcvTime tTime enumAddrType).byIndex = node.byIndex := by
  cases enumAddrType <;> rfl

end CPeerInfoNode

namespace PeerPaths
open CPeerInfoNode

/-- Each index is given out once, and every peer is as the checks on it have left it. -/
structure Kept (s : PeerPaths) : Prop where
  unique : ((s.peers ++ s.pool).map (·.byIndex)).Nodup
  peers : ∀ node ∈ s.peers, CPeerInfoNode.Kept node (s.checked node.byIndex)

def Allowed (s : PeerPaths) : PeerPathEvent → Prop
  | .addPeer _ | .updatePeerRcvTime .. => True
  | .peerConnectCheck byIndex enumAddrType stRemote =>
      ∀ node ∈ s.find byIndex,
        (stRemote = none ∨ stRemote = node.remote enumAddrType) → ConnectKeeps node enumAddrType
  | .peerDisconnectCheck byIndex enumAddrType stRemote =>
      ∀ node ∈ s.find byIndex,
        (stRemote = none ∨ stRemote = node.remote enumAddrType) → DisconnectKeeps node enumAddrType
  | .tryCheckPeers uiPeriod tCurrent => ∀ node ∈ s.peers, TryKeeps node uiPeriod tCurrent

instance (node : CPeerInfoNode) : (type : PeerAddrType) → Decidable (ConnectKeeps node type)
  | .relay | .external2 => inferInstanceAs (Decidable (¬_))
  | .local | .external | .none | .relayPeer => isTrue trivial

instance (node : CPeerInfoNode) : (type : PeerAddrType) → Decidable (DisconnectKeeps node type)
  | .relay | .external | .local => inferInstanceAs (Decidable (¬_))
  | .external2 | .none | .relayPeer => isTrue trivial

instance (node : CPeerInfoNode) (uiPeriod : UInt16) (tCurrent : Int) :
    Decidable (TryKeeps node uiPeriod tCurrent) :=
  inferInstanceAs (Decidable (¬_ ∧ ¬_))

instance (s : PeerPaths) : (e : PeerPathEvent) → Decidable (Allowed s e)
  | .addPeer _ | .updatePeerRcvTime .. => isTrue trivial
  | .peerConnectCheck byIndex _ _ | .peerDisconnectCheck byIndex _ _ =>
      inferInstanceAs (Decidable (∀ node ∈ s.find byIndex, _ → _))
  | .tryCheckPeers _ _ => inferInstanceAs (Decidable (∀ node ∈ s.peers, _))

section
variable {s : PeerPaths}

theorem find_mem {list : PeerList} {byIndex : UInt8} {node : CPeerInfoNode}
    (found : list.find byIndex = some node) : node ∈ list.peers ∧ node.byIndex = byIndex :=
  ⟨List.mem_of_find?_eq_some found, by simpa using List.find?_some found⟩

theorem find_self {list : PeerList} (unique : (list.peers.map (·.byIndex)).Nodup)
    {node : CPeerInfoNode} (member : node ∈ list.peers) : list.find node.byIndex = some node := by
  cases found : list.find node.byIndex with
  | none =>
      have absent := List.find?_eq_none.mp found node member
      exact absurd (decide_eq_true rfl) absent
  | some other =>
      obtain ⟨listed, same⟩ := find_mem found
      rw [List.inj_on_of_nodup_map unique listed member same]

theorem consistent_iff (unique : (s.peers.map (·.byIndex)).Nodup) : s.Consistent ↔
    ∀ node ∈ s.peers, CPeerInfoNode.Consistent node (s.checked node.byIndex) := by
  refine forall₂_congr fun node member => and_congr_right fun _ => forall_congr' fun _ => ?_
  refine and_congr_right fun _ => ?_
  rw [PeerList.isPeerConnection, find_self unique member, Option.map_some, Option.getD_some]
  refine and_iff_left_of_imp fun answers stRemote stRemoteE found => ?_
  rw [PeerList.isPeerConnectionAt, found, Option.map_some, Option.getD_some]
  exact answers

theorem Kept.listed (kept : Kept s) : (s.peers.map (·.byIndex)).Nodup := by
  have unique := kept.unique
  rw [List.map_append] at unique
  exact List.Nodup.of_append_left unique

theorem Kept.consistent (kept : Kept s) : s.Consistent :=
  (consistent_iff kept.listed).mpr fun node member => (kept.peers node member).consistent

/-! ## Changes to one peer -/

theorem set_indices (list : PeerList) (node : CPeerInfoNode) :
    (list.set node).peers.map (·.byIndex) = list.peers.map (·.byIndex) := by
  rw [PeerList.set, List.map_map]
  refine List.map_congr_left fun old _ => ?_
  rw [Function.comp_apply]
  split
  · exact Eq.symm ‹_›
  · rfl

theorem mem_set {list : PeerList} {node other : CPeerInfoNode}
    (member : other ∈ (list.set node).peers) :
    other = node ∨ other ∈ list.peers ∧ other.byIndex ≠ node.byIndex := by
  obtain ⟨old, listed, rfl⟩ := List.mem_map.mp member
  split_ifs with same
  · exact .inl rfl
  · exact .inr ⟨listed, same⟩

theorem self_mem_set {list : PeerList} {node : CPeerInfoNode} {byIndex : UInt8}
    {old : CPeerInfoNode} (found : list.find byIndex = some old)
    (index : node.byIndex = old.byIndex) : node ∈ (list.set node).peers := by
  obtain ⟨listed, -⟩ := find_mem found
  exact List.mem_map.mpr ⟨old, listed, if_pos index.symm⟩

theorem Kept.set (kept : Kept s) {node : CPeerInfoNode} {checked : UInt8 → Bool}
    (others : ∀ i, i ≠ node.byIndex → checked i = s.checked i)
    (this : CPeerInfoNode.Kept node (checked node.byIndex)) : Kept ⟨s.toPeerList.set node, checked⟩ where
  unique := by
    have unique := kept.unique
    rw [List.map_append] at unique ⊢
    rwa [set_indices]
  peers := by
    intro other member
    obtain rfl | ⟨listed, different⟩ := mem_set member
    · exact this
    · change CPeerInfoNode.Kept other (checked other.byIndex)
      rw [others _ different]
      exact kept.peers other listed

theorem check_spec (list : PeerList)
    (update : CPeerInfoNode → PeerAddrType → Option CPeerInfoNode) (byIndex : UInt8)
    (enumAddrType : PeerAddrType) (stRemote : Option SockAddr) :
    (∃ node node', list.find byIndex = some node ∧
      (stRemote = none ∨ stRemote = node.remote enumAddrType) ∧
      update node enumAddrType = some node' ∧
      list.check update byIndex enumAddrType stRemote = (true, list.set node')) ∨
    list.check update byIndex enumAddrType stRemote = (false, list) ∧
      ∀ node, list.find byIndex = some node →
        (stRemote = none ∨ stRemote = node.remote enumAddrType) →
        update node enumAddrType = none := by
  rw [PeerList.check]
  cases found : list.find byIndex with
  | none => exact .inr ⟨rfl, fun _ impossible => by cases impossible⟩
  | some node =>
      dsimp only
      by_cases reached : stRemote = none ∨ stRemote = node.remote enumAddrType
      · rw [if_pos reached]
        cases updated : update node enumAddrType with
        | none =>
            refine .inr ⟨rfl, fun _ same _ => ?_⟩
            obtain rfl := Option.some.inj same
            exact updated
        | some node' => exact .inl ⟨node, node', rfl, reached, updated, rfl⟩
      · rw [if_neg reached]
        refine .inr ⟨rfl, fun _ same reached' => ?_⟩
        obtain rfl := Option.some.inj same
        exact absurd reached' reached

theorem consistent_of_set (unique : (s.peers.map (·.byIndex)).Nodup) {node node' : CPeerInfoNode}
    {byIndex : UInt8} {checked : UInt8 → Bool} (found : s.find byIndex = some node)
    (index : node'.byIndex = node.byIndex)
    (consistent : PeerPaths.Consistent ⟨s.toPeerList.set node', checked⟩) :
    CPeerInfoNode.Consistent node' (checked node'.byIndex) := by
  have unique' : ((s.toPeerList.set node').peers.map (·.byIndex)).Nodup := by
    rwa [set_indices]
  exact (consistent_iff (s := ⟨s.toPeerList.set node', checked⟩) unique').mp consistent node'
    (self_mem_set found index)

theorem peerConnectCheck_kept (kept : Kept s) (byIndex : UInt8) (enumAddrType : PeerAddrType)
    (stRemote : Option SockAddr) :
    (Allowed s (.peerConnectCheck byIndex enumAddrType stRemote) →
        Kept (s.step (.peerConnectCheck byIndex enumAddrType stRemote))) ∧
      ((s.step (.peerConnectCheck byIndex enumAddrType stRemote)).Consistent →
        Allowed s (.peerConnectCheck byIndex enumAddrType stRemote)) := by
  obtain ⟨node, node', found, reached, updated, run⟩ | ⟨run, refused⟩ :=
    check_spec s.toPeerList CPeerInfoNode.connectCheck byIndex enumAddrType stRemote
  · obtain ⟨listed, rfl⟩ := find_mem found
    have index := connectCheck_byIndex updated
    have settled := connectCheck_settled (kept.peers node listed) updated
    have now : (node.byIndex == node'.byIndex || s.checked node'.byIndex) = true := by
      rw [index, beq_self_eq_true, Bool.true_or]
    rw [PeerPaths.step, PeerList.peerConnectCheck, run]
    simp only [Bool.true_and]
    constructor
    · intro allowed
      refine kept.set (fun i other => ?_) ?_
      · rw [beq_false_of_ne (fun same => other (same.symm.trans index.symm)), Bool.false_or]
      · rw [now]
        exact settled.mpr (allowed node found reached)
    · intro consistent other same _
      obtain rfl := Option.some.inj (found.symm.trans same)
      have this := consistent_of_set kept.listed found index consistent
      rw [now] at this
      exact settled.mp (settled_iff.mpr this)
  · rw [PeerPaths.step, PeerList.peerConnectCheck, run]
    simp only [Bool.false_and, Bool.false_or]
    refine ⟨fun _ => kept, fun _ node found reached => ?_⟩
    have none := refused node found reached
    cases enumAddrType <;> trivial

theorem peerDisconnectCheck_kept (kept : Kept s) (byIndex : UInt8) (enumAddrType : PeerAddrType)
    (stRemote : Option SockAddr) :
    (Allowed s (.peerDisconnectCheck byIndex enumAddrType stRemote) →
        Kept (s.step (.peerDisconnectCheck byIndex enumAddrType stRemote))) ∧
      ((s.step (.peerDisconnectCheck byIndex enumAddrType stRemote)).Consistent →
        Allowed s (.peerDisconnectCheck byIndex enumAddrType stRemote)) := by
  rw [PeerPaths.step, PeerList.peerDisconnectCheck]
  obtain ⟨node, node', found, reached, updated, run⟩ | ⟨run, refused⟩ :=
    check_spec s.toPeerList CPeerInfoNode.disconnectCheck byIndex enumAddrType stRemote
  · obtain ⟨listed, rfl⟩ := find_mem found
    have index := disconnectCheck_byIndex updated
    obtain ⟨keeps, needs⟩ := disconnectCheck_kept (kept.peers node listed) updated
    rw [run]
    constructor
    · intro allowed
      refine kept.set (fun _ _ => rfl) ?_
      rw [index]
      exact keeps (allowed node found reached)
    · intro consistent other same _
      obtain rfl := Option.some.inj (found.symm.trans same)
      have this := consistent_of_set kept.listed found index consistent
      rw [index] at this
      exact needs this
  · rw [run]
    refine ⟨fun _ => kept, fun _ node found reached => ?_⟩
    have none := refused node found reached
    cases enumAddrType <;> trivial

theorem updatePeerRcvTime_kept (kept : Kept s) (byIndex : UInt8) (enumAddrType : PeerAddrType)
    (tTime : Int) : Kept (s.step (.updatePeerRcvTime byIndex enumAddrType tTime)) := by
  rw [PeerPaths.step, PeerList.updatePeerRcvTime]
  cases found : s.find byIndex with
  | none => exact kept
  | some node =>
      obtain ⟨listed, -⟩ := find_mem found
      refine kept.set (fun _ _ => rfl) ?_
      rw [setLastRcvTime_byIndex]
      exact setLastRcvTime_kept (kept.peers node listed) tTime enumAddrType

/-! ## All peers, and one more -/

/-- The same change to every listed peer. -/
theorem Kept.map (kept : Kept s) {f : CPeerInfoNode → CPeerInfoNode} {pool : List CPeerInfoNode}
    (index : ∀ node, (f node).byIndex = node.byIndex)
    (free : pool.map (·.byIndex) = s.pool.map (·.byIndex))
    (each : ∀ node ∈ s.peers, CPeerInfoNode.Kept (f node) (s.checked node.byIndex)) :
    Kept ⟨⟨s.peers.map f, pool⟩, s.checked⟩ where
  unique := by
    have unique := kept.unique
    rw [List.map_append] at unique ⊢
    rw [List.map_map, free]
    simpa only [Function.comp_def, index] using unique
  peers := by
    intro node member
    obtain ⟨old, listed, rfl⟩ := List.mem_map.mp member
    change CPeerInfoNode.Kept (f old) (s.checked (f old).byIndex)
    rw [index]
    exact each old listed

theorem tryCheckPeers_kept (kept : Kept s) (uiPeriod : UInt16) (tCurrent : Int) :
    (Allowed s (.tryCheckPeers uiPeriod tCurrent) →
        Kept (s.step (.tryCheckPeers uiPeriod tCurrent))) ∧
      ((s.step (.tryCheckPeers uiPeriod tCurrent)).Consistent →
        Allowed s (.tryCheckPeers uiPeriod tCurrent)) := by
  have index (node : CPeerInfoNode) : (node.tryCheck uiPeriod tCurrent).byIndex = node.byIndex :=
    tryCheck_byIndex uiPeriod tCurrent
  constructor
  · intro allowed
    exact kept.map index rfl fun node listed =>
      (tryCheck_kept (kept.peers node listed) uiPeriod tCurrent).1 (allowed node listed)
  · intro consistent node listed
    have unique : ((s.peers.map (·.tryCheck uiPeriod tCurrent)).map (·.byIndex)).Nodup := by
      rw [List.map_map]
      simpa only [Function.comp_def, index] using kept.listed
    have this := (consistent_iff unique).mp consistent _ (List.mem_map_of_mem listed)
    refine (tryCheck_kept (kept.peers node listed) uiPeriod tCurrent).2 ?_
    rwa [index] at this

theorem addPeer_kept (kept : Kept s) (args : AddPeerArgs) : Kept (s.step (.addPeer args)) := by
  rw [PeerPaths.step, PeerList.addPeer]
  cases free : s.pool with
  | nil =>
      simp only [Bool.false_eq_true, false_and, if_false]
      exact kept
  | cons pcPeerInfo pool =>
      dsimp only
      split_ifs
      · simp only [false_and, if_false]
        refine kept.map (fun _ => rfl) (by rw [free]; rfl) fun node listed => ?_
        exact (kept.peers node listed).congr rfl rfl rfl rfl rfl
      · simp only [false_and, if_false]
        have same : s.peers.map id = s.peers := List.map_id s.peers
        rw [← same]
        exact kept.map (fun _ => rfl) (by rw [free]; rfl) kept.peers
      · have unique := kept.unique
        rw [free] at unique
        have apart := unique
        rw [List.map_append, List.map_cons, List.nodup_middle, List.nodup_cons] at apart
        constructor
        · rw [List.map_append] at unique
          rw [List.append_assoc, List.map_append]
          exact unique
        · intro node member
          rcases List.mem_append.mp member with old | new
          · have other : pcPeerInfo.byIndex ≠ node.byIndex := by
              intro same
              refine apart.1 (List.mem_append_left _ ?_)
              rw [same]
              exact List.mem_map_of_mem old
            simpa [other] using kept.peers node old
          · obtain rfl := List.mem_singleton.mp new
            have never : (if true = true ∧
                ((pcPeerInfo :: pool).head?.map (·.byIndex)) = some pcPeerInfo.byIndex then false
                else s.checked pcPeerInfo.byIndex) = false := if_pos ⟨rfl, rfl⟩
            change CPeerInfoNode.Kept _ (if _ then _ else _)
            rw [CPeerInfoNode.added, never]
            exact Fresh.mk rfl rfl rfl rfl

theorem step_kept (kept : Kept s) (e : PeerPathEvent) :
    (Allowed s e → Kept (s.step e)) ∧ ((s.step e).Consistent → Allowed s e) := by
  cases e with
  | addPeer args => exact ⟨fun _ => addPeer_kept kept args, fun _ => trivial⟩
  | peerConnectCheck byIndex enumAddrType stRemote =>
      exact peerConnectCheck_kept kept byIndex enumAddrType stRemote
  | peerDisconnectCheck byIndex enumAddrType stRemote =>
      exact peerDisconnectCheck_kept kept byIndex enumAddrType stRemote
  | updatePeerRcvTime byIndex enumAddrType tTime =>
      exact ⟨fun _ => updatePeerRcvTime_kept kept byIndex enumAddrType tTime, fun _ => trivial⟩
  | tryCheckPeers uiPeriod tCurrent => exact tryCheckPeers_kept kept uiPeriod tCurrent

theorem construct_kept (rand : UInt8 → UInt32) : Kept (PeerPaths.construct rand) where
  unique := by
    rw [PeerPaths.construct, PeerList.construct, List.nil_append, List.map_map, List.map_reverse,
      List.nodup_reverse]
    refine List.Nodup.map_on (fun i left j right same => ?_) List.nodup_range'
    rw [List.mem_range'_1, puPeersMaxCount] at left right
    exact byte_inj (by omega) (by omega) same
  peers := by
    intro node member
    cases member

/-- After allowed steps every peer has the paths and the choice that the table promises, and after
the next one exactly if that is allowed too. -/
theorem run_pathsConsistent (rand : UInt8 → UInt32) {history : List PeerPathEvent}
    (run : Run (Guarded Allowed fun s e s' => s.step e = s')
      (PeerPaths.construct rand) history s) :
    s.Consistent ∧ ∀ e, (s.step e).Consistent ↔ Allowed s e := by
  have kept : Kept s := by
    refine run.invariant (construct_kept rand) fun s e s' kept action => ?_
    obtain ⟨allowed, rfl⟩ := action
    exact (step_kept kept e).1 allowed
  refine ⟨kept.consistent, fun e => ?_⟩
  obtain ⟨keeps, needs⟩ := step_kept kept e
  exact ⟨needs, fun allowed => (keeps allowed).consistent⟩

end

/-- A peer that is added at time zero. -/
def onePeer : AddPeerArgs where
  remoteL := ⟨10, 10⟩
  remoteE := ⟨20, 20⟩
  remoteE2 := ⟨20, 20⟩
  stRelayPeer := ⟨30, 30⟩
  tTime := 0
  localKnown := true

def firstThenLocal : List PeerPathEvent :=
  [.addPeer onePeer, .peerConnectCheck 254 .external none, .updatePeerRcvTime 254 .external 5,
    .peerConnectCheck 254 .local (some ⟨10, 10⟩), .tryCheckPeers 10 10,
    .peerDisconnectCheck 254 .local none]

set_option maxRecDepth 20000 in
/-- The local path comes up behind the external one and is lost again. -/
theorem firstThenLocal_consistent : ∃ s,
    Run (Guarded Allowed fun s e s' => s.step e = s') (PeerPaths.construct fun _ => 0)
        firstThenLocal s ∧
      s.peers.map (·.peerAddrType) = [.external] ∧
      s.Consistent ∧ ∀ e, (s.step e).Consistent ↔ Allowed s e := by
  let performed := firstThenLocal.foldlM (fun (s : PeerPaths) e =>
    if Allowed s e then some (s.step e) else none) (PeerPaths.construct fun _ => 0)
  have types : performed.map (·.peers.map (·.peerAddrType)) = some [.external] := by
    decide
  obtain ⟨s, result, chosen⟩ := Option.map_eq_some_iff.mp types
  have guarded := Run.guarded_of_foldlM Allowed (fun s e => some (s.step e)) firstThenLocal result
  have run : Run (Guarded Allowed fun s e s' => s.step e = s') (PeerPaths.construct fun _ => 0)
      firstThenLocal s :=
    guarded.mono fun s e s' action => ⟨action.1, Option.some.inj action.2⟩
  exact ⟨s, run, chosen, run_pathsConsistent _ run⟩

set_option maxRecDepth 20000 in
/-- The local path has been silent for longer than ten seconds: it stays chosen. -/
theorem silentLocal_chosen : ¬ ∀ (rand : UInt8 → UInt32) (history : List PeerPathEvent)
    (s : PeerPaths), Run (fun s e s' => s.step e = s') (PeerPaths.construct rand) history s →
      s.Consistent := by
  intro all
  let history : List PeerPathEvent :=
    [.addPeer onePeer, .peerConnectCheck 254 .local none, .tryCheckPeers 10 11]
  have consistent := all (fun _ => 0) history _ (Run.of_foldl PeerPaths.step history)
  have lost : ¬ ∀ node ∈ (history.foldl PeerPaths.step (.construct fun _ => 0)).peers,
      node.peerAddrType ≠ .none → node.connFlag node.peerAddrType = true := by
    decide
  exact lost fun node member => (consistent node member).1

end PeerPaths

end Cgsf.Proof.P2P
