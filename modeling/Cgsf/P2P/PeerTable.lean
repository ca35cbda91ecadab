import Cgsf.Library.Threaded
import Cgsf.P2P.PeerPaths
import Mathlib.Data.List.FinRange
import Mathlib.Logic.Function.Basic

/-!
# The nodes of the peer table

The nodes that the constructor makes, threaded into the list of peers or into the pool.
-/

namespace Cgsf.P2P
open Library

/-- The address of one of the nodes that the constructor makes. -/
abbrev PeerRef := Fin 254

structure PeerNode extends CPeerInfoNode where
  pcPrev : Option PeerRef := none
  pcNext : Option PeerRef := none
  deriving DecidableEq, Repr

abbrev PeerMemory := PeerRef → PeerNode

namespace PeerMemory

variable (m : PeerMemory)

def next (r : PeerRef) : Option PeerRef := (m r).pcNext

def prev (r : PeerRef) : Option PeerRef := (m r).pcPrev

/-- One node is written to. -/
def edit (r : PeerRef) (f : PeerNode → PeerNode) : PeerMemory :=
  fun y => if y = r then f (m r) else m y

def setNext (r : PeerRef) (pcNext : Option PeerRef) : PeerMemory := m.edit r ({ · with pcNext })

def setPrev (r : PeerRef) (pcPrev : Option PeerRef) : PeerMemory := m.edit r ({ · with pcPrev })

def reset (r : PeerRef) : PeerMemory := (m.setPrev r none).setNext r none

def change (r : PeerRef) (f : CPeerInfoNode → CPeerInfoNode) : PeerMemory :=
  m.edit r fun node => { node with toCPeerInfoNode := f node.toCPeerInfoNode }

end PeerMemory

structure CBoList where
  pcBegin : Option PeerRef := none
  pcEnd : Option PeerRef := none
  deriving DecidableEq, Repr

namespace CBoList

variable (l : CBoList) (m : PeerMemory)

/-- There is no result where a null pointer is followed. -/
def addAtFirst (pcNode : PeerRef) : Option (CBoList × PeerMemory) :=
  let m := m.reset pcNode
  if l.pcBegin = none ∧ l.pcEnd = none then some (⟨some pcNode, some pcNode⟩, m)
  else
    let m := m.setNext pcNode l.pcBegin
    l.pcBegin.map fun pcBegin => ({ l with pcBegin := some pcNode }, m.setPrev pcBegin (some pcNode))

def add (pcNode : PeerRef) : Option (CBoList × PeerMemory) :=
  let m := m.reset pcNode
  if l.pcBegin = none ∧ l.pcEnd = none then some (⟨some pcNode, some pcNode⟩, m)
  else
    l.pcEnd.map fun pcEnd =>
      let m := m.setNext pcEnd (some pcNode)
      ({ l with pcEnd := some pcNode }, m.setPrev pcNode (some pcEnd))

def delWithLiveInPtr (pcDelNode : PeerRef) : CBoList × PeerMemory :=
  match m.prev pcDelNode, m.next pcDelNode with
  | some pcPrev, some pcNext =>
      (l, (m.setPrev pcNext (some pcPrev)).setNext pcPrev (some pcNext))
  | some pcPrev, none => ({ l with pcEnd := some pcPrev }, m.setNext pcPrev none)
  | none, some pcNext => ({ l with pcBegin := some pcNext }, m.setPrev pcNext none)
  | none, none => ({}, m)

def delBeginWithLive : Option (PeerRef × CBoList × PeerMemory) :=
  l.pcBegin.map fun pcDelNode =>
    match m.next pcDelNode with
    | some pcNext => (pcDelNode, { l with pcBegin := some pcNext }, m.setPrev pcNext none)
    | none => (pcDelNode, {}, m)

/-- The loop of `Find`; nothing when it goes round more often than there are nodes, and so for
ever. -/
def findLoop (pcNode : CPeerInfoNode) : Nat → Option PeerRef → Option (Option PeerRef)
  | _, none => some none
  | 0, some _ => none
  | fuel + 1, some pcCurr =>
      if (m pcCurr).same pcNode then some (some pcCurr) else findLoop pcNode fuel (m.next pcCurr)

def find (pcNode : CPeerInfoNode) : Option (Option PeerRef) := findLoop m pcNode 254 l.pcBegin

/-- The nodes of a loop over the list; nothing when it does not end. -/
def visits : Option (List PeerRef) := walk m.next 254 l.pcBegin

end CBoList

structure CPeerInfoList where
  nodes : PeerMemory
  list : CBoList := {}
  cPeerInfoPool : CBoList := {}
  ulCount : Nat := 0
  apcPeers : UInt8 → Option PeerRef := fun _ => none

namespace CPeerInfoList

def deallocate (s : CPeerInfoList) (pcPeerInfoNode : PeerRef) : Option CPeerInfoList :=
  (s.cPeerInfoPool.addAtFirst s.nodes pcPeerInfoNode).map fun (cPeerInfoPool, nodes) =>
    { s with cPeerInfoPool, nodes, ulCount := s.ulCount + 1 }

/-- The indices go up from 1. -/
def construct (rand : UInt8 → UInt32) : Option CPeerInfoList :=
  (List.finRange 254).foldlM deallocate
    { nodes := fun r =>
        { byIndex := UInt8.ofNat (r + 1), pktSeq := rand (UInt8.ofNat (r + 1)) } }

variable (s : CPeerInfoList)

/-- Nothing in the inner place is `NULL`; a pool that is empty although it counts nodes would make
one. -/
def allocate : Option (Option (PeerRef × CPeerInfoList)) :=
  if s.ulCount = 0 then some none
  else (s.cPeerInfoPool.delBeginWithLive s.nodes).map fun (pcNode, cPeerInfoPool, nodes) =>
    some (pcNode, { s with cPeerInfoPool, nodes, ulCount := s.ulCount - 1 })

/-- The callers do not look at what it answers. -/
def add (pcNode : PeerRef) : Option CPeerInfoList :=
  let byIndex := (s.nodes pcNode).byIndex
  if s.apcPeers byIndex ≠ none then some s
  else (s.list.add s.nodes pcNode).map fun (list, nodes) =>
    { s with list, nodes, apcPeers := Function.update s.apcPeers byIndex (some pcNode) }

def delete (byIndex : UInt8) : Option (Bool × CPeerInfoList) :=
  match s.apcPeers byIndex with
  | none => some (false, s)
  | some pcNode =>
      let (list, nodes) := s.list.delWithLiveInPtr s.nodes pcNode
      (deallocate { s with list, nodes } pcNode).map fun s =>
        (true, { s with apcPeers := Function.update s.apcPeers byIndex none })

/-- The loop of `Reset`, which ends after as many rounds as the list has nodes. -/
def resetLoop : Nat → CPeerInfoList → Option CPeerInfoList
  | 0, s => if s.list.pcBegin = none then some s else none
  | fuel + 1, s =>
      if s.list.pcBegin = none then some s
      else (s.list.delBeginWithLive s.nodes).bind fun (pcDelPeerInfo, list, nodes) =>
        let byIndex := (nodes pcDelPeerInfo).byIndex
        (deallocate { s with list, nodes, apcPeers := Function.update s.apcPeers byIndex none }
          pcDelPeerInfo).bind (resetLoop fuel)

def reset : Option CPeerInfoList := s.resetLoop 254

end CPeerInfoList

/-- The table with the nodes that its callers hold: one that they constructed, and those that
`FindPeer` has handed out. -/
structure PeerTableUse extends CPeerInfoList where
  copies : List PeerNode := [{}]

inductive PeerTableEvent where
  | addPeer (args : AddPeerArgs)
  | delPeer (byIndex : UInt8)
  | resetPeers
  | findPeer (byIndex : UInt8)
  | modifyPeer (copy : Nat) (edit : CPeerInfoNode → CPeerInfoNode)
  | modifyMultiMediaPeers (uiMask : UInt32) (bAndOR : Bool)

namespace CPeerInfoList

variable (s : CPeerInfoList)

/-- The packets that are sent only count up. -/
def tryCheckRelayAblePeer (localKnown : Bool) : Option CPeerInfoList :=
  if localKnown = false then some s
  else (s.list.visits s.nodes).map fun refs =>
    { s with nodes := refs.foldl (fun m r => m.change r (·.incSeq)) s.nodes }

def addPeer (args : AddPeerArgs) : Option (Bool × CPeerInfoList) :=
  s.allocate.bind fun
    | none => some (false, s)
    | some (pcPeerInfo, s) =>
        let nodes := s.nodes.change pcPeerInfo
          (·.added args.remoteL args.remoteE args.remoteE2 args.stRelayPeer args.tTime)
        let s := { s with nodes }
        (s.list.find s.nodes (s.nodes pcPeerInfo).toCPeerInfoNode).bind fun
          | none => (s.add pcPeerInfo).map fun s => (true, s)
          | some _ => (s.deallocate pcPeerInfo).bind fun s =>
              (s.tryCheckRelayAblePeer args.localKnown).map fun s => (false, s)

/-- The copy of the whole node. -/
def findPeer (byIndex : UInt8) : Option (Option PeerNode) :=
  (s.list.find s.nodes { byIndex }).map fun found => found.map s.nodes

/-- What `ModifyPeer` searches for. -/
def searched (cSrchPeerInfo : CPeerInfoNode) : CPeerInfoNode where
  compCondition := cSrchPeerInfo.compCondition
  byIndex := cSrchPeerInfo.byIndex
  remoteL := cSrchPeerInfo.remoteL
  remoteE := cSrchPeerInfo.remoteE

def modifyPeer (cSrchPeerInfo : PeerNode) : Option (Bool × CPeerInfoList) :=
  (s.list.find s.nodes (searched cSrchPeerInfo.toCPeerInfoNode)).map fun
    | none => (false, s)
    | some pcSrchPeerInfo =>
        (true, { s with nodes := s.nodes.edit pcSrchPeerInfo fun _ => cSrchPeerInfo })

/-- A round of the loop of `ModifyMultiMediaPeers`; `FindPeer` leaves a node that it does not find as
it was constructed. -/
def modifyMultiMedia (uiMask : UInt32) (bAndOR : Bool) (s : CPeerInfoList) (byIndex : UInt8) :
    Option CPeerInfoList :=
  (s.findPeer byIndex).bind fun found =>
    let cPeerInfo := found.getD {}
    let uiProcess := cPeerInfo.dataType
    let uiProcess := if bAndOR then uiProcess &&& uiMask else uiProcess ||| uiMask
    (s.modifyPeer { cPeerInfo with dataType := uiProcess }).map (·.2)

def modifyMultiMediaPeers (uiMask : UInt32) (bAndOR : Bool) : Option (Bool × CPeerInfoList) :=
  (s.list.visits s.nodes).bind fun refs =>
    if refs = [] then some (false, s)
    else ((refs.map fun r => (s.nodes r).byIndex).foldlM (modifyMultiMedia uiMask bAndOR) s).map
      fun s => (true, s)

/-- Two listed peers are told apart by their addresses. -/
def Apart (node other : CPeerInfoNode) : Prop :=
  ¬(node.remoteL = other.remoteL ∧ node.remoteE = other.remoteE)

/-- From the first node on, `next` leads over the listed nodes, and `prev` from the last node back;
they and the free ones have all the indices, and the entries of the array tell which are listed. -/
def Integrity : Prop :=
  ∃ listed free : List PeerRef,
    Chained s.nodes.next s.list.pcBegin listed ∧
    Chained s.nodes.prev s.list.pcEnd listed.reverse ∧
    Chained s.nodes.next s.cPeerInfoPool.pcBegin free ∧
    ((listed ++ free).map fun r => (s.nodes r).byIndex).Perm
      ((List.range' 1 (puPeersMaxCount - 1)).map UInt8.ofNat) ∧
    (∀ i, s.apcPeers i ≠ none ↔ ∃ r ∈ listed, (s.nodes r).byIndex = i) ∧
    listed.Pairwise fun r q => Apart (s.nodes r).toCPeerInfoNode (s.nodes q).toCPeerInfoNode

end CPeerInfoList

namespace PeerTableUse

variable (s : PeerTableUse)

def cell (copy : PeerNode) (edit : CPeerInfoNode → CPeerInfoNode) : PeerNode :=
  { copy with toCPeerInfoNode := edit copy.toCPeerInfoNode }

def perform : PeerTableEvent → Option PeerTableUse
  | .addPeer args => (s.addPeer args).map fun (_, list) => ⟨list, s.copies⟩
  | .delPeer byIndex => (s.delete byIndex).map fun (_, list) => ⟨list, s.copies⟩
  | .resetPeers => s.reset.map fun list => ⟨list, s.copies⟩
  | .findPeer byIndex => (s.findPeer byIndex).map fun found =>
      { s with copies := s.copies ++ found.toList }
  | .modifyPeer copy edit =>
      match s.copies[copy]? with
      | none => some s
      | some copy => (s.toCPeerInfoList.modifyPeer (cell copy edit)).map fun (_, list) =>
          ⟨list, s.copies⟩
  | .modifyMultiMediaPeers uiMask bAndOR =>
      (s.toCPeerInfoList.modifyMultiMediaPeers uiMask bAndOR).map fun (_, list) => ⟨list, s.copies⟩

end PeerTableUse

end Cgsf.P2P
