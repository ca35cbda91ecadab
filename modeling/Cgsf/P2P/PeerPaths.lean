import Cgsf.P2P.PeerInfo

/-!
# The paths to the peers

The table as the list of its peers in the order of `CBoList`, and the pool of free nodes in the order
in which they are given out. `Find(byIndex)` answers the listed node of that index.
-/

namespace Cgsf.P2P

namespace CPeerInfoNode

variable (node : CPeerInfoNode)

def connFlag : PeerAddrType → Bool
  | .local => node.connFlagL
  | .external => node.connFlagE
  | .external2 => node.connFlagE2
  | .relay => node.connFlagR
  | .none | .relayPeer => false

def setConnFlag (bConnFlag : Bool) : PeerAddrType → CPeerInfoNode
  | .local => { node with connFlagL := bConnFlag }
  | .external => { node with connFlagE := bConnFlag }
  | .external2 => { node with connFlagE2 := bConnFlag }
  | .relay => { node with connFlagR := bConnFlag }
  | .none | .relayPeer => node

/-- The address that both overloads with an address compare. -/
def remote : PeerAddrType → Option SockAddr
  | .local => some node.remoteL
  | .external | .external2 => some node.remoteE
  | .relay => some node.remoteR
  | .none | .relayPeer => none

/-- The first of the types whose flag is set. -/
def choose (types : List PeerAddrType) : PeerAddrType :=
  (types.find? node.connFlag).getD .none

/-- `PeerConnectCheck` on the node; `none` where it answers `FALSE`. -/
def connectCheck : PeerAddrType → Option CPeerInfoNode
  | .relay =>
      let node := node.setConnFlag true .relay
      some (if node.connFlagL = false ∧ node.connFlagE = false then
        { node with peerAddrType := .relay } else node)
  | .external =>
      let node := node.setConnFlag true .external
      some (if node.connFlagL = false then { node with peerAddrType := .external } else node)
  | .external2 =>
      let node := node.setConnFlag true .external2
      some (if node.connFlagL = false then { node with peerAddrType := .external2 } else node)
  | .local =>
      let node := node.setConnFlag true .local
      some { node with peerAddrType := .local }
  | .none | .relayPeer => none

/-- What `PeerDisconnectCheck` does alike for each type. -/
def lose (enumAddrType : PeerAddrType) (others : List PeerAddrType) : CPeerInfoNode :=
  let node := node.setConnFlag false enumAddrType
  if node.peerAddrType = enumAddrType then { node with peerAddrType := node.choose others } else node

def disconnectCheck : PeerAddrType → Option CPeerInfoNode
  | .relay => some (node.lose .relay [.local, .external, .external2])
  | .external => some (node.lose .external [.local, .external2, .relay])
  | .external2 => some (node.lose .external2 [.local, .external, .relay])
  | .local => some (node.lose .local [.external, .external2, .relay])
  | .none | .relayPeer => none

def setLastRcvTime (tTime : Int) : PeerAddrType → CPeerInfoNode
  | .local => { node with lastRcvTimeL := tTime }
  | .external => { node with lastRcvTimeE := tTime }
  | .external2 => { node with lastRcvTimeE2 := tTime }
  | .relay => { node with lastRcvTimeR := tTime }
  | .none | .relayPeer => node

/-- The visit of `TryCheckPeers`; `OCF_CON_RELAY` is defined nowhere. -/
def tryCheck (uiPeriod : UInt16) (tCurrent : Int) : CPeerInfoNode :=
  let node := node.incSeq
  if node.connFlagL = true then
    if uiPeriod.toNat < tCurrent - node.lastRcvTimeL then { node with connFlagL := false } else node
  else if node.connFlagE2 = true then
    if uiPeriod.toNat < tCurrent - node.lastRcvTimeE2 then { node with connFlagE2 := false }
    else node
  else node

/-- What `IsPeerConnection` answers for the node. -/
def isConnection : Bool :=
  if node.connFlagL = false ∧ node.connFlagE = false ∧ node.connFlagR = false then false else true

/-- What `AddPeer` makes of a node of the pool. -/
def added (remoteL remoteE remoteE2 stRelayPeer : SockAddr) (tTime : Int) : CPeerInfoNode :=
  { node with
    connFlagL := false
    connFlagE := false
    connFlagE2 := false
    connFlagR := true
    relayAblePeer := false
    lastRcvTimeL := tTime
    lastRcvTimeE := tTime
    lastRcvTimeE2 := tTime
    lastRcvTimeR := tTime
    remoteL := remoteL
    remoteE := remoteE
    remoteE2 := remoteE2
    remoteR := stRelayPeer
    peerAddrType := .none
    compCondition := .addressLAndE }

end CPeerInfoNode

/-- The arguments of `AddPeer`, with the relay server, the time and whether the local address is
known. -/
structure AddPeerArgs where
  remoteL : SockAddr
  remoteE : SockAddr
  remoteE2 : SockAddr
  stRelayPeer : SockAddr
  tTime : Int
  localKnown : Bool
  deriving DecidableEq, Repr

structure PeerList where
  peers : List CPeerInfoNode
  pool : List CPeerInfoNode
  deriving DecidableEq, Repr

namespace PeerList

/-- The constructor gives each node a random number to count from. -/
def construct (rand : UInt8 → UInt32) : PeerList where
  peers := []
  pool := (List.range' 1 (puPeersMaxCount - 1)).reverse.map fun byStep =>
    { byIndex := UInt8.ofNat byStep, pktSeq := rand (UInt8.ofNat byStep) }

variable (list : PeerList)

def find (byIndex : UInt8) : Option CPeerInfoNode := list.peers.find? (·.byIndex = byIndex)

/-- The listed node of that index is now this one. -/
def set (node : CPeerInfoNode) : PeerList :=
  { list with peers := list.peers.map fun old => if old.byIndex = node.byIndex then node else old }

def addPeer (args : AddPeerArgs) : Bool × PeerList :=
  match list.pool with
  | [] => (false, list)
  | pcPeerInfo :: pool =>
      let pcPeerInfo := pcPeerInfo.added args.remoteL args.remoteE args.remoteE2 args.stRelayPeer
        args.tTime
      if list.peers.any (·.same pcPeerInfo) then
        -- `TryCheckRelayAblePeer` numbers a packet to every peer
        (false, ⟨if args.localKnown then list.peers.map (·.incSeq) else list.peers,
          pcPeerInfo :: pool⟩)
      else (true, ⟨list.peers ++ [pcPeerInfo], pool⟩)

/-- What `PeerConnectCheck` and `PeerDisconnectCheck` do alike, with an address or without. -/
def check (update : CPeerInfoNode → PeerAddrType → Option CPeerInfoNode) (byIndex : UInt8)
    (enumAddrType : PeerAddrType) (stRemote : Option SockAddr) : Bool × PeerList :=
  match list.find byIndex with
  | none => (false, list)
  | some pcSrchPeerInfo =>
      if stRemote = none ∨ stRemote = pcSrchPeerInfo.remote enumAddrType then
        match update pcSrchPeerInfo enumAddrType with
        | none => (false, list)
        | some node => (true, list.set node)
      else (false, list)

def peerConnectCheck : UInt8 → PeerAddrType → Option SockAddr → Bool × PeerList :=
  list.check CPeerInfoNode.connectCheck

def peerDisconnectCheck : UInt8 → PeerAddrType → Option SockAddr → Bool × PeerList :=
  list.check CPeerInfoNode.disconnectCheck

def updatePeerRcvTime (byIndex : UInt8) (enumAddrType : PeerAddrType) (tTime : Int) : PeerList :=
  match list.find byIndex with
  | none => list
  | some pcSrchPeerInfo => list.set (pcSrchPeerInfo.setLastRcvTime tTime enumAddrType)

def tryCheckPeers (uiPeriod : UInt16) (tCurrent : Int) : PeerList :=
  { list with peers := list.peers.map (·.tryCheck uiPeriod tCurrent) }

def isPeerConnection (byIndex : UInt8) : Bool :=
  ((list.find byIndex).map (·.isConnection)).getD false

/-- The first listed peer that has one of the addresses. -/
def findAt (stRemote stRemoteE : SockAddr) : Option CPeerInfoNode :=
  let cSrchPeerInfo : CPeerInfoNode :=
    { compCondition := .addressLOrE, remoteL := stRemote, remoteE := stRemoteE }
  list.peers.find? (·.same cSrchPeerInfo)

def isPeerConnectionAt (stRemote stRemoteE : SockAddr) : Bool :=
  ((list.findAt stRemote stRemoteE).map (·.isConnection)).getD false

end PeerList

/-- The peer list, and for which indices a `PeerConnectCheck` has succeeded since the peer was
added. -/
structure PeerPaths extends PeerList where
  checked : UInt8 → Bool

inductive PeerPathEvent where
  | addPeer (args : AddPeerArgs)
  | peerConnectCheck (byIndex : UInt8) (enumAddrType : PeerAddrType) (stRemote : Option SockAddr)
  | peerDisconnectCheck (byIndex : UInt8) (enumAddrType : PeerAddrType)
      (stRemote : Option SockAddr)
  | updatePeerRcvTime (byIndex : UInt8) (enumAddrType : PeerAddrType) (tTime : Int)
  | tryCheckPeers (uiPeriod : UInt16) (tCurrent : Int)
  deriving DecidableEq, Repr

namespace PeerPaths

def construct (rand : UInt8 → UInt32) : PeerPaths := ⟨.construct rand, fun _ => false⟩

def step (s : PeerPaths) : PeerPathEvent → PeerPaths
  | .addPeer args =>
      let (added, list) := s.addPeer args
      ⟨list, fun i => if added = true ∧ (s.pool.head?.map (·.byIndex)) = some i then false
        else s.checked i⟩
  | .peerConnectCheck byIndex enumAddrType stRemote =>
      let (succeeded, list) := s.peerConnectCheck byIndex enumAddrType stRemote
      ⟨list, fun i => (succeeded && byIndex == i) || s.checked i⟩
  | .peerDisconnectCheck byIndex enumAddrType stRemote =>
      ⟨(s.peerDisconnectCheck byIndex enumAddrType stRemote).2, s.checked⟩
  | .updatePeerRcvTime byIndex enumAddrType tTime =>
      ⟨s.toPeerList.updatePeerRcvTime byIndex enumAddrType tTime, s.checked⟩
  | .tryCheckPeers uiPeriod tCurrent => ⟨s.toPeerList.tryCheckPeers uiPeriod tCurrent, s.checked⟩

/-- A chosen type names a path that is up. Once a check has succeeded, the first path that is up is
chosen, and `IsPeerConnection` answers whether there is one. -/
def Consistent (s : PeerPaths) : Prop :=
  ∀ node ∈ s.peers,
    (node.peerAddrType ≠ .none → node.connFlag node.peerAddrType = true) ∧
    (s.checked node.byIndex = true →
      node.peerAddrType = node.choose [.local, .external, .external2, .relay] ∧
      (s.isPeerConnection node.byIndex = true ↔ ∃ path, node.connFlag path = true) ∧
      ∀ stRemote stRemoteE, s.findAt stRemote stRemoteE = some node →
        (s.isPeerConnectionAt stRemote stRemoteE = true ↔ ∃ path, node.connFlag path = true))

end PeerPaths

end Cgsf.P2P
