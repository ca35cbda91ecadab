import Cgsf.P2P.PuPktStructure

/-! # The peers of a client -/

namespace Cgsf.P2P

def puPeersMaxCount : Nat := 255

inductive PeerAddrType where
  | none
  | local
  | external
  | external2
  | relay
  | relayPeer
  deriving DecidableEq, Repr

inductive CompCondition where
  | index
  | addressL
  | addressE
  | addressLOrE
  | addressLAndE
  deriving DecidableEq, Repr

/-- A node as its default constructor leaves it. Times are in seconds. -/
structure CPeerInfoNode where
  byIndex : UInt8 := 0
  peerAddrType : PeerAddrType := .none
  compCondition : CompCondition := .index
  pktSeq : UInt32 := 0
  connFlagL : Bool := false
  connFlagE : Bool := false
  connFlagE2 : Bool := false
  connFlagR : Bool := false
  relayAblePeer : Bool := false
  remoteL : SockAddr := ⟨0, 0⟩
  remoteE : SockAddr := ⟨0, 0⟩
  remoteE2 : SockAddr := ⟨0, 0⟩
  remoteR : SockAddr := ⟨0, 0⟩
  lastRcvTimeL : Int := 0
  lastRcvTimeE : Int := 0
  lastRcvTimeE2 : Int := 0
  lastRcvTimeR : Int := 0
  dataType : UInt32 := 0
  deriving DecidableEq, Repr

namespace CPeerInfoNode

/-- `CompareTo` answers zero: the condition is that of the node that is searched for. -/
def same (node searched : CPeerInfoNode) : Bool :=
  match searched.compCondition with
  | .index => searched.byIndex = node.byIndex
  | .addressL => searched.remoteL = node.remoteL
  | .addressE => searched.remoteE = node.remoteE
  | .addressLOrE => searched.remoteL = node.remoteL ∨ searched.remoteE = node.remoteE
  | .addressLAndE => searched.remoteL = node.remoteL ∧ searched.remoteE = node.remoteE

def incSeq (node : CPeerInfoNode) : CPeerInfoNode := { node with pktSeq := node.pktSeq + 1 }

end CPeerInfoNode

end Cgsf.P2P
