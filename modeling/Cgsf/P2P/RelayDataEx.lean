import Cgsf.Library.Rounding
import Cgsf.P2P.PeerInfo
import Cgsf.P2P.Relays

/-!
# The packet of several destinations
-/

namespace Cgsf.P2P
open Library

def puPktHeadTypeData : UInt8 := 8

/-- The arguments of `SendRelayDataEx` and the serial of the configuration, as wide as their types,
with no more destinations than a table has peers. The nested packet is none of type `RELAYDATA`. -/
structure RelayRequest where
  vectorStDstRemote : List SockAddr
  enumType : UInt8 := puPktHeadTypeData
  enumAddrType : UInt8 := puPeerAddrTypeRelay
  ulSeq : UInt32
  ulSerial : UInt32
  pbyBuff : List UInt8
  few : vectorStDstRemote.length < puPeersMaxCount
  wide : ∀ dst ∈ vectorStDstRemote, dst.addr < 2 ^ 32 ∧ dst.port < 2 ^ 16
  nested : enumType ≠ puPktHeadTypeRelayData
  uiLen : pbyBuff.length < 2 ^ 16

namespace RelayRequest

variable (request : RelayRequest)

def stHd : List UInt8 :=
  (PuPacketHead.mk puPktHeadTypeRelayDataEx puPeerAddrTypeRelay request.pbyBuff.length
    request.ulSeq.toNat request.ulSerial.toNat).bytes ++
    [request.enumType, request.enumAddrType, UInt8.ofNat request.vectorStDstRemote.length]

def stDestHead : List UInt8 :=
  request.vectorStDstRemote.flatMap fun dst => beBytes 4 dst.addr ++ beBytes 2 dst.port

/-- What is copied to `byDestHead`; nothing where it or `stDestHead` has no room. -/
def byDestHead : Option (List UInt8) :=
  if request.vectorStDstRemote.length ≤ puPeersMaxCount ∧
      request.stHd.length + request.stDestHead.length ≤
        puPacketRelayDestHeadExLen * puPeersMaxCount then
    some (request.stHd ++ request.stDestHead)
  else none

end RelayRequest

/-- `Push` refuses what is too long. -/
def CCtrlPeers.sendRelayDataEx (ulMaxSndPktLen : Nat) (stRemote : SockAddr)
    (request : RelayRequest) : Option (List Datagram) :=
  request.byDestHead.map fun byDestHead =>
    if byDestHead.length + request.pbyBuff.length ≥ ulMaxSndPktLen then []
    else [⟨stRemote, byDestHead ++ request.pbyBuff⟩]

namespace Relay

/-- Where a relay sends what is for a destination. -/
def remote : Relay → SockAddr → SockAddr
  | slave, dst => dst
  | peers c, dst => c.remoteE2 dst

/-- A client has the serial of its session, and sends packets of this length. -/
def Takes : Relay → (ulSerial : UInt32) → (uiLen : Nat) → Prop
  | slave, _, uiLen => puPacketHeadLen + uiLen < CRelaySlave.relayPktMaxSize
  | peers c, ulSerial, uiLen => c.serial = ulSerial.toNat ∧ puPacketHeadLen + uiLen < c.maxSndPktLen

end Relay

namespace RelayRequest

variable (request : RelayRequest)

/-- The nested packet, once for each destination. -/
def forwarded (relay : Relay) : List Datagram :=
  request.vectorStDstRemote.map fun dst =>
    ⟨relay.remote dst, (PuPacketHead.mk request.enumType request.enumAddrType
      request.pbyBuff.length request.ulSeq.toNat request.ulSerial.toNat).bytes ++ request.pbyBuff⟩

/-- Nothing is written outside the buffers, and what is sent counts the destinations; every relay
that takes it forwards the body to them and to nobody else, whatever its receive buffer holds. -/
def Relayed (ulMaxSndPktLen : Nat) (stRemote : SockAddr) : Prop :=
  ∃ sent, CCtrlPeers.sendRelayDataEx ulMaxSndPktLen stRemote request = some sent ∧
    ∀ p ∈ sent, p.remote = stRemote ∧
      (p.data.getD 14 0).toNat = request.vectorStDstRemote.length ∧
      ∀ (relay : Relay) (rcvData : Nat → UInt8),
        relay.Takes request.ulSerial request.pbyBuff.length →
        (relay.pktHandleRelayDataEx p.data.length).run (CRelaySlave.receive rcvData p.data) =
          request.forwarded relay

end RelayRequest

end Cgsf.P2P

/-!
# Data for the peers

Data goes to each peer of its type, and what can only be relayed is divided among the peers that
relay, or left to the relay server.
-/

namespace Cgsf.P2P
open Library

inductive PeerSend where
  | data (stRemote : SockAddr) (enumAddrType : PeerAddrType) (ulSeq : UInt32)
  | relayDataEx (stRemote : SockAddr) (vectorStDstRemote : List CPeerInfoNode) (ulSeq : UInt32)
  deriving DecidableEq, Repr

/-- The walk over the list. `ulSeq` has no value before the first peer of the type. -/
structure DataPass where
  sends : List PeerSend := []
  vectorRelayDestPeer : List CPeerInfoNode := []
  ulSeq : UInt32 := 0
  peers : List CPeerInfoNode := []

def DataPass.visit (iDataType : UInt32) (pass : DataPass) (pcCurrPeer : CPeerInfoNode) :
    DataPass :=
  if iDataType &&& pcCurrPeer.dataType ≠ 0 then
    let pcCurrPeer := pcCurrPeer.incSeq
    let ulSeq := pcCurrPeer.pktSeq
    let pass := { pass with ulSeq, peers := pass.peers ++ [pcCurrPeer] }
    if pcCurrPeer.connFlagL then
      { pass with sends := pass.sends ++ [.data pcCurrPeer.remoteL .local ulSeq] }
    else if pcCurrPeer.connFlagE2 then
      { pass with sends := pass.sends ++ [.data pcCurrPeer.remoteE2 .external2 ulSeq] }
    else { pass with vectorRelayDestPeer := pass.vectorRelayDestPeer ++ [pcCurrPeer] }
  else { pass with peers := pass.peers ++ [pcCurrPeer] }

/-- A difference of two `ULONG`. -/
def ulongSub (a b : Nat) : Nat := (a + (2 ^ 32 - b % 2 ^ 32)) % 2 ^ 32

/-- `int((float(ulRelayDestSize) / float(ulRelayAbleSize)) + 0.5)`; the half is a `double`. -/
def ulDivSize (ulRelayDestSize ulRelayAbleSize : Nat) : Nat :=
  let quotient := roundBinary 24 (roundBinary 24 ulRelayDestSize / roundBinary 24 ulRelayAbleSize)
  ⌊roundBinary 53 (quotient + 1 / 2)⌋₊

def relaySize (ulRelayDestSize ulDivSize uli : Nat) : Nat :=
  let rest := ulongSub ulRelayDestSize (uli * ulDivSize % 2 ^ 32)
  if rest > ulDivSize then ulDivSize else rest

/-- What `memcpy` reads of `vectorRelayDestPeer` for one relay: it starts at `uli * ulSize`. -/
def relayPositions (ulRelayDestSize ulDivSize uli : Nat) : List Nat :=
  let ulSize := relaySize ulRelayDestSize ulDivSize uli
  List.range' (uli * ulSize % 2 ^ 32) ulSize

namespace CCtrlPeers

/-- The packets of the relay peers; nothing where something behind the destinations is read. -/
def divideRelay (vectorRelayAblePeer vectorRelayDestPeer : List CPeerInfoNode) (ulSeq : UInt32) :
    Option (List PeerSend) :=
  let ulRelayDestSize := vectorRelayDestPeer.length
  let ulDivSize := ulDivSize ulRelayDestSize vectorRelayAblePeer.length
  vectorRelayAblePeer.zipIdx.mapM fun (pcRelayAblePeer, uli) => do
    let vectorDivRelay ← (relayPositions ulRelayDestSize ulDivSize uli).mapM
      (vectorRelayDestPeer[·]?)
    return .relayDataEx pcRelayAblePeer.remoteE vectorDivRelay ulSeq

def tryDataForPeersEx (peers : List CPeerInfoNode) (bRelayServerFirst : Bool)
    (iDataType : UInt32) : Option (List PeerSend × List CPeerInfoNode) := do
  let vectorRelayAblePeer := peers.filter (·.relayAblePeer)
  let pass := peers.foldl (DataPass.visit iDataType) {}
  if pass.vectorRelayDestPeer = [] then return (pass.sends, pass.peers)
  else if vectorRelayAblePeer ≠ [] ∧ bRelayServerFirst = false then
    let relayed ← divideRelay vectorRelayAblePeer pass.vectorRelayDestPeer pass.ulSeq
    return (pass.sends ++ relayed, pass.peers)
  else
    let pcCurrPeer ← peers.head?
    return (pass.sends ++ [.relayDataEx pcCurrPeer.remoteR pass.vectorRelayDestPeer pass.ulSeq],
      pass.peers)

end CCtrlPeers

/-- The peers of a table: each index of the pool is given out once. -/
structure PeerTable where
  peers : List CPeerInfoNode
  unique : (peers.map (·.byIndex)).Nodup
  within : peers.length < puPeersMaxCount

namespace PeerTable

variable (table : PeerTable)

def relayAble : List CPeerInfoNode := table.peers.filter (·.relayAblePeer)

/-- The peers of the type that are reached over a relay only. -/
def needRelay (iDataType : UInt32) : List CPeerInfoNode :=
  table.peers.filter fun peer =>
    iDataType &&& peer.dataType ≠ 0 ∧ peer.connFlagL = false ∧ peer.connFlagE2 = false

/-- The packets to relays among what is sent. -/
def relayPackets (sends : List PeerSend) : List (SockAddr × List UInt8) :=
  sends.filterMap fun
    | .relayDataEx stRemote dests _ => some (stRemote, dests.map (·.byIndex))
    | .data .. => none

/-- The work is divided among peers. -/
def Divided (bRelayServerFirst : Bool) : Prop :=
  table.relayAble ≠ [] ∧ bRelayServerFirst = false

/-- Nothing is read outside the destinations and no difference of counts is below zero; every
destination is in one packet, and where peers share the work, each of them is sent its packet. -/
def RelaysOnce (bRelayServerFirst : Bool) (iDataType : UInt32) : Prop :=
  ∃ outcome, CCtrlPeers.tryDataForPeersEx table.peers bRelayServerFirst iDataType = some outcome ∧
    ((relayPackets outcome.1).flatMap (·.2)).Perm ((table.needRelay iDataType).map (·.byIndex)) ∧
    (table.Divided bRelayServerFirst → table.needRelay iDataType ≠ [] →
      (relayPackets outcome.1).map (·.1) = table.relayAble.map (·.remoteE) ∧
      ∀ uli < table.relayAble.length,
        uli * ulDivSize (table.needRelay iDataType).length table.relayAble.length ≤
          (table.needRelay iDataType).length)

end PeerTable

end Cgsf.P2P
