import Cgsf.P2P.PuPktStructure

namespace Cgsf.P2P
open Library

/-- What the relay handlers of a client use of its configuration: of each peer the external address
and the one it was last heard from, and whether the constructor entered the handler of
`RELAYDATA_EX`. -/
structure CCtrlPeers where
  serial : Nat
  maxSndPktLen : Nat
  peerInfoList : List (SockAddr × SockAddr)
  relaysEx : Bool
  deriving DecidableEq, Repr

namespace CCtrlPeers

variable (c : CCtrlPeers)

/-- The walk over the peer list: the first peer with this external address decides. -/
def remoteE2 (stDstRemote : SockAddr) : SockAddr :=
  match c.peerInfoList.find? (fun peer => peer.1 == stDstRemote) with
  | some peer => peer.2
  | none => stDstRemote

/-- A client puts its own serial into the head. -/
def send : Send := fun stRemote byType byAddrType ulSeq _ uiLen position =>
  if puPacketHeadLen + uiLen ≥ c.maxSndPktLen then .done []
  else (Reader.bytes position uiLen).bind fun body =>
    .done [⟨stRemote, (PuPacketHead.mk byType byAddrType uiLen ulSeq c.serial).bytes ++ body⟩]

def sendToPeer : Send := fun stDstRemote => c.send (c.remoteE2 stDstRemote)

def pktHandleRelayData (ulLen : Nat) : Reader (List Datagram) :=
  (bStoLong 8).bind fun serial =>
    if serial ≠ c.serial then .done [] else relayData c.sendToPeer ulLen

def pktHandleRelayDataEx (ulLen : Nat) : Reader (List Datagram) :=
  (bStoLong 8).bind fun serial =>
    if serial ≠ c.serial then .done [] else relayDataEx c.sendToPeer ulLen

end CCtrlPeers

end Cgsf.P2P

namespace Cgsf.P2P.CRelaySlave
open Library

def relayPktMaxSize : Nat := 65535

def send : Send := fun stRemote byType byAddrType ulSeq ulSerial uiLen position =>
  if puPacketHeadLen + uiLen ≥ relayPktMaxSize then .done []
  else (Reader.bytes position uiLen).bind fun body =>
    .done [⟨stRemote, (PuPacketHead.mk byType byAddrType uiLen ulSeq ulSerial).bytes ++ body⟩]

def sendResEcho (stRemote : SockAddr) : (byAddrType : UInt8) →
    (ulSeq ulSerial uiLen position : Nat) → Reader (List Datagram) :=
  send stRemote puPktHeadTypeResEcho

def sendResSyn (stRemote : SockAddr) : (byAddrType : UInt8) →
    (ulSeq ulSerial uiLen position : Nat) → Reader (List Datagram) :=
  send stRemote puPktHeadTypeResSyn

def sendResFin (stRemote : SockAddr) : (byAddrType : UInt8) →
    (ulSeq ulSerial uiLen position : Nat) → Reader (List Datagram) :=
  send stRemote puPktHeadTypeResFin

def sendResCheckExternalIp (stRemote : SockAddr) (byAddrType : UInt8) (ulSeq ulSerial : Nat) :
    List Datagram :=
  [⟨stRemote, (PuPacketHead.mk puPktHeadTypeResCheckExternalIp byAddrType 6 ulSeq ulSerial).bytes ++
    beBytes 4 stRemote.addr ++ beBytes 2 stRemote.port⟩]

/-- The handlers read the datagram from the receive buffer; `ulLen` bytes of it were received. -/
abbrev RelayPktFunc := SockAddr → (ulLen : Nat) → Reader (List Datagram)

def pktHandleReqEcho : RelayPktFunc := fun stRemote ulLen =>
  .read 1 fun byAddrType => (bStoLong 4).bind fun ulSeq => (bStoLong 8).bind fun ulSerial =>
  sendResEcho stRemote byAddrType ulSeq ulSerial (ulLen - puPacketHeadLen) puPacketHeadLen

def pktHandleRelayData : RelayPktFunc := fun _ => relayData send

def pktHandleRelayDataEx : RelayPktFunc := fun _ => relayDataEx send

def pktHandleReqCheckExternalIp : RelayPktFunc := fun stRemote _ =>
  .read 1 fun byAddrType => (bStoLong 4).bind fun ulSeq => (bStoLong 8).bind fun ulSerial =>
  .done (sendResCheckExternalIp stRemote byAddrType ulSeq ulSerial)

/-- What `PktHandleReqSyn` and `PktHandleReqFin` do alike. -/
def answerRequest (bodyLen : Nat) (answer : SockAddr → (byAddrType : UInt8) →
    (ulSeq ulSerial uiLen position : Nat) → Reader (List Datagram)) : RelayPktFunc :=
  fun stRemote ulLen =>
    (bStoInt 2).bind fun len =>
      if bodyLen ≠ len then .done []
      else .read 1 fun byAddrType =>
        if puPeerAddrTypeRelay ≠ byAddrType then
          (bStoLong 4).bind fun ulSeq => (bStoLong 8).bind fun ulSerial =>
          answer stRemote byAddrType ulSeq ulSerial (ulLen - puPacketHeadLen) puPacketHeadLen
        else .done []

def pktHandleReqSyn : RelayPktFunc := answerRequest puPacketSynBodyLen sendResSyn

def pktHandleReqFin : RelayPktFunc := answerRequest puPacketFinBodyLen sendResFin

def pfFunc : List (Option RelayPktFunc) :=
  (((((List.replicate puPktHeadTypeEnd none
    |>.set puPktHeadTypeReqEcho.toNat (some pktHandleReqEcho))
    |>.set puPktHeadTypeRelayData.toNat (some pktHandleRelayData))
    |>.set puPktHeadTypeReqCheckExternalIp.toNat (some pktHandleReqCheckExternalIp))
    |>.set puPktHeadTypeReqSyn.toNat (some pktHandleReqSyn))
    |>.set puPktHeadTypeReqFin.toNat (some pktHandleReqFin))
    |>.set puPktHeadTypeRelayDataEx.toNat (some pktHandleRelayDataEx)

/-- One round of `Do` after a datagram of `nRet` bytes was received: `none` where the member called
is not one of the table. -/
def doRound (stRemote : SockAddr) (nRet : Nat) : Reader (Option (List Datagram)) :=
  if nRet < puPacketHeadLen then .done (some [])
  else .read 0 fun byType =>
    match pfFunc[byType.toNat]? with
    | none => .done none
    | some none => .done (some [])
    | some (some handler) => (handler stRemote nRet).bind fun sent => .done (some sent)

/-- `recvfrom` overwrites the start of the buffer; what it held behind that stays. -/
def receive (rcvData : Nat → UInt8) (data : List UInt8) : Nat → UInt8 :=
  fun i => data.getD i (rcvData i)

/-- `Do` on one datagram after another, each with its sender. -/
def doRounds : (Nat → UInt8) → List (SockAddr × List UInt8) → Option (List Datagram)
  | _, [] => some []
  | rcvData, (stRemote, data) :: rest =>
      let rcvData := receive rcvData data
      ((doRound stRemote data.length).run rcvData).bind fun sent =>
      (doRounds rcvData rest).map fun later => sent ++ later

end Cgsf.P2P.CRelaySlave

/-!
# A network of relays

Relay servers and clients that relay, each at its address, and the datagrams between them. What the
other handlers send counts as sent from outside.
-/

namespace Cgsf.P2P
open Library

inductive Relay where
  | slave
  | peers (c : CCtrlPeers)
  deriving DecidableEq, Repr

namespace Relay

def relaysEx : Relay → Bool
  | slave => true
  | peers c => c.relaysEx

def pktHandleRelayData : Relay → Nat → Reader (List Datagram)
  | slave => CRelaySlave.pktHandleRelayData ⟨0, 0⟩
  | peers c => c.pktHandleRelayData

def pktHandleRelayDataEx : Relay → Nat → Reader (List Datagram)
  | slave => CRelaySlave.pktHandleRelayDataEx ⟨0, 0⟩
  | peers c => c.pktHandleRelayDataEx

/-- What `Do` and `Pop` make of the relay types. -/
def forward (r : Relay) (ulLen : Nat) : Reader (List Datagram) :=
  if ulLen < puPacketHeadLen then .done []
  else .read 0 fun byType =>
    if byType = puPktHeadTypeRelayData then r.pktHandleRelayData ulLen
    else if byType = puPktHeadTypeRelayDataEx ∧ r.relaysEx = true then r.pktHandleRelayDataEx ulLen
    else .done []

end Relay

/-- A datagram on its way, with the one from outside that it goes back to and the number of relays
that it passed. -/
structure Flight extends Datagram where
  origin : Nat
  hops : Nat
  deriving DecidableEq, Repr

structure Network where
  inFlight : List Flight := []
  relayed : List Flight := []
  origins : Nat := 0
  deriving DecidableEq, Repr

/-- A datagram comes from outside, is lost or goes to another handler, or reaches a relay whose
buffer holds `stale` behind it. -/
inductive NetworkEvent where
  | send (p : Datagram)
  | lose (i : Nat)
  | relay (i : Nat) (stale : Nat → UInt8)

namespace Network

def relayedBy (r : Relay) (m : Flight) (stale : Nat → UInt8) : List Flight :=
  ((r.forward m.data.length).run (CRelaySlave.receive stale m.data)).map fun p =>
    { p with origin := m.origin, hops := m.hops + 1 }

def step (relays : SockAddr → Option Relay) (s : Network) : NetworkEvent → Network
  | .send p =>
      { s with
        inFlight := s.inFlight ++ [{ p with origin := s.origins, hops := 0 }]
        origins := s.origins + 1 }
  | .lose i => { s with inFlight := s.inFlight.eraseIdx i }
  | .relay i stale =>
      match s.inFlight[i]? with
      | none => s
      | some m =>
          match relays m.remote with
          | none => s
          | some r =>
              { s with
                inFlight := s.inFlight.eraseIdx i ++ relayedBy r m stale
                relayed := s.relayed ++ relayedBy r m stale }

end Network

end Cgsf.P2P
