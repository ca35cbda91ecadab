import Cgsf.Library.Reader

namespace Cgsf.P2P
open Library

def puPeerAddrTypeRelay : UInt8 := 4

def puPktHeadTypeReqEcho : UInt8 := 1
def puPktHeadTypeResEcho : UInt8 := 2
def puPktHeadTypeReqSyn : UInt8 := 3
def puPktHeadTypeResSyn : UInt8 := 4
def puPktHeadTypeReqFin : UInt8 := 5
def puPktHeadTypeResFin : UInt8 := 6
def puPktHeadTypeRelayData : UInt8 := 9
def puPktHeadTypeReqCheckExternalIp : UInt8 := 11
def puPktHeadTypeResCheckExternalIp : UInt8 := 12
def puPktHeadTypeRelayDataEx : UInt8 := 15
def puPktHeadTypeEnd : Nat := 255

def puPacketHeadLen : Nat := 12
def puPacketRelayHeadLen : Nat := 20
def puPacketRelayHeadExLen : Nat := 15
def puPacketRelayDestHeadExLen : Nat := 6
def puPacketSynBodyLen : Nat := 25
def puPacketFinBodyLen : Nat := 25

structure SockAddr where
  addr : Nat
  port : Nat
  deriving DecidableEq, Repr

/-- A datagram and the address it is sent to. -/
structure Datagram where
  remote : SockAddr
  data : List UInt8
  deriving DecidableEq, Repr

structure PuPacketHead where
  byType : UInt8
  byAddrType : UInt8
  len : Nat
  seqAck : Nat
  serial : Nat
  deriving DecidableEq, Repr

def PuPacketHead.bytes (h : PuPacketHead) : List UInt8 :=
  [h.byType, h.byAddrType] ++ beBytes 2 h.len ++ beBytes 4 h.seqAck ++ beBytes 4 h.serial

def bStoInt (position : Nat) : Reader Nat :=
  (Reader.bytes position 2).bind fun s => .done (beValue s)

def bStoLong (position : Nat) : Reader Nat :=
  (Reader.bytes position 4).bind fun s => .done (beValue s)

/-- How a handler sends: to whom, the header fields in their order, and where in memory the body
starts. -/
abbrev Send :=
  SockAddr → (byType byAddrType : UInt8) → (ulSeq ulSerial uiLen position : Nat) →
    Reader (List Datagram)

/-- The nested packet of a relay datagram goes to one destination. -/
def relayTo (send : Send) (position : Nat) (stDstRemote : SockAddr) : Reader (List Datagram) :=
  .read 12 fun byDstType => .read 13 fun byDstAddrType =>
  (bStoLong 4).bind fun ulSeq => (bStoLong 8).bind fun ulSerial => (bStoInt 2).bind fun uiLen =>
  send stDstRemote byDstType byDstAddrType ulSeq ulSerial uiLen position

def relayToAll (send : Send) (position : Nat) : List SockAddr → Reader (List Datagram)
  | [] => .done []
  | stDstRemote :: dests =>
      (relayTo send position stDstRemote).bind fun now =>
      (relayToAll send position dests).bind fun later => .done (now ++ later)

/-- The copies into `stDestHead`. -/
def destHeads (position : Nat) : Nat → Reader (List SockAddr)
  | 0 => .done []
  | count + 1 =>
      (Reader.bytes position puPacketRelayDestHeadExLen).bind fun s =>
      (destHeads (position + puPacketRelayDestHeadExLen) count).bind fun dests =>
      .done (⟨beValue (s.take 4), beValue (s.drop 4)⟩ :: dests)

/-- What `PktHandleRelayData` of server and client do alike. -/
def relayData (send : Send) (ulLen : Nat) : Reader (List Datagram) :=
  if ulLen < puPacketRelayHeadLen then .done []
  else .read 12 fun byDstType =>
    if byDstType = puPktHeadTypeRelayData then .done []
    else (bStoLong 14).bind fun addr => (bStoInt 18).bind fun port =>
      relayTo send puPacketRelayHeadLen ⟨addr, port⟩

/-- What `PktHandleRelayDataEx` of server and client do alike. -/
def relayDataEx (send : Send) (ulLen : Nat) : Reader (List Datagram) :=
  if ulLen < puPacketRelayHeadLen then .done []
  else .read 12 fun byDstType =>
    if byDstType = puPktHeadTypeRelayData then .done []
    else .read 14 fun byDstSize =>
      (destHeads puPacketRelayHeadExLen byDstSize.toNat).bind fun stDestHead =>
      relayToAll send
        (puPacketRelayDestHeadExLen * byDstSize.toNat + puPacketRelayHeadExLen) stDestHead

end Cgsf.P2P
