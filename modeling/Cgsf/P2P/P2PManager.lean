import Cgsf.BaseLayer.SFFastCRC
import Std.Data.TreeMap

/-!
# The SDL client and server

A datagram is a check value and the bytes behind it, of which the first two are the directive.
-/

namespace Cgsf.P2P
open BaseLayer Library

abbrev WORD := BitVec 16

def udpPktPublicIPReq : WORD := 1000
def udpPublicIPRes : WORD := 1001
def udpPktPingPongReq : WORD := 1002
def udpPktPingPongRes : WORD := 1003

def maxSdlP2PPacketSize : Nat := 1024

/-- `sizeof(NetPacketHeader)`, two bytes of which are padding. -/
def netPacketHeaderSize : Nat := 8

def putWord (w : WORD) : List (BitVec 8) := [w.extractLsb' 0 8, w.extractLsb' 8 8]

def putDword (d : DWORD) : List (BitVec 8) := putWord (d.extractLsb' 0 16) ++ putWord (d.extractLsb' 16 16)

def getWord (bytes : List (BitVec 8)) : WORD := bytes.getD 1 0 ++ bytes.getD 0 0

def getDword (bytes : List (BitVec 8)) : DWORD := getWord (bytes.drop 2) ++ getWord bytes

structure IPaddress where
  host : DWORD
  port : WORD
  deriving DecidableEq, Repr

structure PeerAddressInfo where
  localIP : DWORD
  localPort : WORD
  externalIP : DWORD
  externalPort : WORD
  deriving DecidableEq, Repr

structure P2PPeerInfo where
  peerAdressInfo : PeerAddressInfo
  isConnected : Bool
  lastPingPongTime : DWORD
  recvPingPongCnt : DWORD
  deriving DecidableEq, Repr

/-- The channels of a socket of SDL_net, with the addresses that are bound to each. -/
structure SDLNet (Sock : Type) where
  bind : Sock → Int → IPaddress → Sock
  unbind : Sock → Int → Sock
  bound : Sock → Int → List IPaddress

/-- `SDLNet_UDP_Unbind` removes all addresses from the given channel. -/
def SDLNet.Unbinds {Sock : Type} (net : SDLNet Sock) : Prop :=
  ∀ sock channel c, net.bound (net.unbind sock channel) c =
    if c = channel then [] else net.bound sock c

/-- `SDL_SwapBE32` and `SDL_SwapBE16`, where the lowest byte is first. -/
def swapBE32 (d : DWORD) : DWORD := getDword (putDword d).reverse

def swapBE16 (w : WORD) : WORD := getWord (putWord w).reverse

structure P2PManager (Sock : Type) where
  sock : Sock
  peerIndex : DWORD := 0
  mapPeer : Std.TreeMap Int P2PPeerInfo := ∅

namespace P2PManager

variable {Sock : Type} (net : SDLNet Sock) (m : P2PManager Sock)

/-- The peer keeps the whole index, the caller gets its low byte. -/
def addPeer (pAddressInfo : PeerAddressInfo) (tickCount : DWORD) : BitVec 8 × P2PManager Sock :=
  let peerInfo : P2PPeerInfo :=
    { peerAdressInfo := pAddressInfo
      lastPingPongTime := tickCount
      isConnected := false
      recvPingPongCnt := 0 }
  let newip : IPaddress :=
    ⟨swapBE32 pAddressInfo.externalIP, swapBE16 pAddressInfo.externalPort⟩
  (m.peerIndex.setWidth 8,
    { sock := net.bind m.sock m.peerIndex.toInt newip
      peerIndex := m.peerIndex + 1
      mapPeer := m.mapPeer.insertIfNew m.peerIndex.toInt peerInfo })

def removePeer (byIndex : BitVec 8) : P2PManager Sock :=
  { m with
    mapPeer := m.mapPeer.erase byIndex.toNat
    sock := net.unbind m.sock byIndex.toNat }

def findPeer (channel : Int) : Option P2PPeerInfo := m.mapPeer[channel]?

end P2PManager

/-- A packet of SDL_net: the bytes allocated for it, of which the first `len` are sent or were
received. `channel` is negative where no channel is bound to the address. -/
structure UDPpacket where
  channel : Int
  data : List (BitVec 8)
  len : Nat
  address : IPaddress
  deriving DecidableEq, Repr

/-- `SDLNet_AllocPacketV` was asked for `MAX_SDL_P2P_PACKET_SIZE` bytes. -/
structure UDPpacket.Allocated (p : UDPpacket) : Prop where
  room : p.data.length = maxSdlP2PPacketSize
  inside : p.len ≤ p.data.length

/-- The bytes that `SDLNet_UDP_Send` sends and `SDLNet_UDP_RecvV` has received. -/
def UDPpacket.datagram (p : UDPpacket) : List (BitVec 8) := p.data.take p.len

/-- The `pData` of `EncodePacket`: the data of the packet itself, or other memory. -/
inductive PData where
  | own
  | memory (bytes : List (BitVec 8))
  deriving DecidableEq, Repr

def PData.bytes (pPacket : UDPpacket) : PData → List (BitVec 8)
  | own => pPacket.data
  | memory bytes => bytes

/-- The client's `GetP2PPacketCRC`. -/
def clientPacketCRC (pBuffer : List (BitVec 8)) : DWORD :=
  match SFFastCRC.getSimpleCRC (some pBuffer) with
  | some crc => crc
  | none => -1

/-- The server's `GetP2PPacketCRC`. -/
def serverPacketCRC (crc32 : DWORD → List (BitVec 8) → DWORD) (pBuffer : List (BitVec 8)) : DWORD :=
  SFFastCRC.getZLibCRC crc32 pBuffer 0

/-- `len` bytes of `pData` are encoded. The comparison is one of unsigned numbers. -/
def encodePacket (pData : PData) (pPacket : UDPpacket) (len : Nat) : Bool × UDPpacket :=
  let bytes := pData.bytes pPacket
  let crc := clientPacketCRC ((bytes.drop 4).take (len - 4))
  if crc < (-1 : DWORD) then (false, pPacket)
  else
    let bytes := putDword crc ++ bytes.drop 4
    match pData with
    | .own => (true, { pPacket with data := bytes })
    | .memory _ =>
        (true, { pPacket with data := bytes.take len ++ pPacket.data.drop len, len })

/-- `P2PPingPong` before it is encoded; the fields that are not written to are `garbage`. -/
def pingPongBytes (garbage : DWORD × WORD) (directive : WORD) (sendTime : DWORD) :
    List (BitVec 8) :=
  putDword garbage.1 ++ putWord directive ++ putWord garbage.2 ++ putDword sendTime

/-- The packet that `SendUDPPingPongPacket` sends, `g_Packets[0]`, whether or not it was encoded. -/
def sendUDPPingPongPacket (garbage : DWORD × WORD) (sendTime : DWORD) (pPacket : UDPpacket) :
    UDPpacket :=
  (encodePacket (.memory (pingPongBytes garbage udpPktPingPongReq sendTime)) pPacket 12).2

/-- The packet that `ProcessPingPongReq` sends back. -/
def processPingPongReq (pPacket : UDPpacket) : UDPpacket :=
  let pPacket := { pPacket with
    data := pPacket.data.take 4 ++ putWord udpPktPingPongRes ++ pPacket.data.drop 6 }
  (encodePacket .own pPacket pPacket.len).2

/-- What becomes of a packet that is to be sent. -/
inductive Outcome where
  | notSent
  /-- The data pointer of the packet has been written over. -/
  | wildPointer
  | sent (datagram : List (BitVec 8))
  deriving DecidableEq, Repr

/-- `P2PPublicIP` behind its check value; the fields that are not written to are `padding`. -/
def publicIPBody (externalAdress : IPaddress) (padding : WORD × WORD) : List (BitVec 8) :=
  putWord udpPublicIPRes ++ putWord padding.1 ++ putDword externalAdress.host ++
    putWord externalAdress.port ++ putWord padding.2

/-- The server's `ProcessPublicIP`. What is copied goes to the packet, not to its data. -/
def processPublicIP (crc32 : DWORD → List (BitVec 8) → DWORD) (externalAdress : IPaddress)
    (padding : WORD × WORD) : Outcome :=
  let crc := serverPacketCRC crc32 (publicIPBody externalAdress padding)
  if crc < (-1 : DWORD) then .notSent else .wildPointer

inductive Handler where
  | publicIP
  | pingPongReq
  | pingPongRes
  deriving DecidableEq, Repr

/-- The two programs that receive. -/
inductive Side where
  | client
  | server
  deriving DecidableEq, Repr

/-- The `switch` over the directive. -/
def Side.handler (directive : WORD) : Side → Option Handler
  | client =>
      if directive = udpPublicIPRes then some .publicIP
      else if directive = udpPktPingPongReq then some .pingPongReq
      else if directive = udpPktPingPongRes then some .pingPongRes
      else none
  | server => if directive = udpPktPublicIPReq then some .publicIP else none

/-- The check value of a datagram is the one computed from what `dwCRC` held. -/
def checks (crc32 : DWORD → List (BitVec 8) → DWORD) (dwCRC : DWORD) (datagram : List (BitVec 8)) :
    Bool :=
  netPacketHeaderSize < datagram.length ∧
    SFFastCRC.getZLibCRC crc32 (datagram.drop 4) dwCRC = getDword datagram

/-- One turn of the loops of `HandleRecv` and `HandleClient`, up to the handler it returns from. -/
def dispatch (side : Side) (crc32 : DWORD → List (BitVec 8) → DWORD) (dwCRC : DWORD)
    (p : UDPpacket) : Option Handler :=
  if p.channel ≥ 0 ∧ checks crc32 dwCRC p.datagram then side.handler (getWord (p.datagram.drop 4))
  else none

/-- From the last of the first `n` packets on; `dwCRC` tells what the variable, which nothing
initialises, holds in each turn. -/
def dispatchLoop (side : Side) (crc32 : DWORD → List (BitVec 8) → DWORD) (dwCRC : Nat → DWORD)
    (packets : List UDPpacket) : Nat → List (Nat × Handler)
  | 0 => []
  | n + 1 =>
      match packets[n]?.bind (dispatch side crc32 (dwCRC n)) with
      | some handler => [(n, handler)]
      | none => dispatchLoop side crc32 dwCRC packets n

/-- `HandleRecv` and `HandleClient`: the packets that reach a handler, of those that were received.
Nothing where `g_Packets` has not been allocated. -/
def handleReceived (side : Side) (allocated : Bool) (crc32 : DWORD → List (BitVec 8) → DWORD)
    (dwCRC : Nat → DWORD) (packets : List UDPpacket) : Option (List (Nat × Handler)) :=
  if allocated then some (dispatchLoop side crc32 dwCRC packets packets.length) else none

/-! ## Agreement -/

/-- The datagram carries the bytes and the receiver accepts its check value. -/
structure Carries (crc32 : DWORD → List (BitVec 8) → DWORD) (dwCRC : DWORD)
    (bytes datagram : List (BitVec 8)) : Prop where
  length : datagram.length = bytes.length
  body : datagram.drop 4 = bytes.drop 4
  accepted : checks crc32 dwCRC datagram

/-- A datagram that was received whole and that `side` has a handler for. -/
structure ValidFor (side : Side) (p : UDPpacket) (handler : Handler) : Prop where
  bound : p.channel ≥ 0
  long : netPacketHeaderSize < p.datagram.length
  checked : getDword p.datagram = crcFrom crcPolynomial 0 (p.datagram.drop 4)
  known : side.handler (getWord (p.datagram.drop 4)) = some handler

/-- Every packet of a batch that is valid for the side reaches its handler, once. -/
def HandlesEach (side : Side) (allocated : Bool) (crc32 : DWORD → List (BitVec 8) → DWORD)
    (dwCRC : Nat → DWORD) (packets : List UDPpacket) : Prop :=
  ∃ handled, handleReceived side allocated crc32 dwCRC packets = some handled ∧
    ∀ n p handler, packets[n]? = some p → ValidFor side p handler →
      (handled.filter fun h => h.1 = n) = [(n, handler)]

end Cgsf.P2P
