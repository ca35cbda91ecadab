import Cgsf.P2P.P2PManager
import Mathlib.Logic.Function.Basic

/-!
# Peers and the indices their callers hold
-/

namespace Cgsf.P2P
open BaseLayer

inductive PeerCall where
  | addPeer (pAddressInfo : PeerAddressInfo) (tickCount : DWORD)
  | removePeer (byIndex : BitVec 8)
  deriving DecidableEq, Repr

/-- A peer that was added and not removed: the channel it was bound to, the index that the caller
was given, and what was stored. -/
structure LivePeer where
  channel : Int
  byIndex : BitVec 8
  info : P2PPeerInfo
  deriving DecidableEq, Repr

/-- A manager, and the peers its callers have added and not removed. -/
structure PeerRun (Sock : Type) where
  manager : P2PManager Sock
  live : List LivePeer := []

namespace PeerRun

variable {Sock : Type} (net : SDLNet Sock)

def init (sock : Sock) : PeerRun Sock where
  manager := { sock }

def step (r : PeerRun Sock) : PeerCall → PeerRun Sock
  | .addPeer pAddressInfo tickCount =>
      let (byIndex, manager) := r.manager.addPeer net pAddressInfo tickCount
      { manager
        live := ⟨r.manager.peerIndex.toInt, byIndex, ⟨pAddressInfo, false, tickCount, 0⟩⟩ :: r.live }
  | .removePeer byIndex =>
      { manager := r.manager.removePeer net byIndex
        live := r.live.filter (·.byIndex ≠ byIndex) }

def Steps (r : PeerRun Sock) (call : PeerCall) (r' : PeerRun Sock) : Prop := r.step net call = r'

/-- The index of a live peer identifies it in the map and no other, and would remove exactly it and
unbind exactly its channel. -/
structure Indexed (r : PeerRun Sock) : Prop where
  distinct : (r.live.map LivePeer.byIndex).Nodup
  identifies : ∀ p ∈ r.live, r.manager.findPeer p.byIndex.toNat = some p.info
  only : ∀ k info, r.manager.findPeer k = some info → ∃ p ∈ r.live, (p.byIndex.toNat : Int) = k
  removes : ∀ p ∈ r.live, ∀ q ∈ r.live, (r.manager.removePeer net p.byIndex).findPeer q.byIndex.toNat =
    if q = p then none else some q.info
  unbinds : ∀ p ∈ r.live, ∀ c, net.bound (r.manager.removePeer net p.byIndex).sock c =
    if c = p.channel then [] else net.bound r.manager.sock c

/-- A peer is added while the index fits a byte. -/
def Fits (r : PeerRun Sock) : PeerCall → Prop
  | .addPeer _ _ => r.manager.peerIndex < 256
  | .removePeer _ => True

instance (r : PeerRun Sock) : (call : PeerCall) → Decidable (r.Fits call)
  | .addPeer _ _ => inferInstanceAs (Decidable (_ < _))
  | .removePeer _ => instDecidableTrue

end PeerRun

/-- `SDLNET_MAX_UDPCHANNELS` channels of `SDLNET_MAX_UDPADDRESSES` addresses each; the channel -1
stands for the first that has room. -/
def udpChannels : SDLNet (Int → List IPaddress) where
  bind sock channel address :=
    let channel : Int := if channel = -1 then
      ((List.range 32).find? fun c => (sock c).length < 4).getD 32 else channel
    if 0 ≤ channel ∧ channel < 32 ∧ (sock channel).length < 4 then
      Function.update sock channel (sock channel ++ [address])
    else sock
  unbind sock channel := Function.update sock channel []
  bound sock := sock

end Cgsf.P2P
