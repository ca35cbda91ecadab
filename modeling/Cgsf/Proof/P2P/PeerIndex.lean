import Cgsf.Library.Transition
import Cgsf.P2P.PeerIndex

/-!
# An index names one peer while it fits a byte
-/

namespace Cgsf.Proof.P2P
open Cgsf.P2P Cgsf.BaseLayer Library Std

variable {Sock : Type} {net : SDLNet Sock} {r : PeerRun Sock} {call : PeerCall}

/-- Indices are given out in order, each to one peer, and are the keys of the map. -/
structure Numbered (r : PeerRun Sock) : Prop where
  small : r.manager.peerIndex.toNat ≤ 256
  older : ∀ p ∈ r.live, p.channel = p.byIndex.toNat ∧ p.byIndex.toNat < r.manager.peerIndex.toNat
  distinct : (r.live.map LivePeer.byIndex).Nodup
  identifies : ∀ p ∈ r.live, r.manager.findPeer p.byIndex.toNat = some p.info
  only : ∀ k info, r.manager.findPeer k = some info → ∃ p ∈ r.live, (p.byIndex.toNat : Int) = k

theorem findPeer_addPeer (m : P2PManager Sock) (info : PeerAddressInfo) (tick : DWORD) (k : Int) :
    (m.addPeer net info tick).2.findPeer k =
      if m.peerIndex.toInt = k ∧ m.findPeer k = none then some ⟨info, false, tick, 0⟩
        else m.findPeer k := by
  rw [P2PManager.findPeer, P2PManager.findPeer, P2PManager.addPeer]
  rw [TreeMap.getElem?_insertIfNew]
  by_cases new : m.peerIndex.toInt = k
  · subst new
    cases found : m.mapPeer[m.peerIndex.toInt]? with
    | none =>
        have absent : m.peerIndex.toInt ∉ m.mapPeer := by
          rw [TreeMap.mem_iff_isSome_getElem?, found]
          exact Bool.false_ne_true
        simp [absent]
    | some old =>
        have present : m.peerIndex.toInt ∈ m.mapPeer := TreeMap.mem_iff_isSome_getElem?.mpr (by simp [found])
        simp [present]
  · have other : ¬compare m.peerIndex.toInt k = .eq := fun same => new (LawfulEqCmp.eq_of_compare same)
    simp [new, other]

theorem findPeer_removePeer (m : P2PManager Sock) (byIndex : BitVec 8) (k : Int) :
    (m.removePeer net byIndex).findPeer k = if k = byIndex.toNat then none else m.findPeer k := by
  rw [P2PManager.findPeer, P2PManager.findPeer, P2PManager.removePeer, TreeMap.getElem?_erase]
  by_cases same : k = byIndex.toNat
  · rw [if_pos same, if_pos (by rw [same]; exact ReflCmp.compare_self)]
  · rw [if_neg same, if_neg fun is => same (LawfulEqCmp.eq_of_compare is).symm]

/-- An index that fits a byte is the key of the map. -/
theorem toInt_of_small {d : DWORD} (small : d.toNat ≤ 256) : d.toInt = d.toNat :=
  BitVec.toInt_eq_toNat_of_lt (by omega)

theorem Numbered.indexed (numbered : Numbered r) (unbinds : net.Unbinds) : r.Indexed net where
  distinct := numbered.distinct
  identifies := numbered.identifies
  only := numbered.only
  removes := by
    intro p memP q memQ
    rw [findPeer_removePeer, numbered.identifies q memQ]
    have same : (q.byIndex.toNat : Int) = p.byIndex.toNat ↔ q = p := by
      rw [Int.ofNat_inj, BitVec.toNat_inj]
      exact ⟨List.inj_on_of_nodup_map numbered.distinct memQ memP, congrArg LivePeer.byIndex⟩
    simp only [same]
  unbinds := by
    intro p member c
    rw [(numbered.older p member).1]
    exact unbinds r.manager.sock p.byIndex.toNat c

/-- A new peer is found under its index, if that fits a byte. -/
theorem addPeer_numbered (numbered : Numbered r) (info : PeerAddressInfo) (tick : DWORD)
    (fits : r.Fits (.addPeer info tick)) : Numbered (r.step net (.addPeer info tick)) := by
  have low : r.manager.peerIndex.toNat < 256 := fits
  have key : r.manager.peerIndex.toInt = (r.manager.peerIndex.setWidth 8).toNat := by
    rw [toInt_of_small low.le, BitVec.toNat_setWidth, Nat.mod_eq_of_lt low]
  have next : (r.manager.peerIndex + 1).toNat = r.manager.peerIndex.toNat + 1 := by
    rw [BitVec.toNat_add, show (1 : DWORD).toNat = 1 from rfl]
    exact Nat.mod_eq_of_lt (by omega)
  have index : (r.manager.peerIndex.setWidth 8).toNat = r.manager.peerIndex.toNat := by
    rw [BitVec.toNat_setWidth, Nat.mod_eq_of_lt low]
  have fresh : r.manager.findPeer r.manager.peerIndex.toInt = none := by
    cases found : r.manager.findPeer r.manager.peerIndex.toInt with
    | none => rfl
    | some old =>
        obtain ⟨p, member, is⟩ := numbered.only _ old found
        have older := (numbered.older p member).2
        rw [toInt_of_small low.le, Int.ofNat_inj] at is
        omega
  refine ⟨?_, ?_, ?_, ?_, ?_⟩
  · exact next.trans_le low
  · intro p member
    change p.channel = _ ∧ p.byIndex.toNat < (r.manager.peerIndex + 1).toNat
    rw [next]
    cases member with
    | head => exact ⟨key, by rw [index]; exact Nat.lt_succ_self _⟩
    | tail _ old =>
        have older := numbered.older p old
        exact ⟨older.1, Nat.lt_succ_of_lt older.2⟩
  · refine List.nodup_cons.mpr ⟨fun member => ?_, numbered.distinct⟩
    obtain ⟨p, old, same⟩ := List.mem_map.mp member
    have older := (numbered.older p old).2
    rw [same, index] at older
    exact lt_irrefl _ older
  · intro p member
    change (r.manager.addPeer net info tick).2.findPeer _ = _
    rw [findPeer_addPeer]
    cases member with
    | head => rw [if_pos ⟨key, by rw [← key]; exact fresh⟩]
    | tail _ old =>
        have found := numbered.identifies p old
        rw [if_neg fun both => by rw [both.2] at found; contradiction]
        exact found
  · intro k stored found
    change (r.manager.addPeer net info tick).2.findPeer k = _ at found
    rw [findPeer_addPeer] at found
    split at found
    · rename_i new
      exact ⟨_, List.mem_cons_self, key.symm.trans new.1⟩
    · obtain ⟨p, member, is⟩ := numbered.only k stored found
      exact ⟨p, List.mem_cons_of_mem _ member, is⟩

theorem removePeer_numbered (numbered : Numbered r) (byIndex : BitVec 8) :
    Numbered (r.step net (.removePeer byIndex)) := by
  refine ⟨numbered.small, fun p member => numbered.older p (List.mem_of_mem_filter member),
    numbered.distinct.sublist (List.filter_sublist.map _), ?_, ?_⟩
  · intro p member
    obtain ⟨old, other⟩ := List.mem_filter.mp member
    have other : p.byIndex ≠ byIndex := of_decide_eq_true other
    change (r.manager.removePeer net byIndex).findPeer _ = _
    rw [findPeer_removePeer, if_neg fun same => other (BitVec.toNat_inj.mp (Int.ofNat_inj.mp same))]
    exact numbered.identifies p old
  · intro k stored found
    change (r.manager.removePeer net byIndex).findPeer k = _ at found
    rw [findPeer_removePeer] at found
    split at found
    · contradiction
    · rename_i other
      obtain ⟨p, member, is⟩ := numbered.only k stored found
      refine ⟨p, List.mem_filter.mpr ⟨member, decide_eq_true fun same => other ?_⟩, is⟩
      rw [← is, same]

theorem step_numbered (numbered : Numbered r) (fits : r.Fits call) :
    Numbered (r.step net call) := by
  cases call with
  | addPeer info tick => exact addPeer_numbered numbered info tick fits
  | removePeer byIndex => exact removePeer_numbered numbered byIndex

/-- The first peer whose index does not fit a byte is not found under the byte. -/
theorem addPeer_unindexed (numbered : Numbered r) (info : PeerAddressInfo) (tick : DWORD)
    (large : ¬r.Fits (.addPeer info tick)) : ¬(r.step net (.addPeer info tick)).Indexed net := by
  intro indexed
  have large : ¬r.manager.peerIndex.toNat < 256 := large
  have exact_ : r.manager.peerIndex.toNat = 256 := by
    have := numbered.small
    omega
  have key : r.manager.peerIndex.toInt = 256 := by
    rw [toInt_of_small numbered.small, exact_]
    rfl
  have index : (r.manager.peerIndex.setWidth 8).toNat = 0 := by
    rw [BitVec.toNat_setWidth, exact_]
  have found := indexed.identifies _ List.mem_cons_self
  change (r.manager.addPeer net info tick).2.findPeer (r.manager.peerIndex.setWidth 8).toNat = _
    at found
  rw [findPeer_addPeer, key, index, if_neg (by simp)] at found
  obtain ⟨p, member, is⟩ := numbered.only _ _ found
  refine (List.nodup_cons.mp indexed.distinct).1 (List.mem_map.mpr ⟨p, member, ?_⟩)
  apply BitVec.toNat_inj.mp
  rw [index]
  exact Int.ofNat_inj.mp is

theorem step_indexed_iff (numbered : Numbered r) (unbinds : net.Unbinds) :
    (r.step net call).Indexed net ↔ r.Fits call := by
  refine ⟨fun indexed => ?_, fun fits => (step_numbered numbered fits).indexed unbinds⟩
  by_contra large
  cases call with
  | addPeer info tick => exact addPeer_unindexed numbered info tick large indexed
  | removePeer byIndex => exact large trivial

theorem init_numbered (sock : Sock) : Numbered (PeerRun.init sock) :=
  ⟨Nat.zero_le _, nofun, List.nodup_nil, nofun, by simp [PeerRun.init, P2PManager.findPeer]⟩

theorem run_numbered {sock : Sock} {calls : List PeerCall}
    (run : Run (Guarded PeerRun.Fits (PeerRun.Steps net)) (.init sock) calls r) : Numbered r := by
  apply run.invariant (init_numbered sock)
  rintro r call _ numbered ⟨fits, rfl⟩
  exact step_numbered numbered fits

/-- Peers are identified in every run that adds no more than 256 of them, and by the next one no
longer. -/
theorem run_indexed (unbinds : net.Unbinds) {sock : Sock} {calls : List PeerCall}
    (run : Run (Guarded PeerRun.Fits (PeerRun.Steps net)) (.init sock) calls r) :
    r.Indexed net ∧ ∀ call, (r.step net call).Indexed net ↔ r.Fits call :=
  ⟨(run_numbered run).indexed unbinds, fun _ => step_indexed_iff (run_numbered run) unbinds⟩

theorem udpChannels_unbinds : udpChannels.Unbinds := by
  intro sock channel c
  exact Function.update_apply ..

def someAddress : PeerAddressInfo := ⟨0, 0, 0x0100007f, 9000⟩

def comingAndGoing : List PeerCall :=
  [.addPeer someAddress 1, .addPeer someAddress 2, .removePeer 0, .addPeer someAddress 3]

/-- Peers come and go, and those that are left are the ones that their indices name. -/
theorem comingAndGoing_indexed : ∃ r : PeerRun (Int → List IPaddress),
    r.live.map LivePeer.byIndex = [2, 1] ∧ r.Indexed udpChannels ∧
      ∀ call, (r.step udpChannels call).Indexed udpChannels ↔ r.Fits call := by
  have plays : (comingAndGoing.foldlM (fun r call => if PeerRun.Fits r call
      then some (r.step udpChannels call) else none) (.init fun _ => [])).map
        (fun r => r.live.map LivePeer.byIndex) = some [2, 1] := by
    decide
  obtain ⟨r, result, indices⟩ := Option.map_eq_some_iff.mp plays
  have run := Run.guarded_of_foldlM _ (fun r call => some (PeerRun.step udpChannels r call))
    comingAndGoing result
  refine ⟨r, indices, run_indexed udpChannels_unbinds (run.mono ?_)⟩
  exact fun _ _ _ step => ⟨step.1, Option.some.inj step.2⟩

/-- As many peers as a byte can name. -/
theorem run_added {sock : Sock} (info : PeerAddressInfo) (tick : DWORD) {n : Nat} (few : n ≤ 256) :
    ∃ r, Run (Guarded PeerRun.Fits (PeerRun.Steps net)) (.init sock)
      (List.replicate n (.addPeer info tick)) r ∧ r.manager.peerIndex.toNat = n := by
  induction n with
  | zero => exact ⟨_, .start, rfl⟩
  | succ n ih =>
      obtain ⟨r, run, index⟩ := ih (Nat.le_of_succ_le few)
      rw [List.replicate_succ']
      refine ⟨_, .next run ⟨?_, rfl⟩, ?_⟩
      · exact index.trans_lt few
      · change (r.manager.peerIndex + 1).toNat = n + 1
        rw [BitVec.toNat_add, index, show (1 : DWORD).toNat = 1 from rfl]
        exact Nat.mod_eq_of_lt (by omega)

/-- The peer after them is stored under 256, and its caller is given 0. -/
theorem nextPeer_unindexed : ∃ r : PeerRun (Int → List IPaddress),
    Run (PeerRun.Steps udpChannels) (.init fun _ => [])
        (List.replicate 257 (.addPeer someAddress 0)) r ∧
      (r.manager.findPeer 256).isSome ∧ r.live.head?.map LivePeer.byIndex = some 0 ∧
        ¬r.Indexed udpChannels := by
  obtain ⟨r, run, index⟩ := @run_added _ udpChannels (fun _ => []) someAddress 0 _ le_rfl
  have numbered := run_numbered run
  have last : r.manager.peerIndex = 256 := BitVec.toNat_inj.mp index
  refine ⟨r.step udpChannels (.addPeer someAddress 0), ?_, ?_, ?_, ?_⟩
  · rw [List.replicate_succ']
    exact .next (run.mono fun _ _ _ step => step.2) rfl
  · change ((r.manager.addPeer udpChannels someAddress 0).2.findPeer 256).isSome
    rw [findPeer_addPeer, last]
    split
    · rfl
    · rename_i present
      exact Option.isSome_iff_ne_none.mpr fun none => present ⟨rfl, none⟩
  · change some (r.manager.peerIndex.setWidth 8) = some 0
    rw [last]
    rfl
  · refine addPeer_unindexed numbered someAddress 0 ?_
    rw [PeerRun.Fits, last]
    decide

end Cgsf.Proof.P2P
