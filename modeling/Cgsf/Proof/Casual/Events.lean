import Cgsf.Casual.Consistency
import Cgsf.Library.Transition
import Cgsf.Proof.Casual.Handlers

/-!
# What every event preserves

The packets of a player by its state, the answers of the database, connects and disconnects.
-/

namespace Cgsf.Proof.Casual
open Cgsf.Casual Cgsf.Casual.SFLogicEntry Library Std

variable {place : PlayerRef → Option RoomRef} {p : PlayerRef} {s s' : SFLogicEntry}

theorem getRoom_spec {roomIndex : Int} {r : RoomRef}
    (found : SFRoomManager.getRoom s roomIndex = some r) :
    r = roomIndex.toNat ∧ r < maxRoomCount ∧ (s.rooms r).state ≠ .none := by
  rw [SFRoomManager.getRoom] at found
  split at found
  · contradiction
  · rename_i range
    split at found
    · contradiction
    · rename_i used
      obtain rfl := Option.some.inj found
      refine ⟨rfl, ?_, used⟩
      rw [maxRoomCount] at range
      change roomIndex.toNat < (100 : Nat)
      omega

theorem Invariant.getRoom_member (inv : Invariant place s) {r r' : RoomRef}
    (member : place p = some r)
    (found : SFRoomManager.getRoom s (s.players p).roomIndex = some r') : r' = r := by
  rw [(getRoom_spec found).1, inv.roomIndex p r member, Int.toNat_natCast]

/-- The registry of names and the requests on their way are no part of the invariant. -/
theorem Invariant.of_registry (inv : Invariant place s) (dbRequests : List DBRequest)
    (playerManager : TreeMap Text PlayerRef) :
    Invariant place { s with dbRequests, playerManager } where
  toPeople := ⟨inv.connected, inv.present, inv.lobby, inv.pooled, inv.idle, inv.fresh⟩
  toRooming := ⟨⟨inv.held.rooms, inv.held.active, inv.held.empty, inv.held.placed⟩, inv.roomIndex⟩
  toPeers := ⟨inv.peers, inv.waiting⟩
  located := inv.located

theorem Invariant.outside (inv : Invariant place s) (out : inRoom (s.players p).state = false) :
    place p = none := by
  by_contra there
  rw [(inv.located p).mpr there] at out
  contradiction

theorem Invariant.member (inv : Invariant place s) (within : inRoom (s.players p).state = true) :
    ∃ r, place p = some r :=
  Option.ne_none_iff_exists'.mp ((inv.located p).mp within)

theorem Invariant.walk (inv : Invariant place s) (settled : Settled s)
    (connection : s.playerMap[(s.players p).serial]? = some p) {state : PlayerState}
    {leaving : Prop} (run : SFPlayerFSM.changeState s p state = some s') (active : state ≠ .none)
    (before : inRoom (s.players p).state = false) (after : inRoom state = false) :
    Reaches place p leaving s' := by
  refine .stays (inv.changeState connection run active ⟨fun within => ?_, fun there => ?_⟩)
    (settled.of_rooms (by rw [(ChangesState.of_run run).same]))
  · rw [after] at within
    contradiction
  · exact absurd (inv.outside before) there

theorem enterRoom_reaches (inv : Invariant place s) (settled : Settled s)
    (outside : place p = none) (connection : s.playerMap[(s.players p).serial]? = some p)
    {gameMode roomIndex : Int} {random : Nat}
    (run : SFPlayerLobby.onEnterRoom s p gameMode roomIndex random = some s') :
    Reaches place p False s' := by
  rw [SFPlayerLobby.onEnterRoom] at run
  split at run
  · obtain rfl := Option.some.inj run
    exact .stays inv settled
  · split at run
    · obtain rfl := Option.some.inj run
      exact .stays inv settled
    · rename_i r found
      obtain ⟨-, inside, used⟩ := getRoom_spec found
      obtain ⟨⟨m, accepted⟩, processed, finish⟩ := Option.map_eq_some_iff.mp run
      have reaches := processUserRequest_enter inv settled inside used outside connection processed
      cases accepted with
      | false =>
          obtain rfl := finish
          exact reaches
      | true =>
          obtain rfl := finish
          exact reaches.of_sends ((SendsOnly.sendToClient m p _).trans (.sendToClient _ p _))

theorem memberRequest_reaches (inv : Invariant place s) (settled : Settled s)
    (within : inRoom (s.players p).state = true) {packet : Packet} {random : Nat} {r : RoomRef}
    (found : SFRoomManager.getRoom s (s.players p).roomIndex = some r)
    (run : (SFRoomFSM.processUserRequest s r p packet random).map (·.1) = some s') :
    Reaches place p (packet = .leaveRoom) s' := by
  obtain ⟨r', member⟩ := inv.member within
  obtain rfl := inv.getRoom_member member found
  obtain ⟨⟨m, accepted⟩, processed, rfl⟩ := Option.map_eq_some_iff.mp run
  exact processUserRequest_member inv settled member processed

theorem inRoom_match (inv : Invariant place s) (settled : Settled s)
    (within : inRoom (s.players p).state = true) {packet : Packet} {random : Nat}
    (run : (match SFRoomManager.getRoom s (s.players p).roomIndex with
      | none => some s
      | some r => (SFRoomFSM.processUserRequest s r p packet random).map (·.1)) = some s') :
    Reaches place p (packet = .leaveRoom) s' := by
  split at run
  · obtain rfl := Option.some.inj run
    exact .stays inv settled
  · rename_i r found
    exact memberRequest_reaches inv settled within found run

theorem processPacket_reaches (inv : Invariant place s) (settled : Settled s)
    (connection : s.playerMap[(s.players p).serial]? = some p) {packet : Packet} {random : Nat}
    (run : SFPlayerFSM.processPacket s p packet random = some s') :
    Reaches place p (packet = .leaveRoom) s' := by
  have outside {state : PlayerState} (is : (s.players p).state = state)
      (out : inRoom state = false) : place p = none := inv.outside (is ▸ out)
  unfold SFPlayerFSM.processPacket at run
  split at run
  · rename_i username password _
    obtain rfl := Option.some.inj run
    have asked := inv.modifyPlayer connection (fun q => { q with username, password })
      fun _ => ⟨rfl, rfl, rfl, rfl⟩
    exact .stays (asked.of_registry _ s.playerManager) settled
  · rename_i state
    exact inv.walk settled connection run nofun (by rw [state]; rfl) rfl
  · rename_i state
    exact (enterRoom_reaches inv settled (outside state rfl) connection run).mono nofun
  · rename_i state
    exact (createRoom_reaches inv settled (outside state rfl) connection run).mono nofun
  · obtain rfl := Option.some.inj run
    exact .stays (inv.modifyPlayer connection _ fun _ => ⟨rfl, rfl, rfl, rfl⟩) settled
  · exact Reaches.of_sends (.stays inv settled) (sendRoomPage_sends run)
  · rename_i state
    exact inRoom_match inv settled (by rw [state]; rfl) run
  · rename_i state
    exact inRoom_match inv settled (by rw [state]; rfl) run
  · rename_i state
    exact inRoom_match inv settled (by rw [state]; rfl) run
  · rename_i state
    exact inRoom_match inv settled (by rw [state]; rfl) run
  · rename_i state
    obtain ⟨r, found, processed⟩ := Option.bind_eq_some_iff.mp run
    have ready := inv.modifyPlayer connection (fun q => { q with loadingComplete := true })
      fun _ => ⟨rfl, rfl, rfl, rfl⟩
    have same : ((s.modifyPlayer p fun q => { q with loadingComplete := true }).players p) =
        { s.players p with loadingComplete := true } := Function.update_self ..
    exact (memberRequest_reaches ready settled (by rw [same]; simp only [state]; rfl)
      (by rw [same]; exact found) processed).mono nofun
  · rename_i state
    obtain ⟨r, found, processed⟩ := Option.bind_eq_some_iff.mp run
    exact memberRequest_reaches inv settled (by rw [state]; rfl) found processed
  · obtain rfl := Option.some.inj run
    exact .stays inv settled

theorem processDBResult_reaches (inv : Invariant place s) (settled : Settled s)
    (connection : s.playerMap[(s.players p).serial]? = some p) {result : Int}
    (run : SFPlayerFSM.processDBResult s p result = some s') : Reaches place p False s' := by
  rw [SFPlayerFSM.processDBResult] at run
  split at run
  · rename_i state
    rw [SFPlayerInit.onDBLogin] at run
    split at run
    · rw [SFPlayerManager.addPlayer] at run
      split at run
      · rename_i m added
        split at added
        · cases added
        · cases added
          obtain ⟨logged, moves, rfl⟩ := Option.map_eq_some_iff.mp run
          have registered := inv.of_registry s.dbRequests
            (s.playerManager.insertIfNew (s.players p).username p)
          exact (registered.walk settled connection moves nofun (by rw [state]; rfl) rfl).of_sends
            (sendLoginResult_sends logged p result)
      · rename_i m refused
        split at refused
        · cases refused
          obtain rfl := Option.some.inj run
          exact Reaches.of_sends (.stays inv settled) (sendLoginResult_sends s p _)
        · cases refused
    · obtain rfl := Option.some.inj run
      exact Reaches.of_sends (.stays inv settled) (sendLoginResult_sends s p result)
  · obtain rfl := Option.some.inj run
    exact .stays inv settled

theorem allocPlayer_spec (people : People s) :
    ∃ p playerPool nextPlayer,
      s.allocPlayer = (p, { s with playerPool, nextPlayer }) ∧ (s.players p).state = .none ∧
      s.nextPlayer ≤ nextPlayer ∧ p < nextPlayer ∧ playerPool.queue.Nodup ∧
      ∀ q ∈ playerPool.queue, q ∈ s.playerPool.queue ∧ q ≠ p := by
  rw [SFLogicEntry.allocPlayer, Engine.SFObjectPool.alloc]
  cases queue : s.playerPool.queue with
  | nil =>
      refine ⟨s.nextPlayer, s.playerPool, max s.nextPlayer (s.nextPlayer + 1), rfl,
        people.fresh _ le_rfl, Nat.le_max_left .., Nat.le_max_right .., people.pooled, fun q member => ?_⟩
      rw [queue] at member
      contradiction
  | cons p rest =>
      have pooled := people.pooled
      rw [queue, List.nodup_cons] at pooled
      refine ⟨p, ⟨rest⟩, max s.nextPlayer (p + 1), rfl,
        (people.idle p (queue ▸ List.mem_cons_self)).1, Nat.le_max_left .., Nat.le_max_right ..,
        pooled.2, fun q member => ⟨List.mem_cons_of_mem p member, ?_⟩⟩
      rintro rfl
      exact pooled.1 member

/-- A connect takes a player out of the pool; a serial that is in use keeps its player. -/
theorem onConnectPlayer_reaches (inv : Invariant place s) (settled : Settled s) {serial : Int}
    (run : s.onConnectPlayer serial = some s') : ∃ p, Reaches place p False s' := by
  obtain ⟨p, playerPool, nextPlayer, alloc, idle, grows, below, nodup, kept⟩ :=
    allocPlayer_spec inv.toPeople
  rw [SFLogicEntry.onConnectPlayer, alloc] at run
  obtain ⟨m, moves, rfl⟩ := Option.map_eq_some_iff.mp run
  have changes := ChangesState.of_run moves
  have others (q : PlayerRef) (other : q ≠ p) : m.players q = s.players q := by
    rw [changes.others q other]
    exact Function.update_of_ne other ..
  have fresh : ((s.players p).reset).state = .none := rfl
  have lobby : m.lobby = s.lobby := by
    rw [changes.same]
    simp only [SFLogicEntry.modifyPlayer, Function.update_self]
    rfl
  have mine : (m.players p).serial = serial := by
    rw [changes.kept p]
    simp only [SFLogicEntry.modifyPlayer, Function.update_self]
  have active {q : PlayerRef} (busy : (s.players q).state ≠ .none) : q ≠ p := by
    rintro rfl
    exact busy idle
  have placed {q : PlayerRef} (there : place q ≠ none) : q ≠ p := active fun none => by
    rw [(inv.outside (none ▸ rfl) : place q = Option.none)] at there
    exact there rfl
  have known {k : Int} {q : PlayerRef} (found : s.playerMap[k]? = some q) :
      (s.playerMap.insertIfNew serial p)[k]? = some q := by
    rw [TreeMap.getElem?_insertIfNew, if_neg, found]
    rintro ⟨here, absent⟩
    rw [← LawfulEqOrd.compare_eq_iff_eq.mp here] at found
    exact absent (TreeMap.mem_iff_isSome_getElem?.mpr (found ▸ rfl))
  have map : m.playerMap = s.playerMap := by
    rw [changes.same]
    rfl
  have rooms : m.rooms = s.rooms := by
    rw [changes.same]
    rfl
  have people : People ({ m with playerMap := m.playerMap.insertIfNew serial p }.sendRequest serial
      .auth) := by
    refine ⟨fun k q found => ?_, fun q busy ready => ?_, ?_, ?_, fun q member => ?_, fun q new => ?_⟩
    · change (m.playerMap.insertIfNew serial p)[k]? = some q at found
      change (m.players q).serial = k ∧ (m.players q).state ≠ .none
      rw [map, TreeMap.getElem?_insertIfNew] at found
      split at found
      · rename_i at_serial
        obtain rfl := Option.some.inj found
        rw [mine, changes.mine]
        exact ⟨LawfulEqOrd.compare_eq_iff_eq.mp at_serial.1, by decide⟩
      · have before := inv.connected k q found
        rw [others q (active before.2)]
        exact before
    · change (m.players q).state ≠ .none at busy
      change (m.players q).state ≠ .init at ready
      change (m.playerMap.insertIfNew serial p)[(m.players q).serial]? = some q
      have other : q ≠ p := by
        rintro rfl
        exact ready changes.mine
      rw [others q other] at busy ready ⊢
      rw [map]
      exact known (inv.present q busy ready)
    · change Lists m.lobby (fun q => (m.players q).state = .lobby) (serialOf m.players)
      rw [lobby]
      refine inv.lobby.congr (fun q => ?_) fun q there => ?_
      · by_cases me : q = p
        · subst me
          rw [changes.mine, idle]
          decide
        · rw [others q me]
      · rw [serialOf, serialOf, others q (active (by rw [there]; decide))]
    · change m.playerPool.queue.Nodup
      rw [changes.same]
      exact nodup
    · change q ∈ m.playerPool.queue at member
      change (m.players q).state = .none ∧ q < m.nextPlayer
      rw [changes.same] at member
      obtain ⟨pooled, other⟩ := kept q member
      have before := inv.idle q pooled
      rw [others q other, changes.same]
      exact ⟨before.1, Nat.lt_of_lt_of_le before.2 grows⟩
    · change m.nextPlayer ≤ q at new
      change (m.players q).state = .none
      rw [changes.same] at new
      have new : nextPlayer ≤ q := new
      rw [others q (Nat.ne_of_gt (below.trans_le new))]
      exact inv.fresh q (grows.trans new)
  refine ⟨p, .stays ⟨people, inv.toRooming.of_same rooms ?_ ?_ (fun q there => ?_) fun q there => ?_,
    inv.toPeers.of_rooms rooms (fun _ _ => id) fun q there => ?_, fun q => ?_⟩
    (settled.of_rooms rooms)⟩
  · change m.activeRooms = s.activeRooms
    rw [changes.same]
    rfl
  · change m.emptyRooms = s.emptyRooms
    rw [changes.same]
    rfl
  · change (m.players q).serial = _ ∧ (m.players q).teamType = _ ∧ (m.players q).roomIndex = _
    rw [others q (placed there)]
    exact ⟨rfl, rfl, rfl⟩
  · obtain ⟨r, member⟩ := Option.ne_none_iff_exists'.mp there
    change (m.playerMap.insertIfNew serial p)[(s.players q).serial]? = _
    rw [map, inv.connection member]
    exact known (inv.connection member)
  · change (m.players q).serial = _
    rw [others q (placed there)]
  · change inRoom (m.players q).state = true ↔ _
    by_cases me : q = p
    · subst me
      rw [changes.mine, (inv.outside (idle ▸ rfl) : place q = none)]
      simp [inRoom]
    · rw [others q me]
      exact inv.located q

theorem Invariant.forgotten (inv : Invariant place s) {serial : Int}
    (gone : s.playerMap[serial]? = none) (idle : (s.players p).state = .none) :
    Forgotten s p serial := by
  have outside : place p = none := inv.outside (idle ▸ rfl)
  have present {q : PlayerRef} {r : RoomRef} (member : place q = some r) :
      (s.players q).serial ≠ serial := fun same => by
    have there := inv.connection member
    rw [same, gone] at there
    contradiction
  have absent (r : RoomRef) : place p ≠ some r := fun member => by
    rw [outside] at member
    contradiction
  refine ⟨⟨fun there => ?_, fun k found => ?_⟩, fun r inside => ?_, fun r inside t => ?_,
    fun r inside peer => ?_⟩
  · obtain ⟨q, lobbied, same⟩ := (inv.lobby.mem_iff serial).mp there
    have connected := inv.present q (by rw [lobbied]; exact nofun) (by rw [lobbied]; exact nofun)
    rw [show (s.players q).serial = serial from same, gone] at connected
    contradiction
  · have lobbied : (s.players p).state = .lobby := ((inv.lobby k p).mp found).1
    rw [idle] at lobbied
    contradiction
  · have all := (inv.held.rooms r inside).all
    refine ⟨fun listed => absent r ((all.mem p).mp listed), fun there => ?_, fun k found =>
      absent r ((all.lists k p).mp found).1⟩
    obtain ⟨q, member, same⟩ := (all.lists.mem_iff serial).mp there
    exact present member same
  · have team := (inv.held.rooms r inside).team t
    refine ⟨fun listed => absent r ((team.mem p).mp listed).1, fun there => ?_, fun k found =>
      absent r ((team.lists k p).mp found).1.1⟩
    obtain ⟨q, member, same⟩ := (team.lists.mem_iff serial).mp there
    exact present member.1 same
  · obtain ⟨q, member, same⟩ := inv.peers r inside serial peer
    exact present member same

/-- What becomes of the player that a serial belongs to when the connection ends. -/
structure Disconnected (place : PlayerRef → Option RoomRef) (p : PlayerRef) (serial : Int)
    (s' : SFLogicEntry) : Prop where
  invariant : Invariant (Function.update place p none) s'
  settled : Settled s'
  idle : (s'.players p).state = .none
  gone : s'.playerMap[serial]? = none

/-- The last part of `OnDisconnectPlayer`, after the player left its room. -/
theorem Disconnected.of_outside (inv : Invariant place s) (settled : Settled s) {serial : Int}
    (connection : s.playerMap[serial]? = some p) (outside : place p = none) {m : SFLogicEntry}
    (run : SFPlayerFSM.changeState s p .none = some m)
    (is : s' = { m with
      playerPool := m.playerPool.release p, playerMap := m.playerMap.erase serial }) :
    Disconnected place p serial s' := by
  have changes := ChangesState.of_run run
  obtain ⟨mine, active⟩ := inv.connected serial p connection
  have connected : s.playerMap[(s.players p).serial]? = some p := mine ▸ connection
  have update : Function.update place p none = place := by
    rw [← outside, Function.update_eq_self]
  have serials (q : PlayerRef) : (s'.players q).serial = (s.players q).serial := by
    rw [is, changes.kept q]
  have others (q : PlayerRef) (other : q ≠ p) : s'.players q = s.players q := by
    rw [is, changes.others q other]
  have idle : (s'.players p).state = .none := by rw [is]; exact changes.mine
  have map : s'.playerMap = s.playerMap.erase serial := by
    rw [is, changes.same]
  have rooms : s'.rooms = s.rooms := by rw [is, changes.same]
  have not_me {k : Int} {q : PlayerRef} (found : (s.playerMap.erase serial)[k]? = some q) :
      s.playerMap[k]? = some q ∧ q ≠ p := by
    rw [TreeMap.getElem?_erase] at found
    split at found
    · contradiction
    · rename_i elsewhere
      refine ⟨found, ?_⟩
      rintro rfl
      rw [(inv.connected k q found).1.symm.trans mine] at elsewhere
      exact elsewhere ReflCmp.compare_self
  have kept {q : PlayerRef} (other : q ≠ p)
      (found : s.playerMap[(s.players q).serial]? = some q) :
      (s.playerMap.erase serial)[(s.players q).serial]? = some q := by
    rw [TreeMap.getElem?_erase, if_neg, found]
    intro same
    rw [← LawfulEqOrd.compare_eq_iff_eq.mp same, connection] at found
    exact other (Option.some.inj found).symm
  have people : People s' := by
    refine ⟨fun k q found => ?_, fun q busy ready => ?_, ?_, ?_, fun q member => ?_, fun q new => ?_⟩
    · rw [map] at found
      obtain ⟨before, other⟩ := not_me found
      rw [others q other]
      exact inv.connected k q before
    · have other : q ≠ p := by
        rintro rfl
        exact busy idle
      rw [others q other] at busy ready ⊢
      rw [map]
      exact kept other (inv.present q busy ready)
    · rw [show s'.lobby = m.lobby by rw [is], changes.same]
      exact inv.toPeople.lobbyMove_lists connected (fun q other => by rw [others q other]) serials
        idle
    · rw [is, changes.same]
      change (s.playerPool.queue ++ [p]).Nodup
      rw [List.nodup_append]
      refine ⟨inv.pooled, List.nodup_singleton p, ?_⟩
      rintro a member b single rfl
      rw [List.mem_singleton.mp single] at member
      exact inv.toPeople.mem_pool active member
    · rw [is, changes.same] at member
      rw [show s'.nextPlayer = s.nextPlayer by rw [is, changes.same]]
      rcases List.mem_append.mp member with before | single
      · have other : q ≠ p := by
          rintro rfl
          exact inv.toPeople.mem_pool active before
        rw [others q other]
        exact inv.idle q before
      · rw [List.mem_singleton.mp single]
        refine ⟨idle, Nat.lt_of_not_le fun new => active (inv.fresh p new)⟩
    · rw [show s'.nextPlayer = s.nextPlayer by rw [is, changes.same]] at new
      by_cases me : q = p
      · rw [me]
        exact idle
      · rw [others q me]
        exact inv.fresh q new
  have elsewhere {q : PlayerRef} (there : place q ≠ none) : q ≠ p := by
    rintro rfl
    exact there outside
  refine ⟨?_, settled.of_rooms rooms, idle, ?_⟩
  · rw [update]
    refine ⟨people, inv.toRooming.of_same rooms (by rw [is, changes.same]) (by rw [is, changes.same])
      (fun q there => ?_) fun q there => ?_,
      inv.toPeers.of_rooms rooms (fun _ _ => id) fun q _ => serials q, fun q => ?_⟩
    · rw [others q (elsewhere there)]
      exact ⟨rfl, rfl, rfl⟩
    · obtain ⟨r, member⟩ := Option.ne_none_iff_exists'.mp there
      rw [map, inv.connection member]
      exact kept (elsewhere there) (inv.connection member)
    · by_cases me : q = p
      · subst me
        rw [idle, outside]
        exact ⟨nofun, fun never => absurd rfl never⟩
      · rw [others q me]
        exact inv.located q
  · rw [map, TreeMap.getElem?_erase, if_pos ReflCmp.compare_self]

theorem onDisconnectPlayer_spec (inv : Invariant place s) (settled : Settled s) {serial : Int}
    (connection : s.playerMap[serial]? = some p) (run : s.onDisconnectPlayer serial = some s') :
    Disconnected place p serial s' := by
  simp only [SFLogicEntry.onDisconnectPlayer, connection] at run
  have registered : Invariant place (SFPlayerManager.delPlayer s p) := inv.of_registry _ _
  obtain ⟨m, leaves, finish⟩ := Option.bind_eq_some_iff.mp run
  obtain ⟨idle, moves, is⟩ := Option.map_eq_some_iff.mp finish
  split at leaves
  · rename_i within
    obtain ⟨r, member⟩ := registered.member within
    obtain ⟨r', found, leaves⟩ := Option.bind_eq_some_iff.mp leaves
    obtain rfl := registered.getRoom_member member found
    have left := leaveRoom_left registered settled member leaves
    have gone := Disconnected.of_outside left.invariant left.settled
      (by rw [left.connections]; exact connection) (Function.update_self ..) moves is.symm
    have invariant := gone.invariant
    rw [Function.update_idem] at invariant
    exact ⟨invariant, gone.settled, gone.idle, gone.gone⟩
  · rename_i outside
    obtain rfl := Option.some.inj leaves
    exact .of_outside registered settled connection
      (registered.outside (Bool.eq_false_iff.mpr outside)) moves is.symm

/-- The events by which a player can leave a room: its own packet and its disconnect. -/
def Leaving (s : SFLogicEntry) (event : Event) (p : PlayerRef) : Prop :=
  ∃ serial, s.playerMap[serial]? = some p ∧
    (event = .disconnect serial ∨ ∃ random, event = .data serial .leaveRoom random)

theorem step_reaches (inv : Invariant place s) (settled : Settled s) {event : Event}
    (step : s.Steps event s') : ∃ p, Reaches place p (Leaving s event p) s' := by
  have same (finish : some s = some s') : ∃ p, Reaches place p (Leaving s event p) s' := by
    obtain rfl := Option.some.inj finish
    exact ⟨0, .stays inv settled⟩
  cases event with
  | connect serial =>
      obtain ⟨p, reaches⟩ := onConnectPlayer_reaches inv settled step
      exact ⟨p, reaches.mono nofun⟩
  | data serial packet random =>
      rw [SFLogicEntry.Steps, SFLogicEntry.processPacket, SFLogicEntry.onPlayerData] at step
      split at step
      · exact same step
      · rename_i p connection
        have mine : s.playerMap[(s.players p).serial]? = some p :=
          (inv.connected serial p connection).1 ▸ connection
        refine ⟨p, (processPacket_reaches inv settled mine step).mono ?_⟩
        rintro rfl
        exact ⟨serial, connection, .inr ⟨random, rfl⟩⟩
  | timer | shouter => exact same step
  | answer request result =>
      rw [SFLogicEntry.Steps, SFLogicEntry.processPacket] at step
      split at step
      · contradiction
      · rename_i message _
        rw [SFLogicEntry.onDBResult] at step
        have pending := inv.of_registry (s.dbRequests.eraseIdx request) s.playerManager
        split at step
        · obtain rfl := Option.some.inj step
          exact ⟨0, .stays pending settled⟩
        · rename_i p connection
          have mine : s.playerMap[(s.players p).serial]? = some p :=
            (inv.connected message.serial p connection).1 ▸ connection
          exact ⟨p, (processDBResult_reaches pending settled mine step).mono nofun⟩
  | noAnswer request =>
      rw [SFLogicEntry.Steps, SFLogicEntry.processPacket] at step
      split at step
      · obtain rfl := Option.some.inj step
        exact ⟨0, .stays (inv.of_registry _ s.playerManager) settled⟩
      · contradiction
  | disconnect serial =>
      cases found : s.playerMap[serial]? with
      | none =>
          rw [SFLogicEntry.Steps, SFLogicEntry.processPacket, SFLogicEntry.onDisconnectPlayer,
            found] at step
          exact same step
      | some p =>
          have gone := onDisconnectPlayer_spec inv settled found step
          refine ⟨p, ?_⟩
          cases there : place p with
          | none =>
              have stays := gone.invariant
              rw [← there, Function.update_eq_self] at stays
              exact .stays stays gone.settled
          | some r =>
              exact ⟨_, .leaves r ⟨serial, found, .inl rfl⟩ there, gone.invariant, gone.settled⟩

def Good (s : SFLogicEntry) : Prop := ∃ place, Invariant place s ∧ Settled s

theorem initServer_people (p2pService : Bool) (gameModes : List Int) :
    People (SFLogicEntry.initServer p2pService gameModes) where
  connected := fun k p found => by
    change (∅ : TreeMap Int PlayerRef)[k]? = some p at found
    simp at found
  present := fun _ never => absurd rfl never
  lobby := .empty fun _ => nofun
  pooled := by
    simp only [SFLogicEntry.initServer]
    exact List.nodup_range
  idle := fun p member => by
    simp only [SFLogicEntry.initServer, List.mem_range] at member ⊢
    exact ⟨trivial, member⟩
  fresh := fun _ _ => rfl

theorem initServer_held (p2pService : Bool) (gameModes : List Int) :
    Held (fun _ => none) (SFLogicEntry.initServer p2pService gameModes) where
  rooms := fun r _ => {
    all := .empty fun _ => nofun
    team := fun _ => .empty fun _ both => nomatch both.1
    index := rfl
    size := Nat.zero_le _
    chief := fun never => absurd rfl never
    used := ⟨fun _ => rfl, fun _ => rfl⟩ }
  active := .empty fun _ both => both.2 rfl
  empty := (Lists.foldl_insert (List.range maxRoomCount) (Lists.empty fun _ => id)).congr
    (fun r => by
      rw [false_or, List.mem_range]
      exact (and_iff_left rfl).symm) fun _ _ => rfl
  placed := fun _ _ => nofun

theorem initServer_good (p2pService : Bool) (gameModes : List Int) :
    Good (SFLogicEntry.initServer p2pService gameModes) := by
  refine ⟨fun _ => none, ⟨initServer_people _ _, ⟨initServer_held _ _, fun _ _ => nofun⟩,
    ⟨fun _ _ k peer => ?_, fun _ _ => nofun⟩, fun _ => ⟨nofun, fun never => absurd rfl never⟩⟩,
    fun _ _ => ⟨nofun, nofun⟩⟩
  change k ∈ (∅ : TreeMap Int PeerInfo) at peer
  simp at peer

theorem run_good {p2pService : Bool} {gameModes : List Int} {history : List Event}
    (run : Run Steps (SFLogicEntry.initServer p2pService gameModes) history s) : Good s :=
  run.invariant (initServer_good p2pService gameModes) fun _ _ _ ⟨_, inv, settled⟩ step =>
    have ⟨_, place, _, invariant⟩ := step_reaches inv settled step
    ⟨place, invariant⟩

end Cgsf.Proof.Casual
