import Cgsf.Proof.Casual.Invariant

/-!
# Entering and leaving

What every packet of a player preserves, and how a player leaves its room.
-/

namespace Cgsf.Proof.Casual
open Cgsf.Casual Cgsf.Casual.SFLogicEntry Library Std

variable {place : PlayerRef → Option RoomRef} {s s' : SFLogicEntry}

theorem People.of_sends (people : People s) (sends : SendsOnly s s') : People s' := by
  rw [sends]
  exact ⟨people.connected, people.present, people.lobby, people.pooled, people.idle, people.fresh⟩

theorem People.of_moves (people : People s) (connections : s'.playerMap = s.playerMap)
    (lobby : s'.lobby = s.lobby) (pool : s'.playerPool = s.playerPool)
    (next : s'.nextPlayer = s.nextPlayer)
    (serials : ∀ q, (s'.players q).serial = (s.players q).serial)
    (moves : ∀ q, (s'.players q).state = (s.players q).state ∨
      inRoom (s.players q).state = true ∧ inRoom (s'.players q).state = true) : People s' := by
  have keeps (other : PlayerState) (outside : inRoom other = false) (q : PlayerRef) :
      (s'.players q).state = other ↔ (s.players q).state = other := by
    rcases moves q with same | ⟨before, after⟩
    · rw [same]
    · constructor <;> rintro rfl
      · rw [after] at outside
        contradiction
      · rw [before] at outside
        contradiction
  exact people.of_same connections lobby pool next serials (keeps .none rfl) (keeps .init rfl)
    (keeps .lobby rfl)

theorem People.of_within (people : People s) {r : RoomRef} {state : RoomState}
    (within : Within r state s s') : People s' :=
  people.of_moves (by rw [within.same]) (by rw [within.same]) (by rw [within.same])
    (by rw [within.same]) (fun q => by rw [within.kept q]) within.moves

theorem Rooming.of_sends (rooming : Rooming place s) (sends : SendsOnly s s') :
    Rooming place s' := by
  rw [sends]
  exact ⟨⟨rooming.held.rooms, rooming.held.active, rooming.held.empty, rooming.held.placed⟩,
    rooming.roomIndex⟩

theorem Rooming.modifyPeers (rooming : Rooming place s) (r : RoomRef)
    (f : TreeMap Int PeerInfo → TreeMap Int PeerInfo) :
    Rooming place (s.modifyRoom r fun room => { room with peerMap := f room.peerMap }) where
  held := rooming.held.of_room rfl rfl rfl rfl (fun _ => rfl) (fun _ _ _ _ => rfl)
    (fun _ _ _ => .rfl) .rfl (fun q => rooming.held.placed q r) fun inside =>
      have ok := rooming.held.rooms r inside
      ⟨⟨ok.all, ok.team⟩, ok.index, ok.size, ok.chief, ok.used⟩
  roomIndex := rooming.roomIndex

namespace Peers

theorem carry (peers : Peers place s) {place' : PlayerRef → Option RoomRef}
    (kept : ∀ r, r < maxRoomCount → ∀ k ∈ (s'.rooms r).peerMap, k ∈ (s.rooms r).peerMap)
    (waits : ∀ r, r < maxRoomCount → (s'.rooms r).state = .wait →
      (s.rooms r).state = .wait ∨ ∀ k, k ∉ (s.rooms r).peerMap)
    (members : ∀ r, r < maxRoomCount → ∀ q, place q = some r →
      (s.players q).serial ∈ (s'.rooms r).peerMap → place' q = some r)
    (serials : ∀ q, place q ≠ none → (s'.players q).serial = (s.players q).serial) :
    Peers place' s' where
  peers := fun r inside k peer => by
    obtain ⟨q, there, rfl⟩ := peers.peers r inside k (kept r inside k peer)
    refine ⟨q, members r inside q there peer, serials q ?_⟩
    rw [there]
    exact Option.some_ne_none r
  waiting := fun r inside wait k peer => by
    rcases waits r inside wait with waited | nobody
    · exact peers.waiting r inside waited k (kept r inside k peer)
    · exact nobody k (kept r inside k peer)

theorem of_rooms (peers : Peers place s) {place' : PlayerRef → Option RoomRef}
    (rooms : s'.rooms = s.rooms) (members : ∀ r q, place q = some r → place' q = some r)
    (serials : ∀ q, place q ≠ none → (s'.players q).serial = (s.players q).serial) :
    Peers place' s' :=
  peers.carry (fun r _ k => by rw [rooms]; exact id) (fun r _ wait => .inl (by rwa [rooms] at wait))
    (fun r _ q there _ => members r q there) serials

theorem leave (peers : Peers place s) {r : RoomRef} {p : PlayerRef} (member : place p = some r)
    (others : ∀ k, k ≠ r → s'.rooms k = s.rooms k)
    (kept : ∀ k ∈ (s'.rooms r).peerMap, k ∈ (s.rooms r).peerMap ∧ k ≠ (s.players p).serial)
    (waits : (s'.rooms r).state = .wait → (s.rooms r).state = .wait)
    (serials : ∀ q, (s'.players q).serial = (s.players q).serial) :
    Peers (Function.update place p none) s' := by
  refine peers.carry (fun k _ => ?_) (fun k _ waiting => .inl ?_) (fun k _ q there peer => ?_)
    fun q _ => serials q
  · by_cases here : k = r
    · subst here
      exact fun j peer => (kept j peer).1
    · rw [others k here]
      exact fun _ => id
  · by_cases here : k = r
    · subst here
      exact waits waiting
    · rwa [others k here] at waiting
  · rw [Function.update_of_ne, there]
    rintro rfl
    obtain rfl : k = r := Option.some.inj (there.symm.trans member)
    exact (kept _ peer).2 rfl

theorem of_within (peers : Peers place s) {r : RoomRef} {state : RoomState}
    (within : Within r state s s') (wait : state = .wait → (s.rooms r).state = .wait) :
    Peers place s' := by
  obtain ⟨mode, rooms⟩ := within.room
  have maps (k : RoomRef) : (s'.rooms k).peerMap = (s.rooms k).peerMap := by
    by_cases here : k = r
    · subst here
      rw [rooms, Function.update_self]
    · rw [rooms, Function.update_of_ne here]
  refine peers.carry (fun k _ _ => by rw [maps]; exact id) (fun k _ waits => .inl ?_)
    (fun _ _ _ there _ => there) (fun q _ => by rw [within.kept q])
  by_cases here : k = r
  · subst here
    rw [within.roomState] at waits
    exact wait waits
  · rwa [rooms, Function.update_of_ne here] at waits

end Peers

theorem Settled.of_within (settled : Settled s) {r : RoomRef} {state : RoomState}
    (within : Within r state s s') (ready : state ≠ .playReady) (ended : state ≠ .playEnd) :
    Settled s' := by
  obtain ⟨mode, rooms⟩ := within.room
  intro k inside
  by_cases here : k = r
  · subst here
    rw [within.roomState]
    exact ⟨ready, ended⟩
  · rw [rooms, Function.update_of_ne here]
    exact settled k inside

/-- `p` went to `state`. -/
structure ChangesState (p : PlayerRef) (state : PlayerState) (s s' : SFLogicEntry) : Prop where
  same : s' = { s with
    players := s'.players
    lobby := lobbyMove s.lobby (s.players p).serial p (s.players p).state state
    sent := s'.sent }
  mine : (s'.players p).state = state
  others : ∀ q, q ≠ p → s'.players q = s.players q
  kept : ∀ q, s'.players q = { s.players q with
    state := (s'.players q).state
    loadingComplete := (s'.players q).loadingComplete }

theorem ChangesState.of_run {p : PlayerRef} {state : PlayerState}
    (run : SFPlayerFSM.changeState s p state = some s') : ChangesState p state s s' := by
  obtain ⟨loadingComplete, sent, rfl⟩ := changeState_spec run
  refine ⟨rfl, by simp only [Function.update_self], fun q other => Function.update_of_ne other ..,
    fun q => ?_⟩
  by_cases me : q = p
  · subst me
    simp only [Function.update_self]
  · simp only [Function.update_of_ne me]

namespace Invariant

theorem of_sends (inv : Invariant place s) (sends : SendsOnly s s') : Invariant place s' where
  toPeople := inv.toPeople.of_sends sends
  toRooming := inv.toRooming.of_sends sends
  toPeers := inv.toPeers.of_rooms (by rw [sends]) (fun _ _ => id) fun q _ => by rw [sends]
  located := by
    rw [sends]
    exact inv.located

theorem of_within (inv : Invariant place s) {r : RoomRef} {state : RoomState}
    (within : Within r state s s') (used : (s.rooms r).state ≠ .none) (uses : state ≠ .none)
    (wait : state = .wait → (s.rooms r).state = .wait) : Invariant place s' where
  toPeople := inv.toPeople.of_within within
  toRooming := inv.toRooming.of_within within used uses
  toPeers := inv.toPeers.of_within within wait
  located := fun q => by
    rw [within.inRoom_iff]
    exact inv.located q

theorem of_peers (inv : Invariant place s) {r : RoomRef} {p : PlayerRef} (member : place p = some r)
    (playing : (s.rooms r).state ≠ .wait) (info : PeerInfo) :
    Invariant place (s.modifyRoom r fun room =>
      { room with peerMap := room.peerMap.insertIfNew (s.players p).serial info }) where
  toPeople := inv.toPeople.of_same rfl rfl rfl rfl (fun _ => rfl) (fun _ => .rfl) (fun _ => .rfl)
    fun _ => .rfl
  toRooming := inv.toRooming.modifyPeers r fun peerMap =>
    peerMap.insertIfNew (s.players p).serial info
  toPeers := by
    refine ⟨fun k inside j peer => ?_, fun k inside waits j peer => ?_⟩
    · by_cases here : k = r
      · subst here
        simp only [SFLogicEntry.modifyRoom, Function.update_self, TreeMap.mem_insertIfNew,
          LawfulEqOrd.compare_eq_iff_eq] at peer
        rcases peer with rfl | old
        · exact ⟨p, member, rfl⟩
        · exact inv.peers k inside j old
      · simp only [SFLogicEntry.modifyRoom, Function.update_of_ne here] at peer
        exact inv.peers k inside j peer
    · by_cases here : k = r
      · subst here
        simp only [SFLogicEntry.modifyRoom, Function.update_self] at waits
        exact playing waits
      · simp only [SFLogicEntry.modifyRoom, Function.update_of_ne here] at waits peer
        exact inv.waiting k inside waits j peer
  located := inv.located

theorem members_inRoom (inv : Invariant place s) {r : RoomRef} (inside : r < maxRoomCount)
    (t : TeamType) : ∀ p ∈ SFRoom.members s r t, inRoom (s.players p).state = true :=
  inv.toRooming.members_inRoom inside (fun p => (inv.located p).mpr) t

end Invariant

/-- `p` has entered or left a room and not yet changed its own state. -/
structure Pending (place : PlayerRef → Option RoomRef) (p : PlayerRef) (s : SFLogicEntry) :
    Prop extends People s, Rooming place s, Peers place s where
  others : ∀ q, q ≠ p → (inRoom (s.players q).state = true ↔ place q ≠ none)
  connection : s.playerMap[(s.players p).serial]? = some p

namespace Pending

variable {p : PlayerRef}

theorem of_invariant (inv : Invariant place s)
    (connection : s.playerMap[(s.players p).serial]? = some p) : Pending place p s where
  toPeople := inv.toPeople
  toRooming := inv.toRooming
  toPeers := inv.toPeers
  others := fun q _ => inv.located q
  connection := connection

theorem of_sends (pending : Pending place p s) (sends : SendsOnly s s') : Pending place p s' where
  toPeople := pending.toPeople.of_sends sends
  toRooming := pending.toRooming.of_sends sends
  toPeers := pending.toPeers.of_rooms (by rw [sends]) (fun _ _ => id) fun q _ => by rw [sends]
  others := by
    rw [sends]
    exact pending.others
  connection := by
    rw [sends]
    exact pending.connection

/-- Fields that no container depends on. -/
theorem modifyPlayer (pending : Pending place p s) (f : SFPlayer → SFPlayer)
    (keeps : ∀ q, (f q).serial = q.serial ∧ (f q).state = q.state ∧ (f q).teamType = q.teamType ∧
      (f q).roomIndex = q.roomIndex) : Pending place p (s.modifyPlayer p f) := by
  have same (q : PlayerRef) :
      ((s.modifyPlayer p f).players q).serial = (s.players q).serial ∧
      ((s.modifyPlayer p f).players q).state = (s.players q).state ∧
      ((s.modifyPlayer p f).players q).teamType = (s.players q).teamType ∧
      ((s.modifyPlayer p f).players q).roomIndex = (s.players q).roomIndex := by
    by_cases me : q = p
    · subst me
      simp only [SFLogicEntry.modifyPlayer, Function.update_self]
      exact keeps _
    · simp only [SFLogicEntry.modifyPlayer, Function.update_of_ne me, and_self]
  refine ⟨pending.toPeople.of_same rfl rfl rfl rfl (fun q => (same q).1)
      (fun q => by rw [(same q).2.1]) (fun q => by rw [(same q).2.1])
      (fun q => by rw [(same q).2.1]),
    pending.toRooming.of_same rfl rfl rfl
      (fun q _ => ⟨(same q).1, (same q).2.2.1, (same q).2.2.2⟩) (fun _ _ => rfl),
    pending.toPeers.of_rooms rfl (fun _ _ => id) (fun q _ => (same q).1), fun q other => ?_, ?_⟩
  · rw [(same q).2.1]
    exact pending.others q other
  · rw [(same p).1]
    exact pending.connection

/-- The state that `p` goes to settles whether it is in a room. -/
theorem changeState (pending : Pending place p s) {state : PlayerState}
    (run : SFPlayerFSM.changeState s p state = some s') (active : state ≠ .none)
    (fits : inRoom state = true ↔ place p ≠ none) : Invariant place s' := by
  have changes := ChangesState.of_run run
  have serials (q : PlayerRef) : (s'.players q).serial = (s.players q).serial := by
    rw [changes.kept q]
  refine ⟨pending.toPeople.move pending.connection active (by rw [changes.same])
      (by rw [changes.same]) (by rw [changes.same]) (by rw [changes.same])
      (fun q other => by rw [changes.others q other]) serials changes.mine,
    pending.toRooming.of_same (by rw [changes.same]) (by rw [changes.same]) (by rw [changes.same])
      (fun q _ => ?_) (fun _ _ => by rw [changes.same]),
    pending.toPeers.of_rooms (by rw [changes.same]) (fun _ _ => id) (fun q _ => serials q),
    fun q => ?_⟩
  · rw [changes.kept q]
    exact ⟨rfl, rfl, rfl⟩
  · by_cases me : q = p
    · subst me
      rw [changes.mine]
      exact fits
    · rw [changes.others q me]
      exact pending.others q me

end Pending

namespace Invariant

theorem connection (inv : Invariant place s) {p : PlayerRef} {r : RoomRef}
    (member : place p = some r) : s.playerMap[(s.players p).serial]? = some p :=
  (inv.held.placed p r member).2

theorem modifyPlayer (inv : Invariant place s) {p : PlayerRef}
    (connection : s.playerMap[(s.players p).serial]? = some p) (f : SFPlayer → SFPlayer)
    (keeps : ∀ q, (f q).serial = q.serial ∧ (f q).state = q.state ∧ (f q).teamType = q.teamType ∧
      (f q).roomIndex = q.roomIndex) : Invariant place (s.modifyPlayer p f) := by
  have pending := (Pending.of_invariant inv connection).modifyPlayer f keeps
  refine ⟨pending.toPeople, pending.toRooming, pending.toPeers, fun q => ?_⟩
  by_cases me : q = p
  · subst me
    simp only [SFLogicEntry.modifyPlayer, Function.update_self, (keeps _).2.1]
    exact inv.located q
  · exact pending.others q me

theorem changeState (inv : Invariant place s) {p : PlayerRef} {state : PlayerState}
    (connection : s.playerMap[(s.players p).serial]? = some p)
    (run : SFPlayerFSM.changeState s p state = some s') (active : state ≠ .none)
    (fits : inRoom state = true ↔ place p ≠ none) : Invariant place s' :=
  (Pending.of_invariant inv connection).changeState run active fits

end Invariant

theorem Settled.of_rooms (settled : Settled s) (rooms : s'.rooms = s.rooms) : Settled s' := by
  rw [Settled, rooms]
  exact settled

/-- What a room loses when a player leaves it. -/
structure Leaves (r : RoomRef) (s s' : SFLogicEntry) : Prop where
  same : s' = { s with
    players := s'.players, rooms := s'.rooms, emptyRooms := s'.emptyRooms
    activeRooms := s'.activeRooms, sent := s'.sent }
  others : ∀ k, k ≠ r → s'.rooms k = s.rooms k
  state : (s'.rooms r).state = (s.rooms r).state ∨ (s'.rooms r).state = .none
  kept : ∀ q, s'.players q = { s.players q with
    state := (s'.players q).state
    loadingComplete := (s'.players q).loadingComplete
    spawnIndex := (s'.players q).spawnIndex }
  moves : ∀ q, (s'.players q).state = (s.players q).state ∨
    inRoom (s.players q).state = true ∧ inRoom (s'.players q).state = true

/-- The room manager's maps after a room was recalled. -/
theorem Held.recall (held : Held place s) {r : RoomRef} {room : SFRoom} (inside : r < maxRoomCount)
    (used : (s.rooms r).state ≠ .none) (rooms : s'.rooms = Function.update s.rooms r room)
    (unused : room.state = .none) :
    Lists (s.activeRooms.erase r) (fun k => k < maxRoomCount ∧ (s'.rooms k).state ≠ .none) id ∧
      Lists (s.emptyRooms.insertIfNew r r)
        (fun k => k < maxRoomCount ∧ (s'.rooms k).state = .none) id := by
  have here : (s'.rooms r).state = .none := by rw [rooms, Function.update_self, unused]
  have there (k : RoomRef) (other : k ≠ r) : s'.rooms k = s.rooms k := by
    rw [rooms, Function.update_of_ne other]
  have active := held.active.erase (p := r) ⟨inside, used⟩
  have empty := held.empty.insert (p := r) fun k unused same => used (by
    rw [← show k = r from same]
    exact unused.2)
  refine ⟨active.congr (fun k => ?_) fun _ _ => rfl, empty.congr (fun k => ?_) fun _ _ => rfl⟩
  · by_cases same : k = r
    · subst same
      simp [here]
    · simp [there k same, same]
  · by_cases same : k = r
    · subst same
      simp [here, inside]
    · simp [there k same, same]

theorem roomLeave_spec (inv : Invariant place s) {r : RoomRef} {p : PlayerRef} {left : Bool}
    (member : place p = some r) (run : SFRoom.onLeave s r p = some (s', left)) :
    left = true ∧ Rooming (Function.update place p none) s' ∧ Leaves r s s' ∧
      (s'.rooms r).peerMap = (s.rooms r).peerMap := by
  obtain ⟨inside, used, -⟩ := inv.member_room member
  have ok := inv.held.rooms r inside
  have away := ok.withdraw member
  obtain ⟨sent, room, is, cases⟩ := roomLeave_cases run
  have holds : RoomHolds s.players room (fun q => place q = some r ∧ q ≠ p) := by
    rw [is]
    exact away
  have state : room.state = (s.rooms r).state := by rw [is]; rfl
  have peers : room.peerMap = (s.rooms r).peerMap := by rw [is]; rfl
  have chief_before : room.roomChief = (s.rooms r).roomChief := by rw [is]; rfl
  rcases cases with ⟨nobody, rfl, recalls⟩ | ⟨somebody, headless, -⟩ |
    ⟨somebody, rfl, roomChief, rfl, chosen⟩
  · have index : room.roomIndex = r := by rw [is]; exact ok.index
    obtain ⟨m, within, rfl⟩ := recallRoom_spec (fun t q listed => by
      simp only [SFRoom.members, Function.update_self] at listed
      have there := ((holds.members_mem t q).mp listed).1.1
      exact (inv.located q).mpr (by rw [there]; exact Option.some_ne_none r)) recalls
    obtain ⟨mode, rooms⟩ := within.room
    simp only [Function.update_self, Function.update_idem] at rooms
    simp only [Function.update_self, index]
    obtain ⟨active, empty⟩ := inv.held.recall inside used rooms rfl
    refine ⟨trivial, inv.toRooming.leave member (fun q => ?_) rooms (by rw [is])
      (fun somebody => absurd nobody somebody) ⟨fun _ => nobody, fun _ => rfl⟩ active empty
      (by rw [within.same]), ⟨by rw [within.same], fun k other => ?_, .inr ?_, within.kept,
        within.moves⟩, ?_⟩
    · dsimp only
      rw [within.kept q]
      exact ⟨rfl, rfl, rfl⟩
    · rw [rooms, Function.update_of_ne other]
    · rw [rooms, Function.update_self]
    · rw [rooms, Function.update_self]
      exact peers
  · obtain ⟨q, listed⟩ := List.exists_mem_of_ne_nil _ somebody
    have there := (holds.all.lists.mem_values q).mpr ((holds.all.mem q).mp listed)
    rw [List.head?_eq_none_iff.mp headless] at there
    contradiction
  · have chief : ∃ q, roomChief = some q ∧ place q = some r ∧ q ≠ p := by
      rcases chosen with ⟨other, rfl⟩ | ⟨entry, head, rfl⟩
      · obtain ⟨q, is_chief, there⟩ := ok.chief fun none => used (ok.used.mpr none)
        refine ⟨q, chief_before.trans is_chief, there, ?_⟩
        rintro rfl
        exact other (chief_before.trans is_chief)
      · have listed := List.mem_map_of_mem (f := (·.2)) (List.mem_of_head? head)
        exact ⟨entry.2, rfl, (holds.all.lists.mem_values entry.2).mp listed⟩
    have states (k : RoomRef) :
        (Function.update s.rooms r { room with roomChief } k).state = (s.rooms k).state := by
      by_cases same : k = r
      · subst same
        rw [Function.update_self, ← state]
      · rw [Function.update_of_ne same]
    refine ⟨rfl, inv.toRooming.leave member (fun _ => ⟨rfl, rfl, rfl⟩) rfl (by rw [is])
      (fun _ => chief) ⟨fun none => absurd (state.symm.trans none) used,
        fun none => absurd none somebody⟩ ?_ ?_ rfl,
      ⟨rfl, fun k other => Function.update_of_ne other .., .inl (states r), fun _ => rfl,
        fun _ => .inl rfl⟩, ?_⟩
    · exact inv.held.active.congr (fun k => by simp only [states]) fun _ _ => rfl
    · exact inv.held.empty.congr (fun k => by simp only [states]) fun _ _ => rfl
    · simp only [Function.update_self]
      exact peers

end Cgsf.Proof.Casual
