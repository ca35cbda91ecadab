import Cgsf.Proof.Casual.Membership

/-!
# What the handlers preserve

Each handler ends in a state that satisfies the invariant again, with at most its own player entering
or leaving a room.
-/

namespace Cgsf.Proof.Casual
open Cgsf.Casual Cgsf.Casual.SFLogicEntry Library Std

variable {place : PlayerRef → Option RoomRef} {p : PlayerRef} {s s' : SFLogicEntry}

inductive Moved (place : PlayerRef → Option RoomRef) (p : PlayerRef) (leaving : Prop) :
    (PlayerRef → Option RoomRef) → Prop where
  | stays : Moved place p leaving place
  | enters (r : RoomRef) (outside : place p = none) :
      Moved place p leaving (Function.update place p (some r))
  | leaves (r : RoomRef) (may : leaving) (member : place p = some r) :
      Moved place p leaving (Function.update place p none)

def Reaches (place : PlayerRef → Option RoomRef) (p : PlayerRef) (leaving : Prop)
    (s' : SFLogicEntry) : Prop :=
  ∃ place', Moved place p leaving place' ∧ Invariant place' s' ∧ Settled s'

namespace Reaches

variable {leaving : Prop}

theorem stays (inv : Invariant place s) (settled : Settled s) : Reaches place p leaving s :=
  ⟨place, .stays, inv, settled⟩

theorem of_sends (reaches : Reaches place p leaving s) (sends : SendsOnly s s') :
    Reaches place p leaving s' := by
  obtain ⟨place', moved, inv, settled⟩ := reaches
  exact ⟨place', moved, inv.of_sends sends, settled.of_rooms (by rw [sends])⟩

theorem mono {leaving' : Prop} (reaches : Reaches place p leaving s)
    (allows : leaving → leaving') : Reaches place p leaving' s := by
  obtain ⟨place', moved, inv, settled⟩ := reaches
  refine ⟨place', ?_, inv, settled⟩
  cases moved with
  | stays => exact .stays
  | enters r outside => exact .enters r outside
  | leaves r may member => exact .leaves r (allows may) member

end Reaches

theorem Settled.update (settled : Settled s) {r : RoomRef} (room : SFRoom)
    (rooms : s'.rooms = Function.update s.rooms r room)
    (state : room.state ≠ .playReady ∧ room.state ≠ .playEnd) : Settled s' := by
  intro k inside
  rw [rooms]
  by_cases here : k = r
  · subst here
    rw [Function.update_self]
    exact state
  · rw [Function.update_of_ne here]
    exact settled k inside

theorem peers_update (peers : Peers place s) {r : RoomRef} {room : SFRoom}
    {place' : PlayerRef → Option RoomRef} (rooms : s'.rooms = Function.update s.rooms r room)
    (kept : r < maxRoomCount → ∀ k ∈ room.peerMap, k ∈ (s.rooms r).peerMap)
    (waits : r < maxRoomCount → room.state = .wait →
      (s.rooms r).state = .wait ∨ ∀ k, k ∉ (s.rooms r).peerMap)
    (members : ∀ q, place q = some r → (s.players q).serial ∈ room.peerMap → place' q = some r)
    (others : ∀ q k, k ≠ r → place q = some k → place' q = some k)
    (serials : ∀ q, place q ≠ none → (s'.players q).serial = (s.players q).serial) :
    Peers place' s' := by
  refine peers.carry (fun k inside => ?_) (fun k inside => ?_) (fun k _ q there => ?_) serials
  all_goals
    rw [rooms]
    by_cases here : k = r
    · subst here
      rw [Function.update_self]
      first | exact kept inside | exact waits inside | exact members q there
    · rw [Function.update_of_ne here]
      first | exact fun _ => id | exact .inl | exact fun _ => others q k here there

/-- A player that was in no room and is now in `r`, apart from its own state. -/
theorem Pending.join (inv : Invariant place s) {r : RoomRef} (room : SFRoom)
    (inside : r < maxRoomCount) (outside : place p = none)
    (connection : s.playerMap[(s.players p).serial]? = some p)
    (free : (s.rooms r).observers.length < maxRoomMember)
    (same : s' = { s with
      players := s'.players, rooms := Function.update s.rooms r room
      emptyRooms := s'.emptyRooms, activeRooms := s'.activeRooms, sent := s'.sent })
    (others : ∀ q, q ≠ p → s'.players q = s.players q)
    (mine : s'.players p = { s.players p with
      teamType := (s'.players p).teamType, roomIndex := r })
    (joins : room = { joined (s.rooms r) p (s.players p).serial (s'.players p).teamType with
      state := room.state, roomChief := room.roomChief, gameMode := room.gameMode,
      currentGameMode := room.currentGameMode })
    (state : room.state ≠ .none)
    (chief : (s.rooms r).state ≠ .none ∧ room.roomChief = (s.rooms r).roomChief ∨
      room.roomChief = some p)
    (waits : room.state = .wait → (s.rooms r).state = .wait ∨ (s.rooms r).state = .none)
    (active : Lists s'.activeRooms (fun k => k < maxRoomCount ∧ (s'.rooms k).state ≠ .none) id)
    (empty : Lists s'.emptyRooms (fun k => k < maxRoomCount ∧ (s'.rooms k).state = .none) id) :
    Pending (Function.update place p (some r)) p s' := by
  have keeps (q : PlayerRef) : (s'.players q).serial = (s.players q).serial ∧
      (s'.players q).state = (s.players q).state := by
    by_cases me : q = p
    · subst me
      rw [mine]
      exact ⟨rfl, rfl⟩
    · rw [others q me]
      exact ⟨rfl, rfl⟩
  have stay (q : PlayerRef) (k : RoomRef) (member : place q = some k) :
      Function.update place p (some r) q = some k := by
    rw [Function.update_of_ne, member]
    rintro rfl
    rw [outside] at member
    contradiction
  have people : People s' := inv.toPeople.of_same (by rw [same]) (by rw [same]) (by rw [same])
    (by rw [same]) (fun q => (keeps q).1) (fun q => by rw [(keeps q).2])
    (fun q => by rw [(keeps q).2]) (fun q => by rw [(keeps q).2])
  have rooming := inv.toRooming.enter inside outside connection free
    (fun q => ⟨(keeps q).1, fun other => by rw [others q other]; exact ⟨rfl, rfl⟩⟩)
    (by rw [mine]) (by rw [same]) joins state chief active empty (by rw [same])
  have peers : room.peerMap = (s.rooms r).peerMap := by rw [joins]; rfl
  refine ⟨people, rooming, peers_update inv.toPeers (by rw [same]) (fun _ k => by rw [peers]; exact id)
    (fun _ wait => ?_) (fun q there _ => stay q r there) (fun q k _ there => stay q k there)
    (fun q _ => (keeps q).1), fun q other => ?_, ?_⟩
  · refine (waits wait).imp_right fun unused k peer => ?_
    obtain ⟨q, member, -⟩ := inv.peers r inside k peer
    exact (inv.member_room member).2.1 unused
  · rw [(keeps q).2, Function.update_of_ne other]
    exact inv.located q
  · rw [(keeps p).1, same]
    exact connection

/-- `SFRoom::OnEnter` took the player in. -/
theorem Pending.enter (inv : Invariant place s) {r : RoomRef} (inside : r < maxRoomCount)
    (used : (s.rooms r).state ≠ .none) (outside : place p = none)
    (connection : s.playerMap[(s.players p).serial]? = some p)
    (free : (s.rooms r).observers.length < maxRoomMember) {teamType : TeamType}
    {sent : List (Int × Message)} (is : s' = { s with
      players := Function.update s.players p
        { s.players p with teamType, roomIndex := (s.rooms r).roomIndex }
      rooms := Function.update s.rooms r (joined (s.rooms r) p (s.players p).serial teamType)
      sent }) : Pending (Function.update place p (some r)) p s' := by
  have states (k : RoomRef) : (s'.rooms k).state = (s.rooms k).state := by
    rw [is]
    by_cases here : k = r
    · subst here
      simp only [Function.update_self]
      rfl
    · simp only [Function.update_of_ne here]
  refine .join inv (joined (s.rooms r) p (s.players p).serial teamType) inside outside connection
    free (by rw [is]) (fun q other => ?_) ?_ ?_ used (.inl ⟨used, rfl⟩) .inl ?_ ?_
  · rw [is]
    exact Function.update_of_ne other ..
  · rw [is]
    simp only [Function.update_self, (inv.held.rooms r inside).index]
  · rw [is]
    simp only [Function.update_self]
  · rw [is]
    exact inv.held.active.congr (fun k => by rw [← states k, is]) fun _ _ => rfl
  · rw [is]
    exact inv.held.empty.congr (fun k => by rw [← states k, is]) fun _ _ => rfl

/-- The player asks to enter a room that it may already be in. -/
theorem onEnter_reaches (inv : Invariant place s) (settled : Settled s) {r : RoomRef}
    (inside : r < maxRoomCount) (used : (s.rooms r).state ≠ .none)
    (here : place p = none ∨ place p = some r)
    (connection : s.playerMap[(s.players p).serial]? = some p) {entered : Bool}
    (run : SFRoom.onEnter s r p = some (s', entered)) :
    entered = false ∧ s' = s ∨
      entered = true ∧ Settled s' ∧ ∃ place', Moved place p False place' ∧ place' p ≠ none ∧
        Pending place' p s' := by
  rcases onEnter_cases run with refused | ⟨rfl, free, absent, teamType, sent, is⟩
  · exact .inl refused
  · have outside : place p = none := here.resolve_right fun member =>
      absent (inv.member_room member).2.2
    refine .inr ⟨rfl, settled.update (r := r) (joined (s.rooms r) p (s.players p).serial teamType)
      (by rw [is]) ?_, _, .enters r outside, ?_,
      .enter inv inside used outside connection free is⟩
    · exact settled r inside
    · rw [Function.update_self]
      exact Option.some_ne_none r

theorem waitEnter_reaches (inv : Invariant place s) (settled : Settled s) {r : RoomRef}
    (inside : r < maxRoomCount) (used : (s.rooms r).state ≠ .none)
    (here : place p = none ∨ place p = some r)
    (connection : s.playerMap[(s.players p).serial]? = some p)
    (run : SFRoomWait.onEnterRoom s r p = some s') : Reaches place p False s' := by
  obtain ⟨⟨m, entered⟩, enters, finish⟩ := Option.bind_eq_some_iff.mp run
  rcases onEnter_reaches inv settled inside used here connection enters with
    ⟨rfl, rfl⟩ | ⟨rfl, settled', place', moved, there, pending⟩
  · obtain rfl := Option.some.inj finish
    exact .stays inv settled
  · have moves : SFPlayerFSM.changeState m p .room = some s' := finish
    exact ⟨place', moved, pending.changeState moves nofun ⟨fun _ => there, fun _ => rfl⟩,
      settled'.of_rooms (by rw [(ChangesState.of_run moves).same])⟩

theorem playEnter_reaches (inv : Invariant place s) (settled : Settled s) {r : RoomRef}
    (inside : r < maxRoomCount) (used : (s.rooms r).state ≠ .none)
    (here : place p = none ∨ place p = some r)
    (connection : s.playerMap[(s.players p).serial]? = some p) {random : Nat}
    (run : SFRoomPlay.onEnterRoom s r p random = some s') : Reaches place p False s' := by
  obtain ⟨⟨m, entered⟩, enters, finish⟩ := Option.bind_eq_some_iff.mp run
  rcases onEnter_reaches inv settled inside used here connection enters with
    ⟨rfl, rfl⟩ | ⟨rfl, settled', place', moved, there, pending⟩
  · obtain rfl := Option.some.inj finish
    exact .stays inv settled
  · have spawned := pending.modifyPlayer
      (fun q => { q with spawnIndex := random % maxRoomMember + 1 }) fun _ => ⟨rfl, rfl, rfl, rfl⟩
    have moves : SFPlayerFSM.changeState _ p .loading = some s' := finish
    exact ⟨place', moved, spawned.changeState moves nofun ⟨fun _ => there, fun _ => rfl⟩,
      settled'.of_rooms (by rw [(ChangesState.of_run moves).same]; rfl)⟩

theorem changeTeam_reaches (inv : Invariant place s) (settled : Settled s) {r : RoomRef}
    (member : place p = some r) {leaving : Prop} :
    Reaches place p leaving (SFRoom.changeTeam s r p) := by
  obtain ⟨teamType, other, is⟩ := changeTeam_spec s r p
  rw [is]
  have inside := (inv.member_room member).1
  have ok := inv.held.rooms r inside
  have keeps (q : PlayerRef) :
      (Function.update s.players p { s.players p with teamType } q).serial = (s.players q).serial ∧
      (Function.update s.players p { s.players p with teamType } q).state = (s.players q).state ∧
      (Function.update s.players p { s.players p with teamType } q).roomIndex =
        (s.players q).roomIndex := by
    by_cases me : q = p
    · subst me
      simp only [Function.update_self, and_self]
    · simp only [Function.update_of_ne me, and_self]
  have moved : RoomHolds (Function.update s.players p { s.players p with teamType }) _ _ := ok.move
    member (fun q => (keeps q).1) (fun q not_me => by
      rw [teamOf, Function.update_of_ne not_me]
      rfl) (by rw [teamOf, Function.update_self]; exact other)
  rw [teamOf, teamOf, Function.update_self] at moved
  have held : Held place { s with
      players := Function.update s.players p { s.players p with teamType }
      rooms := Function.update s.rooms r
        (((s.rooms r).setTeam (s.players p).teamType fun members =>
          members.delMember p (s.players p).serial).setTeam teamType fun members =>
            members.addMember p (s.players p).serial) } := inv.held.of_room
    rfl rfl rfl rfl (fun q => (keeps q).1) (fun q k there not_here => by
      have not_me : q ≠ p := by
        rintro rfl
        rw [member] at there
        exact not_here (Option.some.inj there).symm
      simp only [Function.update_of_ne not_me]) (fun _ _ _ => .rfl) .rfl
    (fun q => inv.held.placed q r)
    fun _ => ⟨moved, ok.index, ok.size, ok.chief, ok.used⟩
  refine .stays ⟨inv.toPeople.of_same rfl rfl rfl rfl (fun q => (keeps q).1)
      (fun q => by dsimp only; rw [(keeps q).2.1]) (fun q => by dsimp only; rw [(keeps q).2.1])
      (fun q => by dsimp only; rw [(keeps q).2.1]),
    ⟨held, fun q k there => ?_⟩,
    peers_update inv.toPeers rfl (fun _ _ => id) (fun _ => .inl) (fun _ there _ => there)
      (fun _ _ _ there => there) (fun q _ => (keeps q).1), fun q => ?_⟩
    (settled.update _ rfl (settled r inside))
  · rw [(keeps q).2.2]
    exact inv.roomIndex q k there
  · dsimp only
    rw [(keeps q).2.1]
    exact inv.located q

theorem changeState_wait {r : RoomRef} (unused : (s.rooms r).state = .none) :
    SFRoomFSM.changeState s r .wait = some (s.modifyRoom r fun room => { room with state := .wait }) := by
  rw [SFRoomFSM.changeState, unused, if_neg (by decide), SFRoomFSM.onLeave, unused]
  simp only [Option.bind_some]
  rw [SFRoomFSM.onEnter]
  simp only [SFLogicEntry.modifyRoom, Function.update_self]

theorem onCreateRoom_cases (inv : Invariant place s) {gameMode : Int} {created : Bool}
    (run : SFRoomManager.onCreateRoom s p gameMode = some (s', created)) :
    created = false ∧ s' = s ∨
      created = true ∧ ∃ r teamType, r < maxRoomCount ∧ (s.rooms r).state = .none ∧ s' = { s with
        players := Function.update s.players p { s.players p with teamType, roomIndex := r }
        rooms := Function.update s.rooms r
          { joined (s.rooms r) p (s.players p).serial teamType with
            state := .wait, roomChief := some p, gameMode }
        emptyRooms := s.emptyRooms.erase r
        activeRooms := s.activeRooms.insertIfNew r r } := by
  rw [SFRoomManager.onCreateRoom] at run
  split at run
  · cases run
    exact .inl ⟨rfl, rfl⟩
  · rename_i r m found
    obtain ⟨⟨index, r'⟩, first, taken⟩ := Option.map_eq_some_iff.mp found
    cases taken
    obtain ⟨⟨inside, unused⟩, rfl⟩ := (inv.held.empty index r).mp
      (TreeMap.mem_toList_iff_getElem?_eq_some.mp (List.mem_of_head? first))
    have ok := inv.held.rooms r inside
    obtain ⟨teamType, opened⟩ := openRoom_spec
      { s with emptyRooms := s.emptyRooms.erase (id r) } r p (ok.used.mp unused)
    rw [opened, changeState_wait (by simp only [Function.update_self]; exact unused)] at run
    cases run
    refine .inr ⟨rfl, r, teamType, inside, unused, ?_⟩
    simp only [SFLogicEntry.modifyRoom, SFLogicEntry.modifyPlayer, Function.update_self,
      Function.update_idem]
    rw [show (joined (s.rooms r) p (s.players p).serial teamType).roomIndex = r from ok.index]
    rfl

theorem createRoom_reaches (inv : Invariant place s) (settled : Settled s) {gameMode : Int}
    (outside : place p = none) (connection : s.playerMap[(s.players p).serial]? = some p)
    (run : SFPlayerLobby.onCreateRoom s p gameMode = some s') : Reaches place p False s' := by
  rw [SFPlayerLobby.onCreateRoom] at run
  split at run
  · obtain rfl := Option.some.inj run
    exact .stays inv settled
  · obtain ⟨⟨m, created⟩, creates, finish⟩ := Option.bind_eq_some_iff.mp run
    rcases onCreateRoom_cases inv creates with
      ⟨rfl, rfl⟩ | ⟨rfl, r, teamType, inside, unused, is⟩
    · obtain rfl := Option.some.inj finish
      exact .stays inv settled
    · obtain ⟨entered, moves, rfl⟩ := Option.map_eq_some_iff.mp finish
      have changes := ChangesState.of_run moves
      have elsewhere (k : RoomRef) (other : k ≠ r) : m.rooms k = s.rooms k := by
        rw [is]
        exact Function.update_of_ne other ..
      have here : (m.rooms r).state = .wait := by
        rw [is]
        simp only [Function.update_self]
      have active := inv.held.active.insert (p := r) fun k used same => used.2 (by
        rw [show k = r from same]
        exact unused)
      have empty := inv.held.empty.erase (p := r) ⟨inside, unused⟩
      have pending : Pending (Function.update place p (some r)) p m := by
        refine .join inv { joined (s.rooms r) p (s.players p).serial teamType with
            state := .wait, roomChief := some p, gameMode } inside outside connection (by
              rw [(inv.held.rooms r inside).used.mp unused]
              decide) (by rw [is]) (fun q other => ?_) ?_
          ?_ nofun (.inr rfl) (fun _ => .inr unused) ?_ ?_
        · rw [is]
          exact Function.update_of_ne other ..
        · rw [is]
          simp only [Function.update_self]
        · rw [is]
          simp only [Function.update_self]
        · rw [show m.activeRooms = s.activeRooms.insertIfNew r r by rw [is]]
          refine active.congr (fun k => ?_) fun _ _ => rfl
          by_cases same : k = r
          · subst same
            simp [here, inside]
          · simp [elsewhere k same, same]
        · rw [show m.emptyRooms = s.emptyRooms.erase r by rw [is]]
          refine empty.congr (fun k => ?_) fun _ _ => rfl
          by_cases same : k = r
          · subst same
            simp [here]
          · simp [elsewhere k same, same]
      have invariant := pending.changeState moves nofun
        ⟨fun _ => by rw [Function.update_self]; exact Option.some_ne_none r, fun _ => rfl⟩
      have settled' : Settled m := settled.update (r := r)
        { joined (s.rooms r) p (s.players p).serial teamType with
          state := .wait, roomChief := some p, gameMode } (by rw [is]) ⟨nofun, nofun⟩
      exact Reaches.of_sends ⟨_, .enters r outside, invariant,
        settled'.of_rooms (by rw [changes.same])⟩ (.sendToClient entered p _)

/-- The server after `p` left its room for the lobby. -/
structure LeftRoom (place : PlayerRef → Option RoomRef) (p : PlayerRef) (s s' : SFLogicEntry) :
    Prop where
  invariant : Invariant (Function.update place p none) s'
  settled : Settled s'
  connections : s'.playerMap = s.playerMap
  serials : ∀ q, (s'.players q).serial = (s.players q).serial

theorem Settled.leave (settled : Settled s) {r : RoomRef} (leaves : Leaves r s s') :
    Settled s' := by
  intro k inside
  by_cases here : k = r
  · subst here
    rcases leaves.state with same | none
    · rw [same]
      exact settled k inside
    · rw [none]
      exact ⟨nofun, nofun⟩
  · rw [leaves.others k here]
    exact settled k inside

/-- The player has left the containers of the room and no peer has its serial. -/
theorem LeftRoom.of_pending (inv : Invariant place s) (settled : Settled s) {r : RoomRef}
    {m : SFLogicEntry} (member : place p = some r) (leaves : Leaves r s m)
    (rooming : Rooming (Function.update place p none) m) (gone : ∀ k ∈ (m.rooms r).peerMap,
      k ∈ (s.rooms r).peerMap ∧ k ≠ (s.players p).serial)
    (run : SFPlayerFSM.changeState m p .lobby = some s') : LeftRoom place p s s' := by
  have serials (q : PlayerRef) : (m.players q).serial = (s.players q).serial := by
    rw [leaves.kept q]
  have pending : Pending (Function.update place p none) p m := by
    refine ⟨inv.toPeople.of_moves (by rw [leaves.same]) (by rw [leaves.same]) (by rw [leaves.same])
      (by rw [leaves.same]) serials leaves.moves, rooming, inv.toPeers.leave member leaves.others
      gone (fun waits => ?_) serials, fun q other => ?_, ?_⟩
    · exact leaves.state.elim (fun same => same ▸ waits) fun none => absurd (none.symm.trans waits) nofun
    · rw [Function.update_of_ne other, ← inv.located q]
      rcases leaves.moves q with same | ⟨before, after⟩
      · rw [same]
      · rw [before, after]
    · rw [serials p, leaves.same]
      exact inv.connection member
  have changes := ChangesState.of_run run
  refine ⟨pending.changeState run nofun ⟨nofun, fun there => ?_⟩,
    (settled.leave leaves).of_rooms (by rw [changes.same]), ?_, fun q => ?_⟩
  · rw [Function.update_self] at there
    contradiction
  · rw [changes.same, leaves.same]
  · rw [changes.kept q, serials q]

theorem LeftRoom.of_sends {m : SFLogicEntry} (left : LeftRoom place p s m)
    (sends : SendsOnly m s') : LeftRoom place p s s' where
  invariant := left.invariant.of_sends sends
  settled := left.settled.of_rooms (by rw [sends])
  connections := by rw [sends]; exact left.connections
  serials := by rw [sends]; exact left.serials

theorem LeftRoom.reaches (left : LeftRoom place p s s') {r : RoomRef} (member : place p = some r) :
    Reaches place p True s' :=
  ⟨_, .leaves r trivial member, left.invariant, left.settled⟩

theorem waitLeave_left (inv : Invariant place s) (settled : Settled s) {r : RoomRef}
    (member : place p = some r) (waiting : (s.rooms r).state = .wait)
    (run : SFRoomWait.onLeaveRoom s r p = some s') : LeftRoom place p s s' := by
  obtain ⟨⟨m, left⟩, leave, finish⟩ := Option.bind_eq_some_iff.mp run
  obtain ⟨rfl, rooming, leaves, peers⟩ := roomLeave_spec inv member leave
  obtain ⟨lobbied, moves, rfl⟩ := Option.map_eq_some_iff.mp finish
  have inside := (inv.member_room member).1
  refine (LeftRoom.of_pending inv settled member leaves rooming (fun k peer => ?_) moves).of_sends
    (.sendToClient lobbied p _)
  rw [peers] at peer
  exact absurd peer (inv.waiting r inside waiting k)

theorem Leaves.erase_peer {r : RoomRef} {m : SFLogicEntry} (leaves : Leaves r s m)
    (sends : SendsOnly m s') (serial : Int) : Leaves r s
      (s'.modifyRoom r fun room => { room with peerMap := room.peerMap.erase serial }) := by
  rw [sends]
  refine ⟨?_, fun k other => ?_, ?_, leaves.kept, leaves.moves⟩
  · rw [leaves.same]
    rfl
  · simp only [SFLogicEntry.modifyRoom, Function.update_of_ne other]
    exact leaves.others k other
  · simp only [SFLogicEntry.modifyRoom, Function.update_self]
    exact leaves.state

theorem loadingLeave_left (inv : Invariant place s) (settled : Settled s) {r : RoomRef}
    (member : place p = some r) (run : SFRoomLoading.onLeaveRoom s r p = some s') :
    LeftRoom place p s s' := by
  obtain ⟨⟨m, left⟩, leave, finish⟩ := Option.bind_eq_some_iff.mp run
  obtain ⟨rfl, rooming, leaves, peers⟩ := roomLeave_spec inv member leave
  have serial : (m.players p).serial = (s.players p).serial := by rw [leaves.kept p]
  obtain ⟨a, destroyed, finish⟩ := Option.bind_eq_some_iff.mp finish
  obtain ⟨b, deleted, finish⟩ := Option.bind_eq_some_iff.mp finish
  obtain ⟨lobbied, moves, rfl⟩ := Option.map_eq_some_iff.mp finish
  have sends := (propagateMessage_sends destroyed).trans (propagateMessage_sends deleted)
  refine (LeftRoom.of_pending inv settled member (leaves.erase_peer sends _)
    ((rooming.of_sends sends).modifyPeers r fun peerMap => peerMap.erase (m.players p).serial)
    (fun k peer => ?_) moves).of_sends (.sendToClient lobbied p _)
  rw [sends] at peer
  simp only [SFLogicEntry.modifyRoom, Function.update_self, peers, serial, TreeMap.mem_erase] at peer
  exact ⟨peer.2, fun same => peer.1 (by rw [same]; exact ReflCmp.compare_self)⟩

theorem leaveRoom_left (inv : Invariant place s) (settled : Settled s) {r : RoomRef}
    (member : place p = some r) (run : SFRoomFSM.onLeaveRoom s r p = some s') :
    LeftRoom place p s s' := by
  obtain ⟨inside, used, -⟩ := inv.member_room member
  have never := settled r inside
  rw [SFRoomFSM.onLeaveRoom] at run
  cases state : (s.rooms r).state with
  | none => exact absurd state used
  | wait =>
      rw [state] at run
      exact waitLeave_left inv settled member state run
  | loading | play =>
      rw [state] at run
      exact loadingLeave_left inv settled member run
  | playReady => exact absurd state never.1
  | playEnd => exact absurd state never.2

theorem loadingStart_reaches (inv : Invariant place s) (settled : Settled s) {r : RoomRef}
    {leaving : Prop} (member : place p = some r)
    (run : SFRoomWait.onLoadingStart s r p = some s') : Reaches place p leaving s' := by
  obtain ⟨inside, used, -⟩ := inv.member_room member
  rw [SFRoomWait.onLoadingStart] at run
  split at run
  · obtain rfl := Option.some.inj run
    exact .stays inv settled
  · split at run
    · obtain rfl := Option.some.inj run
      exact .stays inv settled
    · have within := roomChangeState_within (inv.members_inRoom inside) run
      exact .stays (inv.of_within within used nofun nofun) (settled.of_within within nofun nofun)

theorem onChat_sends (s : SFLogicEntry) (r : RoomRef) (p : PlayerRef) (message : Text) :
    SendsOnly s (SFRoomWait.onChat s r p message) :=
  SendsOnly.foldl _ _ (fun s _ => .sendToClient s _ _) s

theorem loadingComplete_reaches (inv : Invariant place s) (settled : Settled s) {r : RoomRef}
    {leaving : Prop} (member : place p = some r) (loading : (s.rooms r).state = .loading)
    (run : SFRoomLoading.onLoadingComplete s r p = some s') : Reaches place p leaving s' := by
  obtain ⟨inside, used, -⟩ := inv.member_room member
  have added := inv.of_peers member (by rw [loading]; exact nofun) (s.players p).info
  have state : Settled (s.modifyRoom r fun room => { room with
      peerMap := room.peerMap.insertIfNew (s.players p).serial (s.players p).info }) :=
    settled.update _ rfl (settled r inside)
  rw [SFRoomLoading.onLoadingComplete] at run
  split at run
  · obtain rfl := Option.some.inj run
    exact .stays added state
  · obtain ⟨m, ready, plays⟩ := Option.bind_eq_some_iff.mp run
    have first := roomChangeState_within (added.members_inRoom inside) ready
    have here := (added.member_room member).2.1
    have invariant := added.of_within first here nofun nofun
    have second := roomChangeState_within (invariant.members_inRoom inside) plays
    have both := first.trans second
    exact .stays (added.of_within both here nofun nofun) (state.of_within both nofun nofun)

theorem playLoadingComplete_reaches (inv : Invariant place s) (settled : Settled s) {r : RoomRef}
    {leaving : Prop} (member : place p = some r)
    (run : SFRoomPlay.onLoadingComplete s r p = some s') : Reaches place p leaving s' := by
  rw [SFRoomPlay.onLoadingComplete] at run
  obtain ⟨m, told, moves⟩ : ∃ m, SendsOnly s m ∧ SFPlayerFSM.changeState m p .play = some s' :=
    ⟨_, SendsOnly.foldl _ _ (fun m _ => .sendToClient m _ _) s, run⟩
  have invariant := inv.of_sends told
  exact .stays (invariant.changeState (invariant.connection member) moves nofun
      ⟨fun _ => by rw [member]; exact Option.some_ne_none r, fun _ => rfl⟩)
    (settled.of_rooms (by rw [(ChangesState.of_run moves).same, told]))

/-- A packet that a room handles for one of its members. -/
theorem processUserRequest_member (inv : Invariant place s) (settled : Settled s) {r : RoomRef}
    (member : place p = some r) {packet : Packet} {random : Nat} {accepted : Bool}
    (run : SFRoomFSM.processUserRequest s r p packet random = some (s', accepted)) :
    Reaches place p (packet = .leaveRoom) s' := by
  obtain ⟨inside, used, -⟩ := inv.member_room member
  have connection := inv.connection member
  have same (finish : some (s, accepted) = some (s', accepted)) :
      Reaches place p (packet = .leaveRoom) s' := by
    cases finish
    exact .stays inv settled
  unfold SFRoomFSM.processUserRequest at run
  cases state : (s.rooms r).state with
  | none => exact absurd state used
  | wait =>
      simp only [state] at run
      split at run
      · cases run
        exact changeTeam_reaches inv settled member
      · obtain ⟨m, starts, finish⟩ := Option.map_eq_some_iff.mp run
        cases finish
        exact loadingStart_reaches inv settled member starts
      · cases run
        exact Reaches.of_sends (.stays inv settled) (onChat_sends s r p _)
      · obtain ⟨m, enters, finish⟩ := Option.map_eq_some_iff.mp run
        cases finish
        exact (waitEnter_reaches inv settled inside used (.inr member) connection enters).mono nofun
      · obtain ⟨m, leaves, finish⟩ := Option.map_eq_some_iff.mp run
        cases finish
        exact ((waitLeave_left inv settled member state leaves).reaches member).mono fun _ => rfl
      · cases run
        exact .stays inv settled
  | loading =>
      simp only [state] at run
      split at run
      · obtain ⟨m, completes, finish⟩ := Option.map_eq_some_iff.mp run
        cases finish
        exact loadingComplete_reaches inv settled member state completes
      · cases run
        exact .stays inv settled
  | playReady | playEnd =>
      simp only [state] at run
      cases run
      exact .stays inv settled
  | play =>
      simp only [state] at run
      split at run
      · obtain ⟨m, completes, finish⟩ := Option.map_eq_some_iff.mp run
        cases finish
        exact playLoadingComplete_reaches inv settled member completes
      · obtain ⟨m, enters, finish⟩ := Option.map_eq_some_iff.mp run
        cases finish
        exact (playEnter_reaches inv settled inside used (.inr member) connection enters).mono nofun
      · obtain ⟨m, leaves, finish⟩ := Option.map_eq_some_iff.mp run
        cases finish
        exact ((loadingLeave_left inv settled member leaves).reaches member).mono fun _ => rfl
      · obtain ⟨-, -, finish⟩ := Option.map_eq_some_iff.mp run
        cases finish
        exact .stays inv settled

/-- The packet by which a player of the lobby enters a room. -/
theorem processUserRequest_enter (inv : Invariant place s) (settled : Settled s) {r : RoomRef}
    (inside : r < maxRoomCount) (used : (s.rooms r).state ≠ .none) (outside : place p = none)
    (connection : s.playerMap[(s.players p).serial]? = some p) {gameMode roomIndex : Int}
    {random : Nat} {accepted : Bool} (run : SFRoomFSM.processUserRequest s r p
      (.enterRoom gameMode roomIndex) random = some (s', accepted)) : Reaches place p False s' := by
  unfold SFRoomFSM.processUserRequest at run
  cases state : (s.rooms r).state with
  | none => exact absurd state used
  | wait =>
      simp only [state] at run
      obtain ⟨m, enters, finish⟩ := Option.map_eq_some_iff.mp run
      cases finish
      exact waitEnter_reaches inv settled inside used (.inl outside) connection enters
  | play =>
      simp only [state] at run
      obtain ⟨m, enters, finish⟩ := Option.map_eq_some_iff.mp run
      cases finish
      exact playEnter_reaches inv settled inside used (.inl outside) connection enters
  | loading | playReady | playEnd =>
      simp only [state] at run
      cases run
      exact .stays inv settled

end Cgsf.Proof.Casual
