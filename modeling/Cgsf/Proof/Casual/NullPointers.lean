import Cgsf.Proof.Casual.GameSteps

/-!
# Where the server follows no null pointer

A function that has a result has met no null pointer. Rooms in use have a chief, members find their
room, and a room in play has its game mode.
-/

namespace Cgsf.Proof.Casual
open Cgsf.Casual Cgsf.Casual.SFLogicEntry Library Std

variable {place : PlayerRef → Option RoomRef} {p : PlayerRef} {r : RoomRef} {s s' : SFLogicEntry}

theorem isSome_bind {α β : Type} {x : Option α} {f : α → Option β} (first : x.isSome)
    (rest : ∀ a, x = some a → (f a).isSome) : (x.bind f).isSome := by
  obtain ⟨a, is⟩ := Option.isSome_iff_exists.mp first
  rw [is]
  exact rest a is

theorem isSome_map {α β : Type} {x : Option α} {f : α → β} (first : x.isSome) :
    (x.map f).isSome := by
  rw [Option.isSome_map]
  exact first

/-! ## Players -/

/-- Every room in use has a chief. -/
def Chiefs (s : SFLogicEntry) : Prop :=
  ∀ (k : Nat) r, s.activeRooms[k]? = some r → (s.rooms r).roomChief ≠ none

theorem Rooming.chiefs (rooming : Rooming place s) : Chiefs s := by
  intro k r found
  obtain ⟨⟨inside, used⟩, -⟩ := (rooming.held.active k r).mp found
  have ok := rooming.held.rooms r inside
  obtain ⟨chief, is, -⟩ := ok.chief fun nobody => used (ok.used.mpr nobody)
  rw [is]
  exact Option.some_ne_none chief

theorem sendRoomPage_some (chiefs : Chiefs s) (p : PlayerRef) :
    (SFRoomManager.sendRoomPage s p).isSome := by
  rw [SFRoomManager.sendRoomPage]
  split
  · refine isSome_map ?_
    have all : ∀ entries : List (Nat × RoomRef),
        (∀ entry ∈ entries, (s.rooms entry.2).roomChief ≠ none) →
          (entries.mapM fun entry => SFRoomManager.roomInfo s entry.2).isSome := by
      intro entries
      induction entries with
      | nil => exact fun _ => rfl
      | cons entry entries ih =>
          intro chief
          rw [List.mapM_cons]
          refine isSome_bind ?_ fun info _ => isSome_bind ?_ fun _ _ => rfl
          · obtain ⟨c, is⟩ := Option.ne_none_iff_exists'.mp (chief entry List.mem_cons_self)
            rw [SFRoomManager.roomInfo, is]
            rfl
          · exact ih fun other member => chief other (List.mem_cons_of_mem entry member)
    refine all _ fun entry member => chiefs entry.1 entry.2 ?_
    exact (TreeMap.mem_toList_iff_getElem?_eq_some).mp member
  · rfl

/-- The room that the player's index leads to lets it play. -/
def Playable (s : SFLogicEntry) (p : PlayerRef) : Prop :=
  ∃ r, SFRoomManager.getRoom s (s.players p).roomIndex = some r ∧
    ((s.rooms r).state = .play → (s.rooms r).currentGameMode ≠ none)

theorem Playable.carry {m : SFLogicEntry} (playable : Playable s p) (rooms : m.rooms = s.rooms)
    (index : (m.players p).roomIndex = (s.players p).roomIndex) : Playable m p := by
  rw [Playable, SFRoomManager.getRoom, rooms, index]
  exact playable

theorem onEnter_some (lobby : (s.players p).state = .lobby → Chiefs s)
    (play : (s.players p).state = .play → Playable s p) : (SFPlayerFSM.onEnter s p).isSome := by
  rw [SFPlayerFSM.onEnter]
  split
  · rename_i state
    refine sendRoomPage_some (show Chiefs _ from ?_) p
    exact lobby state
  · rfl
  · rename_i state
    obtain ⟨r, found, mode⟩ := play state
    refine isSome_bind (Option.isSome_iff_exists.mpr ⟨r, found⟩) fun k is => isSome_map ?_
    obtain rfl : k = r := Option.some.inj (is.symm.trans found)
    rw [SFRoomPlay.processUserRequest]
    split
    · rename_i plays
      exact isSome_map (Option.isSome_iff_ne_none.mpr (mode plays))
    · rfl
  · rfl

theorem changeState_some {state : PlayerState} (lobby : state = .lobby → Chiefs s)
    (play : state = .play → Playable s p) : (SFPlayerFSM.changeState s p state).isSome := by
  rw [SFPlayerFSM.changeState]
  split
  · rfl
  · obtain ⟨sent, left⟩ := onLeave_spec s p
    have goes : (((SFPlayerFSM.onLeave s p).modifyPlayer p fun q => { q with state }).players p) =
        { s.players p with state } := by
      rw [left]
      exact Function.update_self ..
    refine onEnter_some (fun here => ?_) fun here => ?_
    · rw [goes] at here
      rw [Chiefs, left]
      exact lobby here
    · rw [goes] at here
      refine (play here).carry ?_ (by rw [goes])
      rw [left]
      rfl

theorem changeState_quiet {state : PlayerState} (lobby : state ≠ .lobby) (play : state ≠ .play)
    (s : SFLogicEntry) (p : PlayerRef) : (SFPlayerFSM.changeState s p state).isSome :=
  changeState_some (fun here => absurd here lobby) fun here => absurd here play

theorem enterLobby_some (chiefs : Chiefs s) (p : PlayerRef) :
    (SFPlayerFSM.changeState s p .lobby).isSome :=
  changeState_some (fun _ => chiefs) fun here => absurd here (by decide)

theorem enterPlay_some (playable : Playable s p) : (SFPlayerFSM.changeState s p .play).isSome :=
  changeState_some (fun here => absurd here (by decide)) fun _ => playable

theorem playable_of_run {state : PlayerState} {q : PlayerRef}
    (run : SFPlayerFSM.changeState s q state = some s') (playable : Playable s p) :
    Playable s' p := by
  have changes := ChangesState.of_run run
  exact playable.carry (by rw [changes.same]) (by rw [changes.kept p])

theorem changeStates_some {state : PlayerState} (notLobby : state ≠ .lobby) (who : List PlayerRef)
    (s : SFLogicEntry) (play : state = .play → ∀ q ∈ who, Playable s q) :
    (who.foldlM (fun s p => SFPlayerFSM.changeState s p state) s).isSome := by
  induction who generalizing s with
  | nil => rfl
  | cons q who ih =>
      rw [List.foldlM_cons]
      refine isSome_bind (changeState_some (fun lobby => absurd lobby notLobby)
        fun plays => play plays q List.mem_cons_self) fun m run => ih m fun plays k member => ?_
      exact playable_of_run run (play plays k (List.mem_cons_of_mem q member))

theorem changePlayerFSM_some {state : PlayerState} (notLobby : state ≠ .lobby)
    (play : state = .play → ∀ q ∈ SFRoom.members s r .red ++ SFRoom.members s r .blue,
      Playable s q) : (SFRoom.changePlayerFSM s r state).isSome := by
  have both := changeStates_some notLobby _ s play
  simp only [SFRoom.changePlayerFSM, List.foldlM_cons, List.foldlM_nil]
  rw [List.foldlM_append] at both
  obtain ⟨last, whole⟩ := Option.isSome_iff_exists.mp both
  obtain ⟨m, first, second⟩ := Option.bind_eq_some_iff.mp whole
  have same : SFRoom.members m r .blue = SFRoom.members s r .blue := by
    rw [SFRoom.members, (changeStates_goes _ s m first).rooms]
    rfl
  rw [first]
  simp only [Option.bind_eq_bind, Option.bind_some, same]
  rw [second]
  rfl

theorem changePlayerFSM_quiet {state : PlayerState} (lobby : state ≠ .lobby)
    (play : state ≠ .play) (s : SFLogicEntry) (r : RoomRef) :
    (SFRoom.changePlayerFSM s r state).isSome :=
  changePlayerFSM_some lobby fun here => absurd here play

/-! ## Messages to a room -/

theorem onMessage_some {notice : Notice} (peers : notice ≠ .peerList) (s : SFLogicEntry)
    (p : PlayerRef) : (SFPlayer.onMessage s p notice).isSome := by
  cases notice with
  | enterTeamMember | leaveTeamMember | destroyPlayer | deletePeer => rfl
  | peerList => exact absurd rfl peers

theorem propagateMessage_some {notice : Notice} (peers : notice ≠ .peerList) (s : SFLogicEntry)
    (r : RoomRef) : (SFRoom.propagateMessage s r notice).isSome := by
  rw [SFRoom.propagateMessage]
  generalize (s.rooms r).observers = observers
  induction observers generalizing s with
  | nil => rfl
  | cons p observers ih =>
      rw [List.foldlM_cons]
      exact isSome_bind (onMessage_some peers s p) fun m _ => ih m

theorem propagatePeers_some (s : SFLogicEntry) (r : RoomRef)
    (finds : ∀ p ∈ (s.rooms r).observers,
      (SFRoomManager.getRoom s (s.players p).roomIndex).isSome) :
    (SFRoom.propagateMessage s r .peerList).isSome := by
  rw [SFRoom.propagateMessage]
  generalize (s.rooms r).observers = observers at finds
  induction observers generalizing s with
  | nil => rfl
  | cons p observers ih =>
      rw [List.foldlM_cons]
      refine isSome_bind (isSome_map (finds p List.mem_cons_self)) fun m told => ih m ?_
      have sends := onMessage_sends told
      rw [sends]
      exact fun q member => finds q (List.mem_cons_of_mem p member)

/-! ## Rooms -/

theorem getRoom_self (inside : r < maxRoomCount) (used : (s.rooms r).state ≠ .none) :
    SFRoomManager.getRoom s (r : Int) = some r := by
  have below : (r : Int) < (maxRoomCount : Int) := Int.ofNat_lt.mpr inside
  have range : ¬((r : Int) < 0 ∨ (r : Int) ≥ (maxRoomCount : Int)) := by omega
  rw [SFRoomManager.getRoom, if_neg range, Int.toNat_natCast, if_neg used]

theorem Invariant.getRoom_some (inv : Invariant place s) (member : place p = some r) :
    SFRoomManager.getRoom s (s.players p).roomIndex = some r := by
  obtain ⟨inside, used, -⟩ := inv.member_room member
  rw [inv.roomIndex p r member]
  exact getRoom_self inside used

theorem Invariant.playable (inv : Invariant place s) (member : place p = some r)
    (mode : (s.rooms r).state = .play → (s.rooms r).currentGameMode ≠ none) : Playable s p :=
  ⟨r, inv.getRoom_some member, mode⟩

/-- The states before the game. -/
theorem roomChangeState_some {state : RoomState} (idle : (s.rooms r).state ≠ .play)
    (before : state ≠ .play) : (SFRoomFSM.changeState s r state).isSome := by
  rw [SFRoomFSM.changeState]
  split
  · rfl
  · refine isSome_bind ?_ fun m left => ?_
    · rw [SFRoomFSM.onLeave]
      split
      · contradiction
      · rfl
    · simp only [SFRoomFSM.onEnter, modifyRoom_state]
      cases state with
      | loading | playReady => exact changePlayerFSM_quiet (by decide) (by decide) _ r
      | play => exact absurd rfl before
      | none | wait | playEnd => rfl

/-- A registered mode is set before anybody asks for it. -/
theorem onEnterPlay_some (inv : Invariant place s) (inside : r < maxRoomCount)
    (plays : (s.rooms r).state = .play) (registered : (s.rooms r).gameMode ∈ s.gameModes) :
    (SFRoomFSM.onEnter s r).isSome := by
  have used : (s.rooms r).state ≠ .none := by
    rw [plays]
    decide
  rw [SFRoomFSM.onEnter]
  simp only [plays]
  have within := setGameMode_within s r
  have chosen := inv.of_within within used used id
  have mode : ((SFRoomFSM.setGameMode s r).rooms r).currentGameMode ≠ none := by
    rw [SFRoomFSM.setGameMode, if_pos registered]
    simp only [SFLogicEntry.modifyRoom, Function.update_self]
    exact Option.some_ne_none _
  refine isSome_bind (changePlayerFSM_some (by decide) fun _ q member => ?_) fun n moved => ?_
  · have listed := (chosen.teams_members inside q).mp member
    exact chosen.playable ((chosen.members_iff inside q).mp listed) fun _ => mode
  · have moves := changePlayerFSM_within rfl (chosen.members_inRoom inside) moved
    have still := within.roomState
    rw [still] at moves
    have entered := chosen.of_within moves (by rw [still]; exact used) used
      (fun wait => absurd (plays.symm.trans wait) (by decide))
    have state : (n.rooms r).state = .play := moves.roomState.trans plays
    split
    · have again := entered.of_within (setGameMode_within n r) (by rw [state]; decide)
        (by rw [state]; decide) id
      refine propagatePeers_some _ r fun q member => ?_
      rw [again.getRoom_some ((again.members_iff inside q).mp member)]
      rfl
    · rfl

theorem play_some (inv : Invariant place s) (inside : r < maxRoomCount)
    (ready : (s.rooms r).state = .playReady) (registered : (s.rooms r).gameMode ∈ s.gameModes) :
    (SFRoomFSM.changeState s r .play).isSome := by
  rw [SFRoomFSM.changeState, if_neg (by rw [ready]; decide), SFRoomFSM.onLeave]
  simp only [ready, Option.bind_some]
  have begun := inv.of_within (.of_room s r .play (s.rooms r).currentGameMode)
    (by rw [ready]; decide) (by decide) fun wait => absurd wait (by decide)
  have room : ((s.modifyRoom r fun room => { room with state := .play }).rooms r) =
      { s.rooms r with state := .play } := Function.update_self ..
  refine onEnterPlay_some begun inside (modifyRoom_state s r .play) ?_
  simp only [SFLogicEntry.modifyRoom, Function.update_self]
  exact registered

/-- The end of the loading of a room whose mode is registered. -/
theorem loadingComplete_some (inv : Invariant place s) (member : place p = some r)
    (loads : (s.rooms r).state = .loading)
    (registered : SFRoom.checkLoadingComplete s r = true → (s.rooms r).gameMode ∈ s.gameModes) :
    (SFRoomLoading.onLoadingComplete s r p).isSome := by
  obtain ⟨inside, used, -⟩ := inv.member_room member
  have added := inv.of_peers member (by rw [loads]; decide) (s.players p).info
  have room : ((s.modifyRoom r fun room => { room with
      peerMap := room.peerMap.insertIfNew (s.players p).serial (s.players p).info }).rooms r) =
        { s.rooms r with
          peerMap := (s.rooms r).peerMap.insertIfNew (s.players p).serial (s.players p).info } :=
    Function.update_self ..
  have same : SFRoom.checkLoadingComplete (s.modifyRoom r fun room => { room with
      peerMap := room.peerMap.insertIfNew (s.players p).serial (s.players p).info }) r =
        SFRoom.checkLoadingComplete s r := by
    simp only [SFRoom.checkLoadingComplete, SFRoom.members, room]
    rfl
  rw [SFRoomLoading.onLoadingComplete]
  split
  · rfl
  · rename_i finished
    rw [same] at finished
    have mode := registered (Bool.eq_true_of_not_eq_false finished)
    refine isSome_bind (roomChangeState_some (by rw [room, loads]; decide) (by decide))
      fun m ready => ?_
    have within := roomChangeState_within (added.members_inRoom inside) ready
    have invariant := added.of_within within (by rw [room, loads]; decide) (by decide)
      fun wait => absurd wait (by decide)
    refine play_some invariant inside within.roomState ?_
    obtain ⟨current, rooms⟩ := within.room
    rw [rooms, Function.update_self, room, within.same]
    exact mode

/-! ## Players that come and go -/

theorem roomEnter_some (s : SFLogicEntry) (r : RoomRef) (p : PlayerRef) :
    (SFRoom.onEnter s r p).isSome := by
  rw [SFRoom.onEnter]
  split
  · rfl
  · split
    · rfl
    · exact isSome_map (propagateMessage_some (by simp) _ r)

theorem waitEnter_some (s : SFLogicEntry) (r : RoomRef) (p : PlayerRef) :
    (SFRoomWait.onEnterRoom s r p).isSome := by
  refine isSome_bind (roomEnter_some s r p) fun (m, entered) _ => ?_
  cases entered with
  | false => rfl
  | true => exact changeState_quiet (by decide) (by decide) _ p

theorem playEnter_some (s : SFLogicEntry) (r : RoomRef) (p : PlayerRef) (random : Nat) :
    (SFRoomPlay.onEnterRoom s r p random).isSome := by
  refine isSome_bind (roomEnter_some s r p) fun (m, entered) _ => ?_
  cases entered with
  | false => rfl
  | true => exact changeState_quiet (by decide) (by decide) _ p

theorem createRoom_some (inv : Invariant place s) (p : PlayerRef) (gameMode : Int) :
    (SFPlayerLobby.onCreateRoom s p gameMode).isSome := by
  rw [SFPlayerLobby.onCreateRoom]
  split
  · rfl
  · refine isSome_bind ?_ fun result _ => ?_
    · rw [SFRoomManager.onCreateRoom]
      split
      · rfl
      · rename_i r m found
        obtain ⟨⟨index, r'⟩, first, taken⟩ := Option.map_eq_some_iff.mp found
        cases taken
        obtain ⟨⟨inside, unused⟩, rfl⟩ := (inv.held.empty index r).mp
          (TreeMap.mem_toList_iff_getElem?_eq_some.mp (List.mem_of_head? first))
        obtain ⟨teamType, opened⟩ := openRoom_spec
          { s with emptyRooms := s.emptyRooms.erase (id r) } r p
          ((inv.held.rooms r inside).used.mp unused)
        rw [opened, changeState_wait (by simp only [Function.update_self]; exact unused)]
        rfl
    · obtain ⟨m, created⟩ := result
      cases created with
      | false => rfl
      | true => exact isSome_map (changeState_quiet (by decide) (by decide) _ p)

/-- The room is in play only with a game mode. -/
def Moded (s : SFLogicEntry) (r : RoomRef) : Prop :=
  (s.rooms r).state = .play → (s.rooms r).currentGameMode ≠ none

theorem recallRoom_some (moded : Moded s r) : (SFRoomManager.recallRoom s r).isSome := by
  refine isSome_map ?_
  rw [SFRoomFSM.changeState]
  split
  · rfl
  · refine isSome_bind ?_ fun m _ => ?_
    · rw [SFRoomFSM.onLeave]
      split
      · rename_i plays
        exact isSome_bind (Option.isSome_iff_ne_none.mpr (moded plays)) fun _ _ =>
          changePlayerFSM_quiet (by decide) (by decide) s r
      · rfl
    · simp only [SFRoomFSM.onEnter, modifyRoom_state]
      rfl

theorem roomLeave_some (moded : Moded s r) (p : PlayerRef) : (SFRoom.onLeave s r p).isSome := by
  rw [SFRoom.onLeave]
  refine isSome_bind (propagateMessage_some (by simp) _ r) fun m told => ?_
  have sends := propagateMessage_sends told
  dsimp only
  split
  · refine isSome_map (recallRoom_some ?_)
    rw [sends, Moded]
    simp only [SFRoom.delTeamMember, SFLogicEntry.modifyRoom, Function.update_self]
    exact moded
  · split
    · split
      · rfl
      · rfl
    · rfl

theorem waitLeave_some (inv : Invariant place s) (member : place p = some r) (moded : Moded s r) :
    (SFRoomWait.onLeaveRoom s r p).isSome := by
  refine isSome_bind (roomLeave_some moded p) fun (m, left) leave => ?_
  obtain ⟨rfl, rooming, -, -⟩ := roomLeave_spec inv member leave
  exact isSome_map (enterLobby_some rooming.chiefs p)

theorem loadingLeave_some (inv : Invariant place s) (member : place p = some r)
    (moded : Moded s r) : (SFRoomLoading.onLeaveRoom s r p).isSome := by
  refine isSome_bind (roomLeave_some moded p) fun (m, left) leave => ?_
  obtain ⟨rfl, rooming, -, -⟩ := roomLeave_spec inv member leave
  refine isSome_bind (propagateMessage_some (by simp) m r) fun a destroyed => ?_
  refine isSome_bind (propagateMessage_some (by simp) a r) fun b deleted => ?_
  have sends := (propagateMessage_sends destroyed).trans (propagateMessage_sends deleted)
  refine isSome_map (enterLobby_some ?_ p)
  exact ((rooming.of_sends sends).modifyPeers r fun peerMap =>
    peerMap.erase (m.players p).serial).chiefs

theorem leaveRoom_some (inv : Invariant place s) (member : place p = some r) (moded : Moded s r) :
    (SFRoomFSM.onLeaveRoom s r p).isSome := by
  rw [SFRoomFSM.onLeaveRoom]
  split
  · exact waitLeave_some inv member moded
  · exact loadingLeave_some inv member moded
  · exact loadingLeave_some inv member moded
  · rfl

theorem playLoadingComplete_some (playable : Playable s p) (r : RoomRef) :
    (SFRoomPlay.onLoadingComplete s r p).isSome := by
  rw [SFRoomPlay.onLoadingComplete]
  generalize fold : List.foldl _ s _ = m
  have told : SendsOnly s m := fold ▸ SendsOnly.foldl _ _ (fun m _ => .sendToClient m _ _) s
  exact enterPlay_some (playable.carry (by rw [told]) (by rw [told]))

/-! ## Events -/

/-- A packet that a room gets from one of its members, as `memberRequest_move` follows it. -/
theorem memberRequest_some (inv : Invariant place s) (phased : (hall s).Phased)
    (member : place p = some r) (moded : Moded s r)
    (grown : (s.players p).state = .room ∨ (s.players p).state = .play) (packet : Packet)
    (random : Nat) : (SFRoomFSM.processUserRequest s r p packet random).isSome := by
  obtain ⟨inside, used, listed⟩ := inv.member_room member
  have fits := phased r inside p listed
  unfold SFRoomFSM.processUserRequest
  cases state : (s.rooms r).state with
  | none | playReady | playEnd => rfl
  | loading =>
      rw [show ((hall s).rooms r).state = .loading from state] at fits
      rcases grown with room | plays
      · exact absurd (room.symm.trans fits) (by decide)
      · exact absurd (plays.symm.trans fits) (by decide)
  | wait =>
      dsimp only
      split
      · rfl
      · refine isSome_map ?_
        rw [SFRoomWait.onLoadingStart]
        split
        · rfl
        · split
          · rfl
          · exact roomChangeState_some (by rw [state]; decide) (by decide)
      · rfl
      · exact isSome_map (waitEnter_some s r p)
      · exact isSome_map (waitLeave_some inv member moded)
      · rfl
  | play =>
      dsimp only
      split
      · exact isSome_map (playLoadingComplete_some (inv.playable member moded) r)
      · exact isSome_map (playEnter_some s r p random)
      · exact isSome_map (loadingLeave_some inv member moded)
      · rw [SFRoomPlay.processUserRequest, if_pos state]
        exact isSome_map (isSome_map (Option.isSome_iff_ne_none.mpr (moded state)))

theorem enterRoom_some (s : SFLogicEntry) (p : PlayerRef) (gameMode roomIndex : Int)
    (random : Nat) : (SFPlayerLobby.onEnterRoom s p gameMode roomIndex random).isSome := by
  rw [SFPlayerLobby.onEnterRoom]
  split
  · rfl
  · split
    · rfl
    · rename_i r found
      refine isSome_map ?_
      unfold SFRoomFSM.processUserRequest
      cases state : (s.rooms r).state with
      | none | loading | playReady | playEnd => rfl
      | wait => exact isSome_map (waitEnter_some s r p)
      | play => exact isSome_map (playEnter_some s r p random)

theorem complete_some (inv : Invariant place s) (moded : ∀ r, r < maxRoomCount → Moded s r)
    {event : Event} (asked : (hall s).completing event = some p)
    (allowed : (hall s).StartsRegistered event) (loading : (s.players p).state = .loading)
    (random : Nat) : (SFPlayerLoading.onLoadingComplete s p random).isSome := by
  obtain ⟨r, member⟩ := inv.member (p := p) (by rw [loading]; rfl)
  obtain ⟨inside, used, listed⟩ := inv.member_room member
  rw [SFPlayerLoading.onLoadingComplete, inv.getRoom_some member]
  have marked := inv.modifyPlayer (inv.connection member)
    (fun q => { q with loadingComplete := true }) fun _ => ⟨rfl, rfl, rfl, rfl⟩
  refine isSome_map ?_
  unfold SFRoomFSM.processUserRequest
  cases state : (s.rooms r).state with
  | none | playReady | playEnd | wait =>
      rw [show ((s.modifyPlayer p fun q => { q with loadingComplete := true }).rooms r).state = _
        from state]
      rfl
  | loading =>
      rw [show ((s.modifyPlayer p fun q => { q with loadingComplete := true }).rooms r).state = _
        from state]
      refine isSome_map (loadingComplete_some marked member state fun finished => ?_)
      refine allowed p asked r inside listed state fun q there other => ?_
      have flag := checkLoadingComplete_iff.mp finished q ((marked.teams_members inside q).mpr there)
      simp only [SFLogicEntry.modifyPlayer, Function.update_of_ne other] at flag
      exact flag
  | play =>
      rw [show ((s.modifyPlayer p fun q => { q with loadingComplete := true }).rooms r).state = _
        from state]
      exact isSome_map (playLoadingComplete_some (marked.playable member (moded r inside)) r)

theorem processPacket_some (inv : Invariant place s) (phased : (hall s).Phased)
    (moded : ∀ r, r < maxRoomCount → Moded s r) {serial : Int}
    (connection : s.playerMap[serial]? = some p) {packet : Packet} {random : Nat}
    (allowed : (hall s).StartsRegistered (.data serial packet random)) :
    (SFPlayerFSM.processPacket s p packet random).isSome := by
  have request (state : PlayerState) (is : (s.players p).state = state)
      (grown : state = .room ∨ state = .play) : ∃ r,
        SFRoomManager.getRoom s (s.players p).roomIndex = some r ∧
          ∀ packet, (SFRoomFSM.processUserRequest s r p packet random).isSome := by
    obtain ⟨r, member⟩ := inv.member (p := p) (by rw [is]; rcases grown with rfl | rfl <;> rfl)
    exact ⟨r, inv.getRoom_some member, fun packet => memberRequest_some inv phased member
      (moded r (inv.member_room member).1) (is ▸ grown) packet random⟩
  unfold SFPlayerFSM.processPacket
  split
  · rfl
  · exact enterLobby_some inv.chiefs p
  · exact enterRoom_some s p _ _ random
  · exact createRoom_some inv p _
  · rfl
  · exact sendRoomPage_some inv.chiefs p
  · rename_i state
    obtain ⟨r, found, answers⟩ := request _ state (.inl rfl)
    rw [found]
    exact isSome_map (answers _)
  · rename_i state
    obtain ⟨r, found, answers⟩ := request _ state (.inl rfl)
    rw [found]
    exact isSome_map (answers _)
  · rename_i state
    obtain ⟨r, found, answers⟩ := request _ state (.inl rfl)
    rw [found]
    exact isSome_map (answers _)
  · rename_i state
    obtain ⟨r, found, answers⟩ := request _ state (.inl rfl)
    rw [found]
    exact isSome_map (answers _)
  · rename_i state
    have asked : (hall s).completing (.data serial .loadingComplete random) = some p := connection
    exact complete_some inv moded asked allowed state random
  · rename_i state
    obtain ⟨r, found, answers⟩ := request _ state (.inr rfl)
    rw [found]
    exact isSome_map (answers _)
  · rfl

theorem dbResult_some (s : SFLogicEntry) (p : PlayerRef) (result : Int) :
    (SFPlayerFSM.processDBResult s p result).isSome := by
  rw [SFPlayerFSM.processDBResult]
  split
  · rw [SFPlayerInit.onDBLogin]
    split
    · split
      · exact isSome_map (changeState_quiet (by decide) (by decide) _ p)
      · rfl
    · rfl
  · rfl

theorem disconnect_some (inv : Invariant place s) (moded : ∀ r, r < maxRoomCount → Moded s r)
    (serial : Int) : (s.onDisconnectPlayer serial).isSome := by
  rw [SFLogicEntry.onDisconnectPlayer]
  split
  · rfl
  · rename_i p connection
    have registered : Invariant place (SFPlayerManager.delPlayer s p) := inv.of_registry _ _
    refine isSome_bind ?_ fun m _ => isSome_map (changeState_quiet (by decide) (by decide) m p)
    split
    · rename_i within
      obtain ⟨r, member⟩ := registered.member within
      rw [registered.getRoom_some member]
      exact leaveRoom_some registered member (moded r (registered.member_room member).1)
    · rfl

/-- No event meets a null pointer, unless it begins a game whose mode is not registered. -/
theorem step_total (inPhase : InPhase s) (valid : (hall s).ModesValid) {event : Event}
    (possible : s.Possible event) (allowed : (hall s).StartsRegistered event) :
    ∃ s', s.Steps event s' := by
  obtain ⟨⟨place, inv, settled⟩, phased⟩ := inPhase
  have moded (r : RoomRef) (inside : r < maxRoomCount) : Moded s r := fun plays missing =>
    Option.some_ne_none _ ((valid r inside plays).1.symm.trans missing)
  refine Option.isSome_iff_exists.mp ?_
  cases event with
  | connect serial =>
      obtain ⟨p, playerPool, nextPlayer, alloc, -⟩ := allocPlayer_spec inv.toPeople
      rw [SFLogicEntry.processPacket, SFLogicEntry.onConnectPlayer, alloc]
      exact isSome_map (changeState_quiet (by decide) (by decide) _ p)
  | data serial packet random =>
      rw [SFLogicEntry.processPacket, SFLogicEntry.onPlayerData]
      split
      · rfl
      · rename_i p connection
        exact processPacket_some inv phased moded connection allowed
  | timer | shouter => rfl
  | answer request result =>
      rw [SFLogicEntry.processPacket, List.getElem?_eq_getElem possible]
      dsimp only
      rw [SFLogicEntry.onDBResult]
      split
      · rfl
      · exact dbResult_some _ _ result
  | noAnswer request =>
      have waiting : request < s.dbRequests.length := possible
      rw [SFLogicEntry.processPacket, if_pos waiting]
      rfl
  | disconnect serial => exact disconnect_some inv moded serial

end Cgsf.Proof.Casual
