import Cgsf.Proof.Casual.GameViews

/-!
# Every event is a move of the games
-/

namespace Cgsf.Proof.Casual
open Cgsf.Casual Cgsf.Casual.SFLogicEntry Library Std

variable {place : PlayerRef → Option RoomRef} {p : PlayerRef} {r : RoomRef} {s s' : SFLogicEntry}

/-! ## The end of loading -/

theorem checkLoadingComplete_iff : SFRoom.checkLoadingComplete s r = true ↔
    ∀ q ∈ SFRoom.members s r .red ++ SFRoom.members s r .blue,
      (s.players q).loadingComplete = true := by
  simp only [SFRoom.checkLoadingComplete, List.all_cons, List.all_nil, Bool.and_true,
    Bool.and_eq_true, List.all_eq_true, List.mem_append, or_imp, forall_and]

/-- `p` has loaded and is a peer of the room; its state has not changed yet. -/
def loaded (s : SFLogicEntry) (p : PlayerRef) (r : RoomRef) : SFLogicEntry :=
  (s.modifyPlayer p fun q => { q with loadingComplete := true }).modifyRoom r fun room =>
    { room with peerMap := room.peerMap.insertIfNew (s.players p).serial (s.players p).info }

theorem loaded_view (s : SFLogicEntry) (p : PlayerRef) (r : RoomRef) (q : PlayerRef) :
    ((loaded s p r).players q).view =
      if q = p then { (s.players p).view with loadingComplete := true } else (s.players q).view := by
  by_cases me : q = p
  · subst me
    simp only [loaded, SFLogicEntry.modifyRoom, SFLogicEntry.modifyPlayer, Function.update_self,
      if_pos]
    rfl
  · simp only [loaded, SFLogicEntry.modifyRoom, SFLogicEntry.modifyPlayer,
      Function.update_of_ne me, if_neg me]

theorem loaded_members (s : SFLogicEntry) (p : PlayerRef) (r : RoomRef) (t : TeamType) :
    SFRoom.members (loaded s p r) r t = SFRoom.members s r t := by
  simp only [SFRoom.members, loaded, SFLogicEntry.modifyRoom, Function.update_self]
  rfl

theorem loaded_room (s : SFLogicEntry) (p : PlayerRef) (r : RoomRef) :
    ((loaded s p r).rooms r).view = (hall s).withPeer r p := by
  simp only [loaded, SFLogicEntry.modifyRoom, Function.update_self, SFRoom.view, Hall.withPeer,
    RoomView.mk.injEq]
  refine ⟨rfl, rfl, rfl, rfl, ?_⟩
  funext k
  rw [TreeMap.mem_insertIfNew, LawfulEqOrd.compare_eq_iff_eq, eq_comm (b := k)]
  rfl

theorem loadingComplete_move {event : Event} (inv : Invariant place s) (phased : (hall s).Phased)
    (asked : (hall s).completing event = some p) (member : place p = some r)
    (loads : (s.rooms r).state = .loading)
    (run : SFRoomLoading.onLoadingComplete
      (s.modifyPlayer p fun q => { q with loadingComplete := true }) r p = some s') :
    Move event (hall s) (hall s') := by
  obtain ⟨inside, -, listed⟩ := inv.member_room member
  have everybody (q : PlayerRef) : q ∈ SFRoom.members (loaded s p r) r .red ++
      SFRoom.members (loaded s p r) r .blue ↔ q ∈ (s.rooms r).observers := by
    rw [loaded_members, loaded_members]
    exact inv.teams_members inside q
  have rooms : (loaded s p r).rooms = Function.update s.rooms r ((loaded s p r).rooms r) := by
    simp only [loaded, SFLogicEntry.modifyRoom, Function.update_self]
    rfl
  have info : ((s.modifyPlayer p fun q => { q with loadingComplete := true }).players p) =
      { s.players p with loadingComplete := true } := Function.update_self ..
  rw [SFRoomLoading.onLoadingComplete, info] at run
  change (if SFRoom.checkLoadingComplete (loaded s p r) r = false then some (loaded s p r)
    else (SFRoomFSM.changeState (loaded s p r) r .playReady).bind fun s =>
      SFRoomFSM.changeState s r .play) = some s' at run
  split at run
  · rename_i unfinished
    obtain rfl := Option.some.inj run
    refine .completes p r inside asked listed loads ?_ ⟨rfl, fun q _ other => ?_⟩ ?_ ?_
    · have sets := hall_sets rooms
      rw [loaded_room] at sets
      exact sets
    · exact (loaded_view s p r q).trans (if_neg other)
    · exact (loaded_view s p r p).trans (if_pos rfl)
    · by_contra none
      refine absurd (checkLoadingComplete_iff.mpr fun q there => ?_) (by rw [unfinished]; decide)
      refine Bool.eq_true_of_not_eq_false fun loading => none ?_
      exact ⟨q, (everybody q).mp there, loading⟩
  · rename_i finished
    have all := checkLoadingComplete_iff.mp (Bool.eq_true_of_not_eq_false finished)
    obtain ⟨m, ready, plays⟩ := Option.bind_eq_some_iff.mp run
    have first := playReady_shifts
      ((congrArg RoomView.state (loaded_room s p r)).trans loads) ready
    have here : m.rooms r = { (loaded s p r).rooms r with state := .playReady } := by
      rw [first.rooms, Function.update_self]
    have second := play_shifts (by rw [here]) plays
    have same (t : TeamType) : SFRoom.members m r t = SFRoom.members (loaded s p r) r t := by
      rw [SFRoom.members, here]
      rfl
    have modes : m.gameModes = s.gameModes := first.modes
    have begun : s'.rooms = Function.update s.rooms r (playing s.gameModes
        { (loaded s p r).rooms r with state := .playReady }) := by
      rw [second.rooms, here, first.rooms, modes, Function.update_idem, rooms,
        Function.update_idem, ← rooms]
    have view : (playing s.gameModes { (loaded s p r).rooms r with state := .playReady }).view =
        { (hall s).withPeer r p with
          state := .play
          currentGameMode := if ((hall s).rooms r).gameMode ∈ (hall s).gameModes then
            some ((hall s).rooms r).gameMode else ((hall s).rooms r).currentGameMode } := by
      rw [← loaded_room]
      simp only [loaded, SFLogicEntry.modifyRoom, Function.update_self]
      rfl
    have views (q : PlayerRef) : (s'.players q).view =
        if q ∈ (s.rooms r).observers then goTo .play (goTo .playReady ((loaded s p r).players q).view)
        else ((loaded s p r).players q).view := by
      rw [second.views q, same, same, first.views q]
      by_cases there : q ∈ (s.rooms r).observers
      · rw [if_pos there, if_pos ((everybody q).mpr there), if_pos ((everybody q).mpr there)]
      · rw [if_neg there, if_neg fun listed => there ((everybody q).mp listed),
          if_neg fun listed => there ((everybody q).mp listed)]
    have before (q : PlayerRef) (there : q ∈ (s.rooms r).observers) :
        ((loaded s p r).players q).view =
          { (s.players q).view with state := .loading, loadingComplete := true } := by
      have state : (s.players q).view.state = .loading := by
        have fits := phased r inside q there
        rw [show ((hall s).rooms r).state = .loading from loads] at fits
        exact fits
      have flag : ((loaded s p r).players q).view.loadingComplete = true :=
        all q ((everybody q).mpr there)
      rw [← state]
      rw [loaded_view] at flag ⊢
      by_cases me : q = p
      · rw [if_pos me, me]
      · rw [if_neg me] at flag ⊢
        rw [← flag]
    refine .begins p r inside asked listed loads (fun q there other => ?_) ?_
      ⟨second.modes.trans modes, fun q _ elsewhere => ?_⟩ fun q there => ?_
    · have flag := all q ((everybody q).mpr there)
      change ((loaded s p r).players q).view.loadingComplete = true at flag
      rw [loaded_view, if_neg other] at flag
      exact flag
    · have sets := hall_sets begun
      rw [view] at sets
      exact sets
    · refine (views q).trans ((if_neg elsewhere).trans ((loaded_view s p r q).trans (if_neg ?_)))
      rintro rfl
      exact elsewhere listed
    · refine (views q).trans ((if_pos there).trans ?_)
      rw [before q there]
      rfl

theorem playLoadingComplete_move {event : Event} (inv : Invariant place s)
    (asked : (hall s).completing event = some p) (member : place p = some r)
    (plays : (s.rooms r).state = .play) (loading : (s.players p).state = .loading)
    (run : SFRoomPlay.onLoadingComplete
      (s.modifyPlayer p fun q => { q with loadingComplete := true }) r p = some s') :
    Move event (hall s) (hall s') := by
  obtain ⟨inside, -, listed⟩ := inv.member_room member
  obtain ⟨m, told, moves⟩ : ∃ m, SendsOnly (s.modifyPlayer p fun q =>
      { q with loadingComplete := true }) m ∧ SFPlayerFSM.changeState m p .play = some s' :=
    ⟨_, SendsOnly.foldl _ _ (fun m _ => .sendToClient m _ _) _, run⟩
  have goes := changeState_goes moves
  have before (q : PlayerRef) : (m.players q).view =
      if q = p then { (s.players p).view with loadingComplete := true }
      else (s.players q).view := by
    rw [told]
    by_cases me : q = p
    · subst me
      simp only [SFLogicEntry.modifyPlayer, Function.update_self, if_pos]
      rfl
    · simp only [SFLogicEntry.modifyPlayer, Function.update_of_ne me, if_neg me]
  refine .joins p r inside asked listed plays loading (hall_rooms ?_) ⟨?_, fun q _ other => ?_⟩ ?_
  · rw [goes.rooms, told]
    rfl
  · change s'.gameModes = s.gameModes
    rw [goes.same, told]
    rfl
  · have view := goes.views q
    rw [if_neg (fun me => other (List.mem_singleton.mp me)), before, if_neg other] at view
    exact view
  · have view := goes.views p
    rw [if_pos (List.mem_singleton_self p), before, if_pos rfl] at view
    exact view.trans (if_neg (show (s.players p).state ≠ .play by rw [loading]; decide))

/-! ## Members that leave -/

/-- `p` has left the room; its own state is open. -/
structure Withdraws (p : PlayerRef) (r : RoomRef) (s s' : SFLogicEntry) : Prop where
  room : (hall s).Sets (hall s') r { (s.rooms r).view with
    members := (s.rooms r).observers.erase p
    state := if (s.rooms r).observers.erase p = [] then .none else (s.rooms r).state
    listed := fun k => k ≠ (s.players p).serial ∧ k ∈ (s.rooms r).peerMap }
  modes : s'.gameModes = s.gameModes
  players : ∀ q, q ≠ p → (s'.players q).view = (s.players q).view

theorem Withdraws.later {m : SFLogicEntry} (withdraws : Withdraws p r s m)
    (rooms : s'.rooms = m.rooms) (modes : s'.gameModes = m.gameModes)
    (players : ∀ q, q ≠ p → (s'.players q).view = (m.players q).view) : Withdraws p r s s' where
  room := (hall_rooms rooms).trans withdraws.room
  modes := modes.trans withdraws.modes
  players := fun q other => (players q other).trans (withdraws.players q other)

theorem Withdraws.changeState {m : SFLogicEntry} (withdraws : Withdraws p r s m)
    {state : PlayerState} (run : SFPlayerFSM.changeState m p state = some s') :
    Withdraws p r s s' := by
  have goes := changeState_goes run
  refine withdraws.later goes.rooms (by rw [goes.same]) fun q other => ?_
  rw [goes.views q, if_neg fun me => other (List.mem_singleton.mp me)]

theorem Withdraws.of_sends {m : SFLogicEntry} (withdraws : Withdraws p r s m)
    (sends : SendsOnly m s') : Withdraws p r s s' :=
  withdraws.later (by rw [sends]) (by rw [sends]) fun q _ => by rw [sends]

theorem Withdraws.move {event : Event} (inv : Invariant place s) (member : place p = some r)
    (lost : (s.rooms r).state = .loading → (hall s).disconnecting event = some p)
    (withdraws : Withdraws p r s s') : Move event (hall s) (hall s') := by
  obtain ⟨inside, -, listed⟩ := inv.member_room member
  exact .leaves p r inside listed lost withdraws.room
    ⟨withdraws.modes, fun q _ other => withdraws.players q other⟩

/-- A room without members is only put back. -/
theorem recallRoom_empty (nobody : ∀ t, SFRoom.members s r t = [])
    (used : (s.rooms r).state ≠ .none) (run : SFRoomManager.recallRoom s r = some s') :
    s'.rooms = Function.update s.rooms r { s.rooms r with state := .none } ∧
      s'.gameModes = s.gameModes ∧ s'.players = s.players := by
  have stay (state : PlayerState) : SFRoom.changePlayerFSM s r state = some s := by
    simp [SFRoom.changePlayerFSM, nobody]
  obtain ⟨m, changed, rfl⟩ := Option.map_eq_some_iff.mp run
  rw [SFRoomFSM.changeState, if_neg used] at changed
  obtain ⟨left, leaves, enters⟩ := Option.bind_eq_some_iff.mp changed
  have same : left = s := by
    rw [SFRoomFSM.onLeave] at leaves
    split at leaves
    · obtain ⟨mode, -, moved⟩ := Option.bind_eq_some_iff.mp leaves
      rw [stay] at moved
      exact (Option.some.inj moved).symm
    · exact (Option.some.inj leaves).symm
  subst same
  simp only [SFRoomFSM.onEnter, modifyRoom_state] at enters
  obtain rfl := Option.some.inj enters
  exact ⟨rfl, rfl, rfl⟩

theorem roomLeave_exact (inv : Invariant place s) (member : place p = some r) {left : Bool}
    (run : SFRoom.onLeave s r p = some (s', left)) :
    left = true ∧ s'.gameModes = s.gameModes ∧ s'.players = s.players ∧ ∃ roomChief,
      s'.rooms = Function.update s.rooms r
        { withdrawn (s.rooms r) p (s.players p).serial (s.players p).teamType with
          roomChief
          state := if (s.rooms r).observers.erase p = [] then .none else (s.rooms r).state } := by
  obtain ⟨inside, used, -⟩ := inv.member_room member
  have done := (roomLeave_spec inv member run).1
  obtain ⟨sent, room, is, ⟨nobody, -, recalls⟩ | ⟨-, -, not⟩ | ⟨somebody, -, roomChief, rfl, -⟩⟩ :=
    roomLeave_cases run
  · have holds := (inv.held.rooms r inside).withdraw member
    have empty (t : TeamType) : SFRoom.members
        { s with rooms := Function.update s.rooms r room, sent } r t = [] := by
      simp only [SFRoom.members, Function.update_self]
      subst is
      refine holds.members_nil (fun q there => ?_) t
      exact List.ne_nil_of_mem ((holds.all.mem q).mpr there) nobody
    have still : room.state = (s.rooms r).state := by rw [is]; rfl
    obtain ⟨rooms, modes, players⟩ := recallRoom_empty empty
      (by simp only [Function.update_self, still]; exact used) recalls
    refine ⟨done, modes, players, room.roomChief, ?_⟩
    have erased : (s.rooms r).observers.erase p = [] := by
      rw [is] at nobody
      exact nobody
    rw [rooms, if_pos erased]
    simp only [Function.update_self, Function.update_idem, is]
  · exact absurd (done.symm.trans not) (by decide)
  · refine ⟨done, rfl, rfl, roomChief, ?_⟩
    have left_some : (s.rooms r).observers.erase p ≠ [] := by
      rw [is] at somebody
      exact somebody
    rw [if_neg left_some, is]
    rfl

theorem roomLeave_withdrawn (inv : Invariant place s) (member : place p = some r) {left : Bool}
    (run : SFRoom.onLeave s r p = some (s', left)) :
    left = true ∧ s'.gameModes = s.gameModes ∧ s'.players = s.players ∧
      (hall s).Sets (hall s') r { (s.rooms r).view with
        members := (s.rooms r).observers.erase p
        state := if (s.rooms r).observers.erase p = [] then .none else (s.rooms r).state } := by
  obtain ⟨done, modes, players, roomChief, rooms⟩ := roomLeave_exact inv member run
  exact ⟨done, modes, players, hall_sets rooms⟩

theorem waitLeave_withdraws (inv : Invariant place s) (member : place p = some r)
    (waits : (s.rooms r).state = .wait) (run : SFRoomWait.onLeaveRoom s r p = some s') :
    Withdraws p r s s' := by
  obtain ⟨⟨m, left⟩, leave, finish⟩ := Option.bind_eq_some_iff.mp run
  obtain ⟨rfl, modes, players, room⟩ := roomLeave_withdrawn inv member leave
  obtain ⟨lobbied, moves, rfl⟩ := Option.map_eq_some_iff.mp finish
  have nobody (k : Int) : k ∉ (s.rooms r).peerMap :=
    inv.waiting r (inv.member_room member).1 waits k
  have unlisted : (fun k => k ≠ (s.players p).serial ∧ k ∈ (s.rooms r).peerMap) =
      (s.rooms r).view.listed := by
    funext k
    exact propext (iff_of_false (fun both => nobody k both.2) (nobody k))
  have withdraws : Withdraws p r s m := ⟨by rw [unlisted]; exact room, modes, fun q _ => by
    rw [players]⟩
  exact (withdraws.changeState moves).of_sends (.sendToClient lobbied p _)

theorem loadingLeave_withdraws (inv : Invariant place s) (member : place p = some r)
    (run : SFRoomLoading.onLeaveRoom s r p = some s') : Withdraws p r s s' := by
  obtain ⟨⟨m, left⟩, leave, finish⟩ := Option.bind_eq_some_iff.mp run
  obtain ⟨rfl, modes, players, roomChief, rooms⟩ := roomLeave_exact inv member leave
  obtain ⟨a, destroyed, finish⟩ := Option.bind_eq_some_iff.mp finish
  obtain ⟨b, deleted, finish⟩ := Option.bind_eq_some_iff.mp finish
  obtain ⟨lobbied, moves, rfl⟩ := Option.map_eq_some_iff.mp finish
  have sends := (propagateMessage_sends destroyed).trans (propagateMessage_sends deleted)
  refine Withdraws.of_sends (Withdraws.changeState ⟨?_, ?_, fun q _ => ?_⟩ moves)
    (.sendToClient lobbied p _)
  · have erased : (b.modifyRoom r fun room =>
        { room with peerMap := room.peerMap.erase (m.players p).serial }).rooms =
          Function.update s.rooms r
            { withdrawn (s.rooms r) p (s.players p).serial (s.players p).teamType with
              roomChief
              state := if (s.rooms r).observers.erase p = [] then .none else (s.rooms r).state
              peerMap := (s.rooms r).peerMap.erase (s.players p).serial } := by
      rw [sends, players]
      simp only [SFLogicEntry.modifyRoom, rooms, Function.update_self, Function.update_idem]
      rfl
    have unlisted : (fun k => k ≠ (s.players p).serial ∧ k ∈ (s.rooms r).peerMap) =
        fun k => k ∈ (s.rooms r).peerMap.erase (s.players p).serial := by
      funext k
      rw [TreeMap.mem_erase, Ne, Ne, LawfulEqOrd.compare_eq_iff_eq, eq_comm (a := k)]
    rw [unlisted]
    exact hall_sets erased
  · rw [sends]
    exact modes
  · rw [sends]
    change (m.players q).view = _
    rw [players]

theorem leaveRoom_withdraws (inv : Invariant place s) (settled : Settled s)
    (member : place p = some r) (run : SFRoomFSM.onLeaveRoom s r p = some s') :
    Withdraws p r s s' := by
  obtain ⟨inside, used, -⟩ := inv.member_room member
  have never := settled r inside
  rw [SFRoomFSM.onLeaveRoom] at run
  cases state : (s.rooms r).state with
  | none => exact absurd state used
  | wait =>
      rw [state] at run
      exact waitLeave_withdraws inv member state run
  | loading | play =>
      rw [state] at run
      exact loadingLeave_withdraws inv member run
  | playReady => exact absurd state never.1
  | playEnd => exact absurd state never.2

/-! ## Players that come in -/

/-- `p` has been taken in; its own state is open. -/
structure Admits (p : PlayerRef) (r : RoomRef) (s s' : SFLogicEntry) : Prop where
  room : (hall s).Sets (hall s') r { (s.rooms r).view with
    members := (s.rooms r).observers ++ [p] }
  modes : s'.gameModes = s.gameModes
  players : ∀ q, (s'.players q).view = (s.players q).view

theorem roomEnter_admits {entered : Bool} (run : SFRoom.onEnter s r p = some (s', entered)) :
    entered = false ∧ s' = s ∨ entered = true ∧ p ∉ (s.rooms r).observers ∧ Admits p r s s' := by
  rcases onEnter_cases run with refused | ⟨rfl, -, absent, teamType, sent, is⟩
  · exact .inl refused
  · refine .inr ⟨rfl, absent, ?_, by rw [is], fun q => ?_⟩
    · exact hall_sets (show s'.rooms = Function.update s.rooms r
      (joined (s.rooms r) p (s.players p).serial teamType) by rw [is])
    · rw [is]
      by_cases me : q = p
      · subst me
        simp only [Function.update_self]
        rfl
      · simp only [Function.update_of_ne me]

/-- The state of `p` follows. -/
theorem Admits.move {event : Event} {state : PlayerState} {m : SFLogicEntry}
    (inv : Invariant place s) (inside : r < maxRoomCount) (outside : place p = none)
    (admits : Admits p r s m) (run : SFPlayerFSM.changeState m p state = some s')
    (lobby : (s.players p).state = .lobby)
    (fits : (s.rooms r).state = .wait ∧ state = .room ∨
      (s.rooms r).state = .play ∧ state = .loading) : Move event (hall s) (hall s') := by
  have goes := changeState_goes run
  have mine : (s'.players p).view = goTo state (s.players p).view := by
    have view := goes.views p
    rwa [if_pos (List.mem_singleton_self p), admits.players p] at view
  refine .enters p r inside (inv.unseated outside) ?_ ⟨?_, fun q seated _ => ?_⟩ ?_
  · exact (hall_rooms goes.rooms).trans admits.room
  · change s'.gameModes = s.gameModes
    rw [goes.same]
    exact admits.modes
  · have other : q ≠ p := by
      rintro rfl
      exact inv.unseated outside seated
    refine (goes.views q).trans ((if_neg fun me => other (List.mem_singleton.mp me)).trans ?_)
    exact admits.players q
  · change _ ∧ (s'.players p).view.state = _ ∨ _ ∧ (s'.players p).view.state = _ ∧
      (s'.players p).view.loadingComplete = _
    rw [mine]
    have before : (s.players p).view.state = .lobby := lobby
    rcases fits with ⟨waits, rfl⟩ | ⟨plays, rfl⟩
    · refine .inl ⟨waits, ?_⟩
      rw [goTo, before]
      rfl
    · refine .inr ⟨plays, ?_⟩
      rw [goTo, before]
      exact ⟨rfl, rfl⟩

theorem waitEnter_move {event : Event} (inv : Invariant place s) (inside : r < maxRoomCount)
    (outside : place p = none) (lobby : (s.players p).state = .lobby)
    (waits : (s.rooms r).state = .wait) (run : SFRoomWait.onEnterRoom s r p = some s') :
    Move event (hall s) (hall s') := by
  obtain ⟨⟨m, entered⟩, enters, finish⟩ := Option.bind_eq_some_iff.mp run
  rcases roomEnter_admits enters with ⟨rfl, rfl⟩ | ⟨rfl, -, admits⟩
  · obtain rfl := Option.some.inj finish
    exact idle_move inv rfl rfl fun _ _ => rfl
  · exact admits.move inv inside outside finish lobby (.inl ⟨waits, rfl⟩)

theorem playEnter_move {event : Event} (inv : Invariant place s) (inside : r < maxRoomCount)
    (outside : place p = none) (lobby : (s.players p).state = .lobby)
    (plays : (s.rooms r).state = .play) {random : Nat}
    (run : SFRoomPlay.onEnterRoom s r p random = some s') : Move event (hall s) (hall s') := by
  obtain ⟨⟨m, entered⟩, enters, finish⟩ := Option.bind_eq_some_iff.mp run
  rcases roomEnter_admits enters with ⟨rfl, rfl⟩ | ⟨rfl, -, admits⟩
  · obtain rfl := Option.some.inj finish
    exact idle_move inv rfl rfl fun _ _ => rfl
  · have spawned : Admits p r s
        (m.modifyPlayer p fun q => { q with spawnIndex := random % maxRoomMember + 1 }) := by
      refine ⟨admits.room, admits.modes, fun q => Eq.trans ?_ (admits.players q)⟩
      by_cases me : q = p
      · subst me
        simp only [SFLogicEntry.modifyPlayer, Function.update_self]
        rfl
      · simp only [SFLogicEntry.modifyPlayer, Function.update_of_ne me]
    exact spawned.move inv inside outside finish lobby (.inr ⟨plays, rfl⟩)

theorem enterRoom_move {event : Event} (inv : Invariant place s)
    (lobby : (s.players p).state = .lobby) {gameMode roomIndex : Int} {random : Nat}
    (run : SFPlayerLobby.onEnterRoom s p gameMode roomIndex random = some s') :
    Move event (hall s) (hall s') := by
  have outside : place p = none := inv.outside (by rw [lobby]; rfl)
  have idle : Move event (hall s) (hall s) := idle_move inv rfl rfl fun _ _ => rfl
  rw [SFPlayerLobby.onEnterRoom] at run
  split at run
  · obtain rfl := Option.some.inj run
    exact idle
  · split at run
    · obtain rfl := Option.some.inj run
      exact idle
    · rename_i r found
      obtain ⟨-, inside, used⟩ := getRoom_spec found
      obtain ⟨⟨m, accepted⟩, processed, finish⟩ := Option.map_eq_some_iff.mp run
      have entered : Move event (hall s) (hall m) := by
        unfold SFRoomFSM.processUserRequest at processed
        cases state : (s.rooms r).state with
        | wait =>
            simp only [state] at processed
            obtain ⟨m', enters, same⟩ := Option.map_eq_some_iff.mp processed
            cases same
            exact waitEnter_move inv inside outside lobby state enters
        | play =>
            simp only [state] at processed
            obtain ⟨m', enters, same⟩ := Option.map_eq_some_iff.mp processed
            cases same
            exact playEnter_move inv inside outside lobby state enters
        | none | loading | playReady | playEnd =>
            simp only [state] at processed
            cases processed
            exact idle
      cases accepted with
      | false | true =>
          obtain rfl := finish
          exact entered

theorem createRoom_move {event : Event} (inv : Invariant place s)
    (lobby : (s.players p).state = .lobby) {gameMode : Int}
    (run : SFPlayerLobby.onCreateRoom s p gameMode = some s') : Move event (hall s) (hall s') := by
  have outside : place p = none := inv.outside (by rw [lobby]; rfl)
  have idle : Move event (hall s) (hall s) := idle_move inv rfl rfl fun _ _ => rfl
  rw [SFPlayerLobby.onCreateRoom] at run
  split at run
  · obtain rfl := Option.some.inj run
    exact idle
  · obtain ⟨⟨m, created⟩, creates, finish⟩ := Option.bind_eq_some_iff.mp run
    rcases onCreateRoom_cases inv creates with
      ⟨rfl, rfl⟩ | ⟨rfl, r, teamType, inside, unused, is⟩
    · obtain rfl := Option.some.inj finish
      exact idle
    · obtain ⟨entered, moves, rfl⟩ := Option.map_eq_some_iff.mp finish
      have goes := changeState_goes moves
      have nobody : (s.rooms r).observers = [] := (inv.held.rooms r inside).used.mp unused
      have rooms : entered.rooms = Function.update s.rooms r
          { joined (s.rooms r) p (s.players p).serial teamType with
            state := .wait, roomChief := some p, gameMode } := by
        rw [goes.rooms, is]
      refine .opens p r gameMode inside (inv.unseated outside) unused ?_ ⟨?_, fun q seated _ => ?_⟩ ?_
      · have sets := hall_sets rooms
        simp only [SFRoom.view, joined, nobody] at sets
        exact sets
      · change entered.gameModes = s.gameModes
        rw [goes.same, is]
      · have other : q ≠ p := by
          rintro rfl
          exact inv.unseated outside seated
        refine (goes.views q).trans ((if_neg fun me => other (List.mem_singleton.mp me)).trans ?_)
        rw [is]
        exact congrArg SFPlayer.view (Function.update_of_ne other ..)
      · exact (ChangesState.of_run moves).mine

/-! ## All events -/

/-- A packet that a room gets from one of its members. What fits together leaves a member few rooms
to ask. -/
theorem memberRequest_move {event : Event} (inv : Invariant place s) (settled : Settled s)
    (phased : (hall s).Phased) (member : place p = some r)
    (grown : (s.players p).state = .room ∨ (s.players p).state = .play) {packet : Packet}
    {random : Nat} {accepted : Bool} (run : SFRoomFSM.processUserRequest s r p packet random =
      some (s', accepted)) : Move event (hall s) (hall s') := by
  obtain ⟨inside, used, listed⟩ := inv.member_room member
  have fits := phased r inside p listed
  have idle : Move event (hall s) (hall s) := idle_move inv rfl rfl fun _ _ => rfl
  unfold SFRoomFSM.processUserRequest at run
  cases state : (s.rooms r).state with
  | none => exact absurd state used
  | playReady => exact absurd state (settled r inside).1
  | playEnd => exact absurd state (settled r inside).2
  | loading =>
      rw [show ((hall s).rooms r).state = .loading from state] at fits
      rcases grown with room | plays
      · exact absurd (room.symm.trans fits) (by decide)
      · exact absurd (plays.symm.trans fits) (by decide)
  | wait =>
      simp only [state] at run
      split at run
      · cases run
        obtain ⟨teamType, -, changed⟩ := changeTeam_spec s r p
        rw [changed]
        refine .idle ?_ ⟨rfl, fun q _ _ => ?_⟩
        · refine (hall_sets rfl).trans ?_
          exact Function.update_eq_self r (hall s).rooms
        · simp only [hall]
          by_cases me : q = p
          · subst me
            simp only [Function.update_self]
            rfl
          · simp only [Function.update_of_ne me]
      · obtain ⟨m, starts, finish⟩ := Option.map_eq_some_iff.mp run
        cases finish
        exact loadingStart_move inv phased member state starts
      · cases run
        exact sends_move inv (onChat_sends s r p _)
      · obtain ⟨m, enters, finish⟩ := Option.map_eq_some_iff.mp run
        cases finish
        -- A member that asks to enter its room again is refused.
        obtain ⟨⟨m, entered⟩, admits, finish⟩ := Option.bind_eq_some_iff.mp enters
        rcases roomEnter_admits admits with ⟨rfl, rfl⟩ | ⟨-, absent, -⟩
        · obtain rfl := Option.some.inj finish
          exact idle
        · exact absurd listed absent
      · obtain ⟨m, leaves, finish⟩ := Option.map_eq_some_iff.mp run
        cases finish
        exact (waitLeave_withdraws inv member state leaves).move inv member
          fun loading => absurd (state.symm.trans loading) (by decide)
      · cases run
        exact idle
  | play =>
      simp only [state] at run
      split at run
      · obtain ⟨m, completes, finish⟩ := Option.map_eq_some_iff.mp run
        cases finish
        rw [show ((hall s).rooms r).state = .play from state] at fits
        obtain ⟨m, told, moves⟩ :
            ∃ m, SendsOnly s m ∧ SFPlayerFSM.changeState m p .play = some s' :=
          ⟨_, SendsOnly.foldl _ _ (fun m _ => .sendToClient m _ _) s, completes⟩
        have plays : (s.players p).state = .play := by
          rcases grown with room | plays
          · rcases fits with plays | ⟨loads, -⟩
            · exact plays
            · exact absurd (room.symm.trans loads) (by decide)
          · exact plays
        rw [SFPlayerFSM.changeState, if_pos (by rw [told]; exact plays)] at moves
        obtain rfl := Option.some.inj moves
        exact sends_move inv told
      · obtain ⟨m, enters, finish⟩ := Option.map_eq_some_iff.mp run
        cases finish
        obtain ⟨⟨m, entered⟩, admits, finish⟩ := Option.bind_eq_some_iff.mp enters
        rcases roomEnter_admits admits with ⟨rfl, rfl⟩ | ⟨-, absent, -⟩
        · obtain rfl := Option.some.inj finish
          exact idle
        · exact absurd listed absent
      · obtain ⟨m, leaves, finish⟩ := Option.map_eq_some_iff.mp run
        cases finish
        exact (loadingLeave_withdraws inv member leaves).move inv member
          fun loading => absurd (state.symm.trans loading) (by decide)
      · obtain ⟨-, -, finish⟩ := Option.map_eq_some_iff.mp run
        cases finish
        exact idle

theorem complete_move {event : Event} (inv : Invariant place s) (settled : Settled s)
    (phased : (hall s).Phased) (asked : (hall s).completing event = some p)
    (loading : (s.players p).state = .loading) {random : Nat}
    (run : SFPlayerLoading.onLoadingComplete s p random = some s') :
    Move event (hall s) (hall s') := by
  obtain ⟨r, found, run⟩ := Option.bind_eq_some_iff.mp run
  obtain ⟨r', member⟩ := inv.member (p := p) (by rw [loading]; rfl)
  obtain rfl := inv.getRoom_member member found
  obtain ⟨inside, used, listed⟩ := inv.member_room member
  have fits := phased r inside p listed
  dsimp only at run
  obtain ⟨⟨m, accepted⟩, processed, rfl⟩ := Option.map_eq_some_iff.mp run
  have same : ((s.modifyPlayer p fun q => { q with loadingComplete := true }).rooms r).state =
      (s.rooms r).state := rfl
  unfold SFRoomFSM.processUserRequest at processed
  rw [same] at processed
  cases state : (s.rooms r).state with
  | none => exact absurd state used
  | playReady => exact absurd state (settled r inside).1
  | playEnd => exact absurd state (settled r inside).2
  | wait =>
      rw [show ((hall s).rooms r).state = .wait from state] at fits
      exact absurd (loading.symm.trans fits) (by decide)
  | loading =>
      simp only [state] at processed
      obtain ⟨m, completes, finish⟩ := Option.map_eq_some_iff.mp processed
      cases finish
      exact loadingComplete_move inv phased asked member state completes
  | play =>
      simp only [state] at processed
      obtain ⟨m, completes, finish⟩ := Option.map_eq_some_iff.mp processed
      cases finish
      exact playLoadingComplete_move inv asked member state loading completes

theorem outside_move {event : Event} (inv : Invariant place s) (outside : place p = none)
    {state : PlayerState} (run : SFPlayerFSM.changeState s p state = some s') :
    Move event (hall s) (hall s') := by
  have goes := changeState_goes run
  refine idle_move inv goes.rooms (by rw [goes.same]) fun q there => ?_
  rw [goes.views q, if_neg]
  rintro me
  rw [List.mem_singleton.mp me, outside] at there
  exact there rfl

theorem processPacket_move (inv : Invariant place s) (settled : Settled s)
    (phased : (hall s).Phased) {serial : Int} (connection : s.playerMap[serial]? = some p)
    {packet : Packet} {random : Nat}
    (run : SFPlayerFSM.processPacket s p packet random = some s') :
    Move (.data serial packet random) (hall s) (hall s') := by
  have idle : Move (.data serial packet random) (hall s) (hall s) :=
    idle_move inv rfl rfl fun _ _ => rfl
  have edited (f : SFPlayer → SFPlayer) (outside : place p = none) :
      Move (.data serial packet random) (hall s) (hall (s.modifyPlayer p f)) := by
    refine idle_move inv rfl rfl fun q there => ?_
    refine congrArg SFPlayer.view (Function.update_of_ne ?_ ..)
    rintro rfl
    exact there outside
  have outside {state : PlayerState} (is : (s.players p).state = state)
      (out : inRoom state = false) : place p = none := inv.outside (is ▸ out)
  have stays (run : some s = some s') : Move (.data serial packet random) (hall s) (hall s') := by
    obtain rfl := Option.some.inj run
    exact idle
  have request (packet' : Packet) {r : RoomRef} (room : (s.players p).state = .room)
      (found : SFRoomManager.getRoom s (s.players p).roomIndex = some r)
      (run : (SFRoomFSM.processUserRequest s r p packet' random).map (·.1) = some s') :
      Move (.data serial packet random) (hall s) (hall s') := by
    obtain ⟨r', member⟩ := inv.member (p := p) (by rw [room]; rfl)
    obtain rfl := inv.getRoom_member member found
    obtain ⟨⟨m, accepted⟩, processed, rfl⟩ := Option.map_eq_some_iff.mp run
    exact memberRequest_move inv settled phased member (.inl room) processed
  unfold SFPlayerFSM.processPacket at run
  split at run
  · rename_i username password state
    obtain rfl := Option.some.inj run
    exact edited (fun q => { q with username, password }) (outside state rfl)
  · rename_i state
    exact outside_move inv (outside state rfl) run
  · rename_i state
    exact enterRoom_move inv state run
  · rename_i state
    exact createRoom_move inv state run
  · rename_i state
    obtain rfl := Option.some.inj run
    exact edited _ (outside state rfl)
  · exact sends_move inv (sendRoomPage_sends run)
  · rename_i state
    split at run
    · exact stays run
    · rename_i found
      exact request _ state found run
  · rename_i state
    split at run
    · exact stays run
    · rename_i found
      exact request _ state found run
  · rename_i state
    split at run
    · exact stays run
    · rename_i found
      exact request _ state found run
  · rename_i state
    split at run
    · exact stays run
    · rename_i found
      exact request _ state found run
  · rename_i state
    exact complete_move inv settled phased connection state run
  · rename_i state
    obtain ⟨r, found, run⟩ := Option.bind_eq_some_iff.mp run
    obtain ⟨r', member⟩ := inv.member (p := p) (by rw [state]; rfl)
    obtain rfl := inv.getRoom_member member found
    obtain ⟨⟨m, accepted⟩, processed, rfl⟩ := Option.map_eq_some_iff.mp run
    exact memberRequest_move inv settled phased member (.inr state) processed
  · exact stays run

theorem connect_move (inv : Invariant place s) {serial : Int}
    (run : s.onConnectPlayer serial = some s') :
    Move (.connect serial) (hall s) (hall s') := by
  have connects := Connects.of_run inv.toPeople run
  obtain ⟨p, playerPool, nextPlayer, alloc, idle, -⟩ := allocPlayer_spec inv.toPeople
  rw [SFLogicEntry.onConnectPlayer, alloc] at run
  obtain ⟨m, moves, rfl⟩ := Option.map_eq_some_iff.mp run
  have changes := ChangesState.of_run moves
  refine idle_move inv ?_ ?_ fun q there => ?_
  · change m.rooms = s.rooms
    rw [changes.same]
    rfl
  · change m.gameModes = s.gameModes
    rw [changes.same]
    rfl
  · rw [connects.others q]
    rintro rfl
    exact there (inv.outside (by rw [connects.idle]; rfl))

theorem disconnect_move (inv : Invariant place s) (settled : Settled s) {serial : Int}
    (connection : s.playerMap[serial]? = some p) (run : s.onDisconnectPlayer serial = some s') :
    Move (.disconnect serial) (hall s) (hall s') := by
  simp only [SFLogicEntry.onDisconnectPlayer, connection] at run
  have registered : Invariant place (SFPlayerManager.delPlayer s p) := inv.of_registry _ _
  obtain ⟨m, leaves, finish⟩ := Option.bind_eq_some_iff.mp run
  obtain ⟨idle, moves, rfl⟩ := Option.map_eq_some_iff.mp finish
  split at leaves
  · rename_i within
    obtain ⟨r, member⟩ := registered.member within
    obtain ⟨r', found, leaves⟩ := Option.bind_eq_some_iff.mp leaves
    obtain rfl := registered.getRoom_member member found
    have withdraws := (leaveRoom_withdraws registered settled member leaves).changeState moves
    exact Withdraws.move inv member (fun _ => connection)
      ⟨withdraws.room, withdraws.modes, withdraws.players⟩
  · rename_i without
    obtain rfl := Option.some.inj leaves
    have outside := registered.outside (Bool.eq_false_iff.mpr without)
    have goes := changeState_goes moves
    refine idle_move inv goes.rooms ?_ fun q there => ?_
    · change idle.gameModes = s.gameModes
      rw [goes.same]
      rfl
    · refine (goes.views q).trans (if_neg fun me => ?_)
      rw [List.mem_singleton.mp me] at there
      exact there outside

theorem dbResult_move {event : Event} (inv : Invariant place s) {result : Int}
    (run : SFPlayerFSM.processDBResult s p result = some s') : Move event (hall s) (hall s') := by
  have idle : Move event (hall s) (hall s) := idle_move inv rfl rfl fun _ _ => rfl
  rw [SFPlayerFSM.processDBResult] at run
  split at run
  · rename_i state
    have outside : place p = none := inv.outside (by rw [state]; rfl)
    rw [SFPlayerInit.onDBLogin] at run
    split at run
    · rw [SFPlayerManager.addPlayer] at run
      split at run
      · rename_i m added
        split at added
        · cases added
        · cases added
          obtain ⟨logged, moves, rfl⟩ := Option.map_eq_some_iff.mp run
          have registered := inv.of_registry s.dbRequests
            (s.playerManager.insertIfNew (s.players p).username p)
          have move : Move event (hall { s with
              playerManager := s.playerManager.insertIfNew (s.players p).username p })
              (hall logged) := outside_move registered outside moves
          rw [hall_sends (sendLoginResult_sends logged p result)]
          exact move
      · rename_i m refused
        split at refused
        · cases refused
          obtain rfl := Option.some.inj run
          exact sends_move inv (sendLoginResult_sends s p _)
        · cases refused
    · obtain rfl := Option.some.inj run
      exact sends_move inv (sendLoginResult_sends s p result)
  · obtain rfl := Option.some.inj run
    exact idle

/-- Every event of the server is one of the moves. -/
theorem step_move (inv : Invariant place s) (settled : Settled s) (phased : (hall s).Phased)
    {event : Event} (step : s.Steps event s') : Move event (hall s) (hall s') := by
  have idle (finish : some s = some s') : Move event (hall s) (hall s') := by
    obtain rfl := Option.some.inj finish
    exact idle_move inv rfl rfl fun _ _ => rfl
  cases event with
  | connect serial => exact connect_move inv step
  | data serial packet random =>
      rw [SFLogicEntry.Steps, SFLogicEntry.processPacket, SFLogicEntry.onPlayerData] at step
      split at step
      · exact idle step
      · rename_i p connection
        exact processPacket_move inv settled phased connection step
  | timer | shouter => exact idle step
  | answer request result =>
      rw [SFLogicEntry.Steps, SFLogicEntry.processPacket] at step
      split at step
      · contradiction
      · rename_i message _
        rw [SFLogicEntry.onDBResult] at step
        have pending := inv.of_registry (s.dbRequests.eraseIdx request) s.playerManager
        split at step
        · obtain rfl := Option.some.inj step
          exact idle_move inv rfl rfl fun _ _ => rfl
        · have move : Move (.answer request result) (hall { s with
              dbRequests := s.dbRequests.eraseIdx request }) (hall s') := dbResult_move pending step
          exact move
  | noAnswer request =>
      rw [SFLogicEntry.Steps, SFLogicEntry.processPacket] at step
      split at step
      · obtain rfl := Option.some.inj step
        exact idle_move inv rfl rfl fun _ _ => rfl
      · contradiction
  | disconnect serial =>
      cases found : s.playerMap[serial]? with
      | none =>
          rw [SFLogicEntry.Steps, SFLogicEntry.processPacket, SFLogicEntry.onDisconnectPlayer,
            found] at step
          exact idle step
      | some p => exact disconnect_move inv settled found step

theorem initServer_phased (p2pService : Bool) (gameModes : List Int) :
    (hall (initServer p2pService gameModes)).Phased := by
  intro r _ p member
  cases member

/-- `Good`, and the states of the players fit those of their rooms. -/
def InPhase (s : SFLogicEntry) : Prop := Good s ∧ (hall s).Phased

theorem step_inPhase (inPhase : InPhase s) {event : Event} (step : s.Steps event s') :
    InPhase s' := by
  obtain ⟨⟨place, inv, settled⟩, phased⟩ := inPhase
  obtain ⟨-, place', -, invariant⟩ := step_reaches inv settled step
  exact ⟨⟨place', invariant⟩, move_phased inv.seating phased (step_move inv settled phased step)⟩

theorem initServer_inPhase (p2pService : Bool) (gameModes : List Int) :
    InPhase (initServer p2pService gameModes) :=
  ⟨initServer_good p2pService gameModes, initServer_phased p2pService gameModes⟩

end Cgsf.Proof.Casual
