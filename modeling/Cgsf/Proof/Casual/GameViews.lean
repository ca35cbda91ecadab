import Cgsf.Proof.Casual.Identity
import Cgsf.Proof.Casual.Games

/-!
# What the games see of a state

A change of a player's or a room's state, seen from the games.
-/

namespace Cgsf.Proof.Casual
open Cgsf.Casual Cgsf.Casual.SFLogicEntry Library Std

variable {place : PlayerRef → Option RoomRef} {p : PlayerRef} {r : RoomRef} {s s' : SFLogicEntry}

/-! ## Players that change their state -/

/-- The view of a player that was told to go to `state`. -/
def goTo (state : PlayerState) (player : PlayerView) : PlayerView :=
  if player.state = state then player
  else { player with
    state, loadingComplete := if state = .loading then false else player.loadingComplete }

theorem goTo_goTo (state : PlayerState) (player : PlayerView) :
    goTo state (goTo state player) = goTo state player := by
  by_cases here : player.state = state
  · simp [goTo, here]
  · simp [goTo, here]

/-- The players of a list went to `state`. -/
structure Goes (state : PlayerState) (who : List PlayerRef) (s s' : SFLogicEntry) : Prop where
  same : s' = { s with players := s'.players, lobby := s'.lobby, sent := s'.sent }
  views : ∀ q, (s'.players q).view =
    if q ∈ who then goTo state (s.players q).view else (s.players q).view

theorem onEnter_players (run : SFPlayerFSM.onEnter s p = some s') :
    s'.players = Function.update s.players p { s.players p with
      loadingComplete := if (s.players p).state = .loading then false
        else (s.players p).loadingComplete } := by
  have same : Function.update s.players p { s.players p with
      loadingComplete := (s.players p).loadingComplete } = s.players :=
    Function.update_eq_self p s.players
  rw [SFPlayerFSM.onEnter] at run
  cases state : (s.players p).state <;> simp only [state] at run
  case loading =>
      obtain rfl := Option.some.inj run
      rfl
  case lobby =>
      rw [sendRoomPage_sends run]
      exact same.symm
  case play =>
      obtain ⟨r, -, entered⟩ := Option.bind_eq_some_iff.mp run
      obtain ⟨-, -, rfl⟩ := Option.map_eq_some_iff.mp entered
      rw [sendCreatePlayer_sends]
      exact same.symm
  all_goals
      obtain rfl := Option.some.inj run
      exact same.symm

theorem changeState_goes {state : PlayerState}
    (run : SFPlayerFSM.changeState s p state = some s') : Goes state [p] s s' := by
  refine ⟨by rw [(ChangesState.of_run run).same], fun q => ?_⟩
  rw [SFPlayerFSM.changeState] at run
  simp only [List.mem_singleton]
  split at run
  · rename_i already
    obtain rfl := Option.some.inj run
    split
    · rename_i me
      rw [goTo, if_pos (by rw [me]; exact already)]
    · rfl
  · rename_i moves
    obtain ⟨sent, left⟩ := onLeave_spec s p
    rw [left] at run
    rw [onEnter_players run]
    by_cases me : q = p
    · subst me
      rw [if_pos rfl, goTo, if_neg (show (s.players q).view.state ≠ state from moves)]
      simp only [SFLogicEntry.modifyPlayer, Function.update_self]
      rfl
    · simp only [SFLogicEntry.modifyPlayer, Function.update_of_ne me, if_neg me]

namespace Goes

variable {a b c : SFLogicEntry} {state : PlayerState} {who who' : List PlayerRef}

theorem trans (first : Goes state who a b) (second : Goes state who' b c) :
    Goes state (who ++ who') a c where
  same := by
    rw [second.same, first.same]
  views := fun q => by
    rw [second.views q, first.views q]
    by_cases left : q ∈ who
    · by_cases right : q ∈ who'
      · simp [left, right, goTo_goTo]
      · simp [left, right]
    · simp [left]

theorem rooms (goes : Goes state who s s') : s'.rooms = s.rooms := by
  rw [goes.same]

end Goes

theorem changeStates_goes {state : PlayerState} (who : List PlayerRef) (s s' : SFLogicEntry)
    (run : who.foldlM (fun s p => SFPlayerFSM.changeState s p state) s = some s') :
    Goes state who s s' := by
  induction who generalizing s with
  | nil =>
      obtain rfl := Option.some.inj run
      exact ⟨rfl, fun _ => by simp⟩
  | cons p who ih =>
      rw [List.foldlM_cons] at run
      obtain ⟨middle, first, rest⟩ := Option.bind_eq_some_iff.mp run
      exact (changeState_goes first).trans (ih middle rest)

theorem changePlayerFSM_goes {state : PlayerState}
    (run : SFRoom.changePlayerFSM s r state = some s') :
    Goes state (SFRoom.members s r .red ++ SFRoom.members s r .blue) s s' := by
  simp only [SFRoom.changePlayerFSM, List.foldlM_cons, List.foldlM_nil] at run
  obtain ⟨middle, first, rest⟩ := Option.bind_eq_some_iff.mp run
  obtain ⟨last, second, done⟩ := Option.bind_eq_some_iff.mp rest
  obtain rfl := Option.some.inj done
  have red := changeStates_goes _ s middle first
  have blue := changeStates_goes _ middle last second
  have same : SFRoom.members middle r .blue = SFRoom.members s r .blue := by
    rw [SFRoom.members, red.rooms]
    rfl
  exact red.trans (same ▸ blue)

/-! ## The view of a state -/

theorem hall_sets {room : SFRoom} (rooms : s'.rooms = Function.update s.rooms r room) :
    (hall s).Sets (hall s') r room.view := by
  rw [Hall.Sets]
  funext k
  simp only [hall, rooms]
  by_cases here : k = r
  · subst here
    simp only [Function.update_self]
  · simp only [Function.update_of_ne here]

theorem hall_rooms (rooms : s'.rooms = s.rooms) : (hall s').rooms = (hall s).rooms := by
  simp only [hall, rooms]

namespace Invariant

theorem members_iff (inv : Invariant place s) (inside : r < maxRoomCount) (q : PlayerRef) :
    q ∈ (s.rooms r).observers ↔ place q = some r :=
  (inv.held.rooms r inside).all.mem q

theorem seated_iff (inv : Invariant place s) (q : PlayerRef) :
    (hall s).Seated q ↔ place q ≠ none := by
  constructor
  · rintro ⟨k, inside, member⟩
    rw [(inv.members_iff inside q).mp member]
    exact Option.some_ne_none k
  · intro there
    obtain ⟨k, member⟩ := Option.ne_none_iff_exists'.mp there
    obtain ⟨inside, -, listed⟩ := inv.member_room member
    exact ⟨k, inside, listed⟩

theorem unseated (inv : Invariant place s) (outside : place p = none) : ¬(hall s).Seated p := by
  rw [inv.seated_iff, not_not]
  exact outside

theorem seating (inv : Invariant place s) : (hall s).Seating where
  alone := fun k k' q inside inside' member member' => by
    have here := (inv.members_iff inside q).mp member
    have there := (inv.members_iff inside' q).mp member'
    exact Option.some.inj (here.symm.trans there)
  nodup := fun k inside => (inv.held.rooms k inside).all.nodup
  serials := fun k inside q member q' member' same => by
    have here := inv.connection ((inv.members_iff inside q).mp member)
    have there := inv.connection ((inv.members_iff inside q').mp member')
    have same : (s.players q).serial = (s.players q').serial := same
    rw [same, there] at here
    exact (Option.some.inj here).symm

theorem teams_members (inv : Invariant place s) (inside : r < maxRoomCount) (q : PlayerRef) :
    q ∈ SFRoom.members s r .red ++ SFRoom.members s r .blue ↔ q ∈ (s.rooms r).observers := by
  have team (t : TeamType) : q ∈ SFRoom.members s r t ↔
      place q = some r ∧ teamOf s.players q = t :=
    (inv.held.rooms r inside).toRoomHolds.members_mem t q
  rw [List.mem_append, team, team, inv.members_iff inside, ← and_or_left, and_iff_left_iff_imp]
  intro _
  cases teamOf s.players q with
  | red => exact .inl rfl
  | blue => exact .inr rfl

end Invariant

/-- Nothing that the games see has changed, but for players in no room. -/
theorem idle_move {event : Event} (inv : Invariant place s) (rooms : s'.rooms = s.rooms)
    (modes : s'.gameModes = s.gameModes)
    (players : ∀ q, place q ≠ none → (s'.players q).view = (s.players q).view) :
    Move event (hall s) (hall s') :=
  .idle (hall_rooms rooms) ⟨modes, fun q seated _ => players q ((inv.seated_iff q).mp seated)⟩

theorem hall_sends (sends : SendsOnly s s') : hall s' = hall s := by
  rw [sends]
  rfl

theorem sends_move {event : Event} (inv : Invariant place s) (sends : SendsOnly s s') :
    Move event (hall s) (hall s') := by
  rw [sends]
  exact idle_move inv rfl rfl fun _ _ => rfl

/-! ## A room that goes on -/

/-- A room went to a state, its members too, and nothing else changed but spawn indexes. -/
structure Shifts (state : PlayerState) (r : RoomRef) (room : SFRoom) (s s' : SFLogicEntry) :
    Prop where
  rooms : s'.rooms = Function.update s.rooms r room
  modes : s'.gameModes = s.gameModes
  views : ∀ q, (s'.players q).view =
    if q ∈ SFRoom.members s r .red ++ SFRoom.members s r .blue then goTo state (s.players q).view
    else (s.players q).view

theorem Shifts.of_goes {state : PlayerState} {room : SFRoom} {m : SFLogicEntry}
    (goes : Goes state (SFRoom.members m r .red ++ SFRoom.members m r .blue) m s')
    (rooms : m.rooms = Function.update s.rooms r room) (modes : m.gameModes = s.gameModes)
    (views : ∀ q, (m.players q).view = (s.players q).view)
    (teams : room.teams = (s.rooms r).teams) : Shifts state r room s s' := by
  have same (t : TeamType) : SFRoom.members m r t = SFRoom.members s r t := by
    rw [SFRoom.members, rooms, Function.update_self, teams]
    rfl
  refine ⟨goes.rooms.trans rooms, by rw [goes.same]; exact modes, fun q => ?_⟩
  rw [goes.views q, same, same, views q]

theorem roomChangeState_enters {state : RoomState} (other : (s.rooms r).state ≠ state)
    (idle : (s.rooms r).state ≠ .play) (run : SFRoomFSM.changeState s r state = some s') :
    SFRoomFSM.onEnter (s.modifyRoom r fun room => { room with state }) r = some s' := by
  rw [SFRoomFSM.changeState, if_neg other] at run
  obtain ⟨left, leaves, enters⟩ := Option.bind_eq_some_iff.mp run
  rw [SFRoomFSM.onLeave] at leaves
  split at leaves
  · contradiction
  · obtain rfl := Option.some.inj leaves
    exact enters

theorem modifyRoom_state (s : SFLogicEntry) (r : RoomRef) (state : RoomState) :
    ((s.modifyRoom r fun room => { room with state }).rooms r).state = state := by
  simp only [SFLogicEntry.modifyRoom, Function.update_self]

theorem startLoading_shifts (waits : (s.rooms r).state = .wait)
    (run : SFRoomFSM.changeState s r .loading = some s') :
    Shifts .loading r { s.rooms r with state := .loading } s s' := by
  have enters := roomChangeState_enters (by rw [waits]; decide) (by rw [waits]; decide) run
  simp only [SFRoomFSM.onEnter, modifyRoom_state] at enters
  exact .of_goes (changePlayerFSM_goes enters) rfl rfl (fun _ => rfl) rfl

theorem loadingStart_move {event : Event} (inv : Invariant place s) (phased : (hall s).Phased)
    (member : place p = some r) (waits : (s.rooms r).state = .wait)
    (run : SFRoomWait.onLoadingStart s r p = some s') : Move event (hall s) (hall s') := by
  obtain ⟨inside, -, listed⟩ := inv.member_room member
  rw [SFRoomWait.onLoadingStart] at run
  split at run
  · obtain rfl := Option.some.inj run
    exact idle_move inv rfl rfl fun _ _ => rfl
  · split at run
    · obtain rfl := Option.some.inj run
      exact idle_move inv rfl rfl fun _ _ => rfl
    · have shifts := startLoading_shifts waits run
      refine .starts r inside waits (List.ne_nil_of_mem listed) (hall_sets shifts.rooms)
        ⟨shifts.modes, fun q _ elsewhere => ?_⟩ fun q there => ?_
      · refine (shifts.views q).trans (if_neg fun there => elsewhere ?_)
        exact (inv.teams_members inside q).mp there
      · refine (shifts.views q).trans ((if_pos ((inv.teams_members inside q).mpr there)).trans ?_)
        have entered : (s.players q).view.state = .room := by
          have fits := phased r inside q there
          rw [show ((hall s).rooms r).state = .wait from waits] at fits
          exact fits
        rw [goTo, entered]
        rfl

theorem setSpawnIndexes_same (s : SFLogicEntry) (r : RoomRef) :
    (SFRoomFSM.setSpawnIndexes s r).rooms = s.rooms ∧
      (SFRoomFSM.setSpawnIndexes s r).gameModes = s.gameModes ∧
      ∀ q, ((SFRoomFSM.setSpawnIndexes s r).players q).view = (s.players q).view := by
  rw [SFRoomFSM.setSpawnIndexes]
  generalize (s.rooms r).roomMemberMap.toList.zipIdx 1 = entries
  induction entries generalizing s with
  | nil => exact ⟨rfl, rfl, fun _ => rfl⟩
  | cons entry entries ih =>
      obtain ⟨rooms, modes, views⟩ :=
        ih (s.modifyPlayer entry.1.2 fun q => { q with spawnIndex := entry.2 })
      refine ⟨rooms, modes, fun q => (views q).trans ?_⟩
      by_cases me : q = entry.1.2
      · subst me
        simp only [SFLogicEntry.modifyPlayer, Function.update_self]
        rfl
      · simp only [SFLogicEntry.modifyPlayer, Function.update_of_ne me]

theorem playReady_shifts (loading : (s.rooms r).state = .loading)
    (run : SFRoomFSM.changeState s r .playReady = some s') :
    Shifts .playReady r { s.rooms r with state := .playReady } s s' := by
  have enters := roomChangeState_enters (by rw [loading]; decide) (by rw [loading]; decide) run
  simp only [SFRoomFSM.onEnter, modifyRoom_state] at enters
  obtain ⟨rooms, modes, views⟩ := setSpawnIndexes_same
    (s.modifyRoom r fun room => { room with state := .playReady }) r
  exact .of_goes (changePlayerFSM_goes enters) rooms modes views rfl

/-- The room once it plays. -/
def playing (modes : List Int) (room : SFRoom) : SFRoom :=
  { room with
    state := .play
    currentGameMode := if room.gameMode ∈ modes then some room.gameMode
      else room.currentGameMode }

theorem setGameMode_same (s : SFLogicEntry) (r : RoomRef) (plays : (s.rooms r).state = .play) :
    SFRoomFSM.setGameMode s r = s.modifyRoom r (playing s.gameModes) := by
  rw [SFRoomFSM.setGameMode]
  simp only [SFLogicEntry.modifyRoom, playing, ← plays]
  split
  · rfl
  · rw [Function.update_eq_self]

theorem play_shifts (ready : (s.rooms r).state = .playReady)
    (run : SFRoomFSM.changeState s r .play = some s') :
    Shifts .play r (playing s.gameModes (s.rooms r)) s s' := by
  have enters := roomChangeState_enters (by rw [ready]; decide) (by rw [ready]; decide) run
  simp only [SFRoomFSM.onEnter, modifyRoom_state] at enters
  obtain ⟨m, moved, told⟩ := Option.bind_eq_some_iff.mp enters
  rw [setGameMode_same _ r (modifyRoom_state s r .play)] at moved
  have rooms : ((s.modifyRoom r fun room => { room with state := .play }).modifyRoom r
      (playing s.gameModes)).rooms =
        Function.update s.rooms r (playing s.gameModes (s.rooms r)) := by
    simp only [SFLogicEntry.modifyRoom, Function.update_self, Function.update_idem, playing]
  have shifts : Shifts .play r (playing s.gameModes (s.rooms r)) s m :=
    .of_goes (changePlayerFSM_goes moved) rooms rfl (fun _ => rfl) rfl
  have here : m.rooms r = playing s.gameModes (s.rooms r) := by
    rw [shifts.rooms, Function.update_self]
  split at told
  · -- The second look at the table finds what the first one found.
    have sends := propagateMessage_sends told
    rw [setGameMode_same m r (by rw [here]; rfl)] at sends
    refine ⟨?_, ?_, fun q => ?_⟩
    · rw [sends]
      simp only [SFLogicEntry.modifyRoom, shifts.rooms, shifts.modes, Function.update_self,
        Function.update_idem]
      simp only [playing]
      split <;> rfl
    · rw [sends]
      exact shifts.modes
    · rw [sends]
      exact shifts.views q
  · obtain rfl := Option.some.inj told
    exact shifts

end Cgsf.Proof.Casual
