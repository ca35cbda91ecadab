import Cgsf.Proof.Casual.Entering
import Cgsf.Proof.Casual.Games
import Cgsf.Proof.Casual.GameSteps
import Cgsf.Proof.Casual.Identity

/-!
# Rooms that play

How a room comes to be playing after an event, and which events take players in and out.
-/

namespace Cgsf.Proof.Casual
open Cgsf.Casual Cgsf.Casual.SFLogicEntry Hall Library Std

section Moves

variable {h h' : Hall} {event : Event} {r : RoomRef}

/-- The serials of the members. -/
def Seats (h : Hall) (r : RoomRef) (k : Int) : Prop :=
  ∃ p ∈ (h.rooms r).members, (h.players p).serial = k

/-- What a move is to a room that plays after it. -/
inductive Plays (event : Event) (h h' : Hall) (r : RoomRef) : Prop where
  | stays (playing : (h.rooms r).state = .play)
      (mode : (h'.rooms r).currentGameMode = (h.rooms r).currentGameMode)
      (seats : ∀ k, Seats h' r k ↔ Seats h r k)
  | enters (p : PlayerRef) (playing : (h.rooms r).state = .play)
      (mode : (h'.rooms r).currentGameMode = (h.rooms r).currentGameMode)
      (absent : p ∉ (h.rooms r).members)
      (members : (h'.rooms r).members = (h.rooms r).members ++ [p])
  | leaves (p : PlayerRef) (playing : (h.rooms r).state = .play)
      (mode : (h'.rooms r).currentGameMode = (h.rooms r).currentGameMode)
      (member : p ∈ (h.rooms r).members) (gone : p ∉ (h'.rooms r).members)
      (others : (h.rooms r).members.erase p ≠ [])
  | begins (p : PlayerRef) (asked : h.completing event = some p)
      (member : p ∈ (h.rooms r).members) (loading : (h.rooms r).state = .loading)
      (ready : ∀ q ∈ (h.rooms r).members, q ≠ p → (h.players q).loadingComplete = true)
      (gameMode : (h'.rooms r).gameMode = (h.rooms r).gameMode)
      (mode : (h'.rooms r).currentGameMode =
        if (h.rooms r).gameMode ∈ h.gameModes then some (h.rooms r).gameMode
        else (h.rooms r).currentGameMode)
      (seats : ∀ k, Seats h' r k ↔ Seats h r k)

theorem seats_congr (members : (h'.rooms r).members = (h.rooms r).members)
    (serials : ∀ q ∈ (h.rooms r).members, (h'.players q).serial = (h.players q).serial) (k : Int) :
    Seats h' r k ↔ Seats h r k := by
  rw [Seats, Seats, members]
  exact exists_congr fun q => and_congr_right fun member => by rw [serials q member]

theorem Plays.of_same (rooms : h'.rooms r = h.rooms r)
    (serials : ∀ q ∈ (h.rooms r).members, (h'.players q).serial = (h.players q).serial)
    (playing : (h'.rooms r).state = .play) : Plays event h h' r :=
  .stays (by rw [← rooms, playing]) (by rw [rooms]) (seats_congr (by rw [rooms]) serials)

/-- A move of another room. -/
theorem Plays.elsewhere {k : RoomRef} {room : RoomView} {apart : PlayerRef → Prop}
    (seating : h.Seating) (inside : r < maxRoomCount) (below : k < maxRoomCount) (other : r ≠ k)
    (sets : h.Sets h' k room) (spared : h.Spared h' apart)
    (there : ∀ q, apart q → q ∈ (h.rooms k).members) (playing : (h'.rooms r).state = .play) :
    Plays event h h' r := by
  refine .of_same (by rw [sets, Function.update_of_ne other]) (fun q member => ?_) playing
  rw [spared_member spared inside member fun away => ?_]
  exact other (seating.alone r k q inside below member (there q away))

theorem move_plays (seating : h.Seating) (inside : r < maxRoomCount) (move : Move event h h')
    (playing : (h'.rooms r).state = .play) : Plays event h h' r := by
  cases move with
  | idle rooms spared =>
      exact .of_same (by rw [rooms]) (fun q member => by rw [spared_member spared inside member id])
        playing
  | opens p k gameMode below outside unused room spared mine =>
      by_cases here : r = k
      · subst here
        rw [room, Function.update_self] at playing
        cases playing
      · exact .elsewhere seating inside below here room spared (fun _ => False.elim) playing
  | enters p k below outside room spared mine =>
      by_cases here : r = k
      · subst here
        rw [room, Function.update_self] at playing
        refine .enters p playing ?_ (fun member => outside ⟨r, inside, member⟩) ?_
        · rw [room, Function.update_self]
        · rw [room, Function.update_self]
      · exact .elsewhere seating inside below here room spared (fun _ => False.elim) playing
  | starts k below waits somebody room spared all =>
      by_cases here : r = k
      · subst here
        rw [room, Function.update_self] at playing
        cases playing
      · exact .elsewhere seating inside below here room spared (fun _ => id) playing
  | completes p k below asked member loading room spared mine waits =>
      by_cases here : r = k
      · subst here
        rw [room, Function.update_self] at playing
        exact absurd (playing.symm.trans loading) nofun
      · exact .elsewhere seating inside below here room spared (fun q me => me ▸ member) playing
  | begins p k below asked member loading ready room spared all =>
      by_cases here : r = k
      · subst here
        refine .begins p asked member loading ready ?_ ?_ (seats_congr ?_ fun q there => ?_)
        · rw [room, Function.update_self]
          rfl
        · rw [room, Function.update_self]
        · rw [room, Function.update_self]
          rfl
        · rw [all q there]
      · exact .elsewhere seating inside below here room spared (fun _ => id) playing
  | joins p k below asked member plays loading rooms spared mine =>
      refine .of_same (by rw [rooms]) (fun q there => ?_) playing
      by_cases me : q = p
      · rw [me, mine]
      · rw [spared_member spared inside there me]
  | leaves p k below member lost room spared =>
      by_cases here : r = k
      · subst here
        by_cases empty : (h.rooms r).members.erase p = []
        · rw [room, Function.update_self] at playing
          simp only [empty, if_pos] at playing
          cases playing
        · rw [room, Function.update_self] at playing
          simp only [if_neg empty] at playing
          refine .leaves p playing ?_ member ?_ empty
          · rw [room, Function.update_self]
          · rw [room, Function.update_self]
            exact fun there => ((seating.nodup r inside).mem_erase_iff.mp there).1 rfl
      · exact .elsewhere seating inside below here room spared (fun q me => me ▸ member) playing

end Moves

section Events

variable {place place' : PlayerRef → Option RoomRef} {p q : PlayerRef} {r : RoomRef}
  {s s' : SFLogicEntry}

theorem Moved.entered {leaving : Prop} (moved : Moved place q leaving place')
    (before : place p ≠ some r) (after : place' p = some r) : p = q ∧ place p = none := by
  cases moved with
  | stays => exact absurd after before
  | enters k outside =>
      by_cases me : p = q
      · exact ⟨me, me ▸ outside⟩
      · rw [Function.update_of_ne me] at after
        exact absurd after before
  | leaves k may member =>
      by_cases me : p = q
      · rw [me, Function.update_self] at after
        cases after
      · rw [Function.update_of_ne me] at after
        exact absurd after before

theorem Moved.left {leaving : Prop} (moved : Moved place q leaving place')
    (before : place p = some r) (after : place' p ≠ some r) : p = q ∧ leaving := by
  cases moved with
  | stays => exact absurd before after
  | enters k outside =>
      by_cases me : p = q
      · rw [← me, before] at outside
        cases outside
      · rw [Function.update_of_ne me] at after
        exact absurd before after
  | leaves k may member =>
      by_cases me : p = q
      · exact ⟨me, may⟩
      · rw [Function.update_of_ne me] at after
        exact absurd before after

theorem leaver_of_leaving {event : Event} (leaving : Leaving s event p) :
    s.leaver event = some p := by
  obtain ⟨serial, connection, rfl | ⟨random, rfl⟩⟩ := leaving
  · exact connection
  · exact connection

/-- Whoever is no longer in its room was taken away by the event. -/
theorem step_leaver (inv : Invariant place s) (settled : Settled s) {event : Event}
    (step : s.Steps event s') (inside : r < maxRoomCount) (member : p ∈ (s.rooms r).observers)
    (gone : p ∉ (s'.rooms r).observers) : s.leaver event = some p := by
  obtain ⟨q, place', moved, inv', -⟩ := step_reaches inv settled step
  obtain ⟨rfl, leaving⟩ := moved.left (((inv.held.rooms r inside).all.mem p).mp member)
    fun there => gone (((inv'.held.rooms r inside).all.mem p).mpr there)
  exact leaver_of_leaving leaving

theorem onConnectPlayer_rooms {serial : Int} (run : s.onConnectPlayer serial = some s') :
    s'.rooms = s.rooms := by
  rw [SFLogicEntry.onConnectPlayer] at run
  obtain ⟨m, moves, rfl⟩ := Option.map_eq_some_iff.mp run
  change m.rooms = s.rooms
  rw [(ChangesState.of_run moves).same]
  rfl

theorem processDBResult_rooms {result : Int}
    (run : SFPlayerFSM.processDBResult s p result = some s') : s'.rooms = s.rooms := by
  have sends {m : SFLogicEntry} (result : Int) (same : m.rooms = s.rooms)
      (run : some (SFSendPacket.sendLoginResult m p result) = some s') : s'.rooms = s.rooms := by
    obtain rfl := Option.some.inj run
    rw [sendLoginResult_sends m p result]
    exact same
  rw [SFPlayerFSM.processDBResult] at run
  split at run
  · rw [SFPlayerInit.onDBLogin] at run
    split at run
    · rw [SFPlayerManager.addPlayer] at run
      split at run
      · rename_i m added
        split at added
        · cases added
        · cases added
          obtain ⟨logged, moves, finish⟩ := Option.map_eq_some_iff.mp run
          refine sends _ ?_ (congrArg some finish)
          rw [(ChangesState.of_run moves).same]
      · rename_i m refused
        split at refused
        · cases refused
          exact sends _ rfl run
        · cases refused
    · exact sends _ rfl run
  · obtain rfl := Option.some.inj run
    rfl

/-- The room that a player of the lobby is in after it asked to enter one. -/
theorem onEnterRoom_found (inv : Invariant place s) (inv' : Invariant place' s')
    (settled : Settled s) (lobby : (s.players p).state = .lobby) {gameMode roomIndex : Int}
    {random : Nat} (run : SFPlayerLobby.onEnterRoom s p gameMode roomIndex random = some s')
    (inside : r < maxRoomCount) (absent : p ∉ (s.rooms r).observers)
    (joins : p ∈ (s'.rooms r).observers) :
    SFPlayerLobby.addressMissing s p = false ∧ SFRoomManager.getRoom s roomIndex = some r := by
  rw [SFPlayerLobby.onEnterRoom] at run
  split at run
  · obtain rfl := Option.some.inj run
    exact absurd joins absent
  · rename_i address
    refine ⟨Bool.eq_false_iff.mpr address, ?_⟩
    split at run
    · obtain rfl := Option.some.inj run
      exact absurd joins absent
    · rename_i k found
      obtain ⟨-, below, used⟩ := getRoom_spec found
      obtain ⟨m, accepted, processed, admission⟩ := processUserRequest_admission settled below used
        (inv.absent lobby below) lobby gameMode roomIndex random
      rw [processed, Option.map_some] at run
      have rooms : s'.rooms = m.rooms := by
        obtain rfl := Option.some.inj run
        dsimp only
        split <;> rfl
      rw [rooms] at joins
      cases admission with
      | closed | crowded => exact absurd joins absent
      | joins _ _ _ member _ =>
          rw [← rooms] at joins member
          have here := ((inv'.held.rooms r inside).all.mem p).mp joins
          have there := ((inv'.held.rooms k below).all.mem p).mp member
          rw [found, ← here, there]

theorem processPacket_entrance (inv : Invariant place s) (settled : Settled s) {serial : Int}
    (connection : s.playerMap[serial]? = some q) {packet : Packet} {random : Nat}
    (run : SFPlayerFSM.processPacket s q packet random = some s') (inside : r < maxRoomCount)
    (used : (s.rooms r).state ≠ .none) (absent : p ∉ (s.rooms r).observers)
    (joins : p ∈ (s'.rooms r).observers) :
    s.entrance (.data serial packet random) = some r := by
  have mine : s.playerMap[(s.players q).serial]? = some q :=
    (inv.connected serial q connection).1 ▸ connection
  obtain ⟨place', moved, inv', -⟩ := processPacket_reaches inv settled mine run
  obtain ⟨rfl, outside⟩ := moved.entered (r := r)
    (fun there => absent (((inv.held.rooms r inside).all.mem p).mpr there))
    (((inv'.held.rooms r inside).all.mem p).mp joins)
  have same (rooms : s'.rooms = s.rooms) : s.entrance (.data serial packet random) = some r := by
    rw [rooms] at joins
    exact absurd joins absent
  have away {state : PlayerState} (is : (s.players p).state = state)
      (within : inRoom state = true) : s.entrance (.data serial packet random) = some r :=
    absurd outside ((inv.located p).mp (is ▸ within))
  unfold SFPlayerFSM.processPacket at run
  split at run
  · obtain rfl := Option.some.inj run
    exact same rfl
  · exact same (changeState_goes run).rooms
  · rename_i gameMode roomIndex lobby
    obtain ⟨address, found⟩ := onEnterRoom_found inv inv' settled lobby run inside absent joins
    rw [SFLogicEntry.entrance, connection, Option.bind_some, if_pos ⟨lobby, address⟩, found]
  · rw [SFPlayerLobby.onCreateRoom] at run
    split at run
    · obtain rfl := Option.some.inj run
      exact same rfl
    · obtain ⟨⟨m, created⟩, creates, finish⟩ := Option.bind_eq_some_iff.mp run
      rcases onCreateRoom_cases inv creates with
        ⟨rfl, rfl⟩ | ⟨rfl, k, teamType, below, unused, is⟩
      · obtain rfl := Option.some.inj finish
        exact same rfl
      · obtain ⟨entered, moves, rfl⟩ := Option.map_eq_some_iff.mp finish
        have other : r ≠ k := by
          rintro rfl
          exact used unused
        change p ∈ (entered.rooms r).observers at joins
        rw [(changeState_goes moves).rooms, is] at joins
        simp only [Function.update_of_ne other] at joins
        exact absurd joins absent
  · obtain rfl := Option.some.inj run
    exact same rfl
  · exact same (by rw [sendRoomPage_sends run])
  · rename_i state
    exact away state rfl
  · rename_i state
    exact away state rfl
  · rename_i state
    exact away state rfl
  · rename_i state
    exact away state rfl
  · rename_i state
    exact away state rfl
  · rename_i state
    exact away state rfl
  · obtain rfl := Option.some.inj run
    exact same rfl

/-- Whoever is new in a room that was used asked to enter it. -/
theorem step_entrance (inv : Invariant place s) (settled : Settled s) {event : Event}
    (step : s.Steps event s') (inside : r < maxRoomCount) (used : (s.rooms r).state ≠ .none)
    (absent : p ∉ (s.rooms r).observers) (joins : p ∈ (s'.rooms r).observers) :
    s.entrance event = some r := by
  have same (rooms : s'.rooms = s.rooms) : s.entrance event = some r := by
    rw [rooms] at joins
    exact absurd joins absent
  cases event with
  | connect serial => exact same (onConnectPlayer_rooms step)
  | data serial packet random =>
      rw [SFLogicEntry.Steps, SFLogicEntry.processPacket, SFLogicEntry.onPlayerData] at step
      split at step
      · exact same (congrArg SFLogicEntry.rooms (Option.some.inj step)).symm
      · rename_i q connection
        exact processPacket_entrance inv settled connection step inside used absent joins
  | timer | shouter => exact same (congrArg SFLogicEntry.rooms (Option.some.inj step)).symm
  | answer request result =>
      rw [SFLogicEntry.Steps, SFLogicEntry.processPacket] at step
      split at step
      · contradiction
      · rename_i message _
        rw [SFLogicEntry.onDBResult] at step
        split at step
        · exact same (congrArg SFLogicEntry.rooms (Option.some.inj step)).symm
        · have rooms := processDBResult_rooms step
          exact same rooms
  | noAnswer request =>
      rw [SFLogicEntry.Steps, SFLogicEntry.processPacket] at step
      split at step
      · exact same (congrArg SFLogicEntry.rooms (Option.some.inj step)).symm
      · contradiction
  | disconnect serial =>
      cases found : s.playerMap[serial]? with
      | none =>
          rw [SFLogicEntry.Steps, SFLogicEntry.processPacket, SFLogicEntry.onDisconnectPlayer,
            found] at step
          exact same (congrArg SFLogicEntry.rooms (Option.some.inj step)).symm
      | some q =>
          have gone := onDisconnectPlayer_spec inv settled found step
          have there := ((gone.invariant.held.rooms r inside).all.mem p).mp joins
          refine absurd (((inv.held.rooms r inside).all.mem p).mpr ?_) absent
          by_cases me : p = q
          · rw [me, Function.update_self] at there
            cases there
          · rwa [Function.update_of_ne me] at there

end Events

end Cgsf.Proof.Casual
