import Cgsf.Proof.Casual.Consistency

/-!
# A player that asks to enter a room
-/

namespace Cgsf.Proof.Casual
open Cgsf.Casual Cgsf.Casual.SFLogicEntry Library Std

variable {place : PlayerRef → Option RoomRef} {s s' : SFLogicEntry} {p : PlayerRef} {r : RoomRef}

theorem sendToClient_initial (s : SFLogicEntry) (p : PlayerRef) (m : Message) :
    s.sent <+: (s.sendToClient p m).sent := List.prefix_append _ _

theorem enterTeamMember_told (s : SFLogicEntry) (r : RoomRef) (playerIndex : Int) (name : Text) :
    ∃ told, SFRoom.propagateMessage s r (.enterTeamMember playerIndex name) = some told ∧
      s.sent <+: told.sent := by
  rw [SFRoom.propagateMessage]
  generalize (s.rooms r).observers = observers
  induction observers generalizing s with
  | nil => exact ⟨s, rfl, List.prefix_rfl⟩
  | cons q observers ih =>
      obtain ⟨told, tells, grows⟩ := ih (s.sendToClient q (.enterTeamMember playerIndex (cString name)))
      exact ⟨told, tells, (sendToClient_initial s q _).trans grows⟩

theorem told_then {m : SFLogicEntry} {playerIndex : Int} {name : Text}
    {f : SFLogicEntry → SFLogicEntry} (grows : s.sent <+: m.sent) (kept : ∀ t, (f t).sent = t.sent) :
    ∃ t, (SFRoom.propagateMessage m r (.enterTeamMember playerIndex name)).map
      (fun t => (f t, true)) = some (t, true) ∧ s.sent <+: t.sent := by
  obtain ⟨told, tells, more⟩ := enterTeamMember_told m r playerIndex name
  refine ⟨f told, by rw [tells, Option.map_some], ?_⟩
  rw [kept]
  exact grows.trans more

theorem onEnter_full (full : maxRoomMember ≤ (s.rooms r).observers.length) :
    SFRoom.onEnter s r p = some (s, false) := by
  rw [SFRoom.onEnter, if_pos full]

theorem onEnter_joins (free : (s.rooms r).observers.length < maxRoomMember)
    (absent : p ∉ (s.rooms r).observers) :
    ∃ m, SFRoom.onEnter s r p = some (m, true) ∧ s.sent <+: m.sent := by
  rw [SFRoom.onEnter, if_neg (Nat.not_le_of_lt free)]
  simp only [SFSubject.addObserver, if_neg absent]
  exact told_then (List.prefix_rfl (l := s.sent)) fun _ => rfl

theorem changeState_enters {state : PlayerState} (lobby : (s.players p).state = .lobby)
    (enters : state = .room ∨ state = .loading) :
    ∃ m, SFPlayerFSM.changeState s p state = some m ∧ s.sent <+: m.sent := by
  have away : (s.players p).state ≠ state := by
    rw [lobby]
    rintro rfl
    simp at enters
  rw [SFPlayerFSM.changeState, if_neg away, SFPlayerFSM.onLeave, lobby, SFPlayerFSM.onEnter]
  rcases enters with rfl | rfl
  · simp [SFLogicEntry.modifyPlayer, SFLobby.onLeave]
  · simp [SFLogicEntry.modifyPlayer, SFLobby.onLeave, SFLogicEntry.sendToClient,
      SFLogicEntry.sendRequest]

theorem getRoom_index {roomIndex : Int} (found : SFRoomManager.getRoom s roomIndex = some r) :
    (r : Int) = roomIndex := by
  obtain ⟨rfl, inside, -⟩ := getRoom_spec found
  rw [SFRoomManager.getRoom] at found
  split at found
  · contradiction
  · rename_i range
    exact Int.toNat_of_nonneg (by omega)

/-- What the handler of a room does with a player of the lobby: it refuses and changes nothing, or
takes it in. -/
inductive Admission (s : SFLogicEntry) (r : RoomRef) (p : PlayerRef) : SFLogicEntry → Bool → Prop
  | closed (state : (s.rooms r).state = .loading) : Admission s r p s false
  | crowded (state : (s.rooms r).state = .wait ∨ (s.rooms r).state = .play)
      (full : maxRoomMember ≤ (s.rooms r).observers.length) : Admission s r p s true
  | joins (m : SFLogicEntry) (grows : s.sent <+: m.sent) (serial : (m.players p).serial =
      (s.players p).serial) (member : p ∈ (m.rooms r).observers) (state : (m.players p).state =
      if (s.rooms r).state = .play then .loading else .room) : Admission s r p m true

theorem onEnter_member {m : SFLogicEntry} (enters : SFRoom.onEnter s r p = some (m, true)) :
    p ∈ (m.rooms r).observers ∧ (m.players p).serial = (s.players p).serial ∧
      (m.players p).state = (s.players p).state := by
  rcases onEnter_cases enters with ⟨never, -⟩ | ⟨-, -, -, teamType, sent, rfl⟩
  · contradiction
  · simp [joined]

theorem ChangesState.joins {m t : SFLogicEntry} {state : PlayerState}
    (moves : ChangesState p state m t) (grows : s.sent <+: t.sent)
    (member : p ∈ (m.rooms r).observers) (serial : (m.players p).serial = (s.players p).serial)
    (after : state = if (s.rooms r).state = .play then .loading else .room) :
    Admission s r p t true := by
  refine .joins t grows ?_ ?_ ?_
  · rw [moves.kept p, serial]
  · rw [moves.same]
    exact member
  · rw [moves.mine, after]

theorem waitEnter_admission (state : (s.rooms r).state = .wait) (absent : p ∉ (s.rooms r).observers)
    (lobby : (s.players p).state = .lobby) :
    ∃ m, SFRoomWait.onEnterRoom s r p = some m ∧ Admission s r p m true := by
  rw [SFRoomWait.onEnterRoom]
  rcases Nat.lt_or_ge (s.rooms r).observers.length maxRoomMember with free | full
  · obtain ⟨m, enters, grows⟩ := onEnter_joins free absent
    obtain ⟨member, serial, same⟩ := onEnter_member enters
    obtain ⟨t, moves, more⟩ := changeState_enters (same.trans lobby) (.inl rfl)
    refine ⟨t, by rw [enters]; exact moves, ?_⟩
    exact (ChangesState.of_run moves).joins (grows.trans more) member serial (by rw [state]; rfl)
  · refine ⟨s, by rw [onEnter_full full]; rfl, .crowded (.inl state) full⟩

theorem playEnter_admission (state : (s.rooms r).state = .play) (absent : p ∉ (s.rooms r).observers)
    (lobby : (s.players p).state = .lobby) (random : Nat) :
    ∃ m, SFRoomPlay.onEnterRoom s r p random = some m ∧ Admission s r p m true := by
  rw [SFRoomPlay.onEnterRoom]
  rcases Nat.lt_or_ge (s.rooms r).observers.length maxRoomMember with free | full
  · obtain ⟨m, enters, grows⟩ := onEnter_joins free absent
    obtain ⟨member, serial, same⟩ := onEnter_member enters
    have spawned : ((m.modifyPlayer p fun q =>
        { q with spawnIndex := random % maxRoomMember + 1 }).players p).state = .lobby := by
      simp only [SFLogicEntry.modifyPlayer, Function.update_self]
      exact same.trans lobby
    obtain ⟨t, moves, more⟩ := changeState_enters spawned (.inr rfl)
    refine ⟨t, by rw [enters]; exact moves, ?_⟩
    refine (ChangesState.of_run moves).joins (grows.trans more) member ?_ (by rw [if_pos state])
    simp only [SFLogicEntry.modifyPlayer, Function.update_self]
    exact serial
  · refine ⟨s, by rw [onEnter_full full]; rfl, .crowded (.inr state) full⟩

theorem processUserRequest_admission (settled : Settled s) (inside : r < maxRoomCount)
    (used : (s.rooms r).state ≠ .none) (absent : p ∉ (s.rooms r).observers)
    (lobby : (s.players p).state = .lobby) (gameMode roomIndex : Int) (random : Nat) :
    ∃ m accepted, SFRoomFSM.processUserRequest s r p (.enterRoom gameMode roomIndex) random =
      some (m, accepted) ∧ Admission s r p m accepted := by
  unfold SFRoomFSM.processUserRequest
  cases state : (s.rooms r).state with
  | none => exact absurd state used
  | wait =>
      obtain ⟨m, enters, admits⟩ := waitEnter_admission state absent lobby
      exact ⟨m, true, by simp only [enters, Option.map_some], admits⟩
  | loading => exact ⟨s, false, rfl, .closed state⟩
  | playReady => exact absurd state (settled r inside).1
  | play =>
      obtain ⟨m, enters, admits⟩ := playEnter_admission state absent lobby random
      exact ⟨m, true, by simp only [enters, Option.map_some], admits⟩
  | playEnd => exact absurd state (settled r inside).2

theorem Invariant.absent (inv : Invariant place s) (lobby : (s.players p).state = .lobby)
    (inside : r < maxRoomCount) : p ∉ (s.rooms r).observers := fun listed => by
  have there := ((inv.held.rooms r inside).all.mem p).mp listed
  rw [inv.outside (p := p) (by rw [lobby]; rfl)] at there
  contradiction

/-- The replies go out after everything that entering says. -/
theorem replied_last {m : SFLogicEntry} (grows : s.sent <+: m.sent)
    (serial : (m.players p).serial = (s.players p).serial) (gameMode roomIndex : Int) :
    Replied s (SFSendPacket.sendRoomMember (m.sendToClient p (.enterRoom gameMode roomIndex)) p r) p
      gameMode roomIndex := by
  obtain ⟨told, grows⟩ := grows
  have sent : (SFSendPacket.sendRoomMember (m.sendToClient p (.enterRoom gameMode roomIndex))
      p r).sent = s.sent ++ (told ++ [((s.players p).serial, .enterRoom gameMode roomIndex)] ++
        [((s.players p).serial, .roomMember ((((m.rooms r).roomMemberMap.toList.filter fun entry =>
          (m.players entry.2).serial ≠ (m.players p).serial)).map fun entry =>
            ((m.players entry.2).serial, (m.players entry.2).username,
              (m.players entry.2).teamType)))]) := by
    rw [← List.append_assoc, ← List.append_assoc, grows, ← serial]
    rfl
  rw [Replied, sent, List.drop_left]
  exact ⟨by simp, _, List.mem_append_right _ List.mem_cons_self⟩

theorem enterRoom_agrees {p2pService : Bool} {gameModes : List Int} {history : List Event}
    (run : Run Steps (initServer p2pService gameModes) history s)
    (lobby : (s.players p).state = .lobby) (gameMode roomIndex : Int) (random : Nat) :
    ∃ s', SFPlayerLobby.onEnterRoom s p gameMode roomIndex random = some s' ∧
      (Member s' p roomIndex → Replied s s' p gameMode roomIndex ∧
        (s'.players p).state = enteredState s roomIndex) ∧
      (¬ Member s' p roomIndex → s' = { s with sent := s'.sent } ∧
        (SFPlayerLobby.addressMissing s p = true ∨ ¬ Crowded s roomIndex → s' = s)) := by
  obtain ⟨place, inv, settled⟩ := run_good run
  have outside : ¬ Member s p roomIndex := by
    rintro ⟨r, -, inside, listed⟩
    exact inv.absent lobby inside listed
  rw [SFPlayerLobby.onEnterRoom]
  by_cases missing : SFPlayerLobby.addressMissing s p = true
  · rw [if_pos missing]
    exact ⟨s, rfl, fun member => absurd member outside, fun _ => ⟨rfl, fun _ => rfl⟩⟩
  · rw [if_neg missing]
    cases found : SFRoomManager.getRoom s roomIndex with
    | none => exact ⟨s, rfl, fun member => absurd member outside, fun _ => ⟨rfl, fun _ => rfl⟩⟩
    | some r =>
        obtain ⟨same, inside, used⟩ := getRoom_spec found
        obtain ⟨m, accepted, processed, admits⟩ := processUserRequest_admission settled inside used
          (inv.absent lobby inside) lobby gameMode roomIndex random
        dsimp only
        rw [processed, Option.map_some]
        refine ⟨_, rfl, ?_⟩
        cases admits with
        | closed state =>
            exact ⟨fun member => absurd member outside, fun _ => ⟨rfl, fun _ => rfl⟩⟩
        | crowded state full =>
            refine ⟨fun member => absurd member outside, fun _ => ⟨rfl, fun quiet => ?_⟩⟩
            exact absurd ⟨r, getRoom_index found, inside, state, full⟩ (quiet.resolve_left missing)
        | joins _ grows serial member state =>
            refine ⟨fun _ => ⟨replied_last grows serial gameMode roomIndex, ?_⟩, fun never => ?_⟩
            · rw [enteredState, ← same]
              exact state
            · exact absurd ⟨r, getRoom_index found, inside, member⟩ never

/-- A second player comes to the lobby while the first one plays. -/
def lateGuest : List Event :=
  oneGame ++ [.connect 8, .data 8 (.login [99] []) 0, .answer 0 0, .data 8 .enterLobby 0]

theorem lateGuest_enters : ∃ s, Run Steps (initServer false [1]) lateGuest s ∧
    (s.players 1).state = .lobby ∧
    ∃ s', SFPlayerLobby.onEnterRoom s 1 1 0 0 = some s' ∧ (s'.players 1).state = .loading ∧
      Member s' 1 0 := by
  have plays : (lateGuest.foldlM SFLogicEntry.processPacket (initServer false [1])).map (fun s =>
      ((s.players 1).state, (SFPlayerLobby.onEnterRoom s 1 1 0 0).map fun s' =>
        ((s'.players 1).state, (s'.rooms 0).observers))) =
      some (.lobby, some (.loading, [0, 1])) := by
    decide +kernel
  obtain ⟨s, result, is⟩ := Option.map_eq_some_iff.mp plays
  simp only [Prod.mk.injEq] at is
  obtain ⟨s', enters, after⟩ := Option.map_eq_some_iff.mp is.2
  simp only [Prod.mk.injEq] at after
  exact ⟨s, .of_foldlM _ _ result, is.1, s', enters, after.1, 0, rfl, by decide, by simp [after.2]⟩

theorem lateGuest_loads : ∃ s, Run Steps (initServer false [1]) lateGuest s ∧
    (s.players 1).state = .lobby ∧ ∃ s', SFPlayerLobby.onEnterRoom s 1 1 0 0 = some s' ∧
      ¬ (Replied s s' 1 1 0 ∧ (s'.players 1).state = .room ↔ Member s' 1 0) := by
  obtain ⟨s, run, lobby, s', enters, loading, member⟩ := lateGuest_enters
  refine ⟨s, run, lobby, s', enters, fun agrees => ?_⟩
  have room := (agrees.mpr member).2
  rw [loading] at room
  contradiction

theorem lateGuest_agrees : ∃ s s', SFPlayerLobby.onEnterRoom s 1 1 0 0 = some s' ∧
    Member s' 1 0 ∧ Replied s s' 1 1 0 ∧ (s'.players 1).state = enteredState s 0 := by
  obtain ⟨s, run, lobby, s', enters, -, member⟩ := lateGuest_enters
  obtain ⟨t, same, replies, -⟩ := enterRoom_agrees run lobby 1 0 0
  obtain rfl := Option.some.inj (enters.symm.trans same)
  exact ⟨s, s', enters, member, replies member⟩

end Cgsf.Proof.Casual
