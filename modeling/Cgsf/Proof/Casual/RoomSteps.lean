import Cgsf.Proof.Casual.Rooms

/-!
# What the room functions do to the server

Entering and leaving change one player and one room; a change of a room's state moves its members
from one in-room state to another.
-/

namespace Cgsf.Proof.Casual
open Cgsf.Casual Cgsf.Casual.SFLogicEntry Library Std

theorem onEnter_cases {s s' : SFLogicEntry} {r : RoomRef} {p : PlayerRef} {entered : Bool}
    (run : SFRoom.onEnter s r p = some (s', entered)) :
    entered = false ∧ s' = s ∨
      entered = true ∧ (s.rooms r).observers.length < maxRoomMember ∧ p ∉ (s.rooms r).observers ∧
        ∃ teamType sent, s' = { s with
          players := Function.update s.players p
            { s.players p with teamType, roomIndex := (s.rooms r).roomIndex }
          rooms := Function.update s.rooms r
            (joined (s.rooms r) p (s.players p).serial teamType)
          sent } := by
  rw [SFRoom.onEnter] at run
  split at run
  · cases run
    exact .inl ⟨rfl, rfl⟩
  · rename_i room
    by_cases already : p ∈ (s.rooms r).observers
    · simp only [SFSubject.addObserver, if_pos already] at run
      cases run
      exact .inl ⟨rfl, rfl⟩
    · simp only [SFSubject.addObserver, if_neg already] at run
      obtain ⟨told, propagated, same⟩ := Option.map_eq_some_iff.mp run
      have sends := propagateMessage_sends propagated
      cases same
      refine .inr ⟨rfl, Nat.not_le.mp room, already, (s.rooms r).selectMyTeam, told.sent, ?_⟩
      rw [sends]
      simp only [SFLogicEntry.modifyRoom, SFLogicEntry.modifyPlayer, SFRoom.addTeamMember,
        SFRoom.addTeamMemberTo, Function.update_self, Function.update_idem]
      rfl

theorem openRoom_spec (s : SFLogicEntry) (r : RoomRef) (p : PlayerRef)
    (empty : (s.rooms r).observers = []) :
    ∃ teamType, SFRoom.openRoom s r p = { s with
      players := Function.update s.players p { s.players p with teamType }
      rooms := Function.update s.rooms r
        { joined (s.rooms r) p (s.players p).serial teamType with roomChief := some p } } := by
  refine ⟨(s.rooms r).selectMyTeam, ?_⟩
  simp only [SFRoom.openRoom, SFLogicEntry.modifyRoom, SFLogicEntry.modifyPlayer,
    SFRoom.addTeamMember, SFRoom.addTeamMemberTo, SFSubject.addObserver, Function.update_self,
    Function.update_idem, empty, List.not_mem_nil, if_false]
  simp only [joined, SFRoom.setTeam, empty]
  rfl

theorem changeTeam_spec (s : SFLogicEntry) (r : RoomRef) (p : PlayerRef) :
    ∃ teamType, teamType ≠ (s.players p).teamType ∧ SFRoom.changeTeam s r p = { s with
      players := Function.update s.players p { s.players p with teamType }
      rooms := Function.update s.rooms r
        (((s.rooms r).setTeam (s.players p).teamType fun members =>
          members.delMember p (s.players p).serial).setTeam teamType fun members =>
            members.addMember p (s.players p).serial) } := by
  cases team : (s.players p).teamType with
  | red =>
      refine ⟨.blue, by decide, ?_⟩
      simp only [SFRoom.changeTeam, SFRoom.addTeamMemberTo, SFRoom.delTeamMember,
        SFLogicEntry.modifyRoom, SFLogicEntry.modifyPlayer, Function.update_self,
        Function.update_idem, team]
  | blue =>
      refine ⟨.red, by decide, ?_⟩
      simp only [SFRoom.changeTeam, SFRoom.addTeamMemberTo, SFRoom.delTeamMember,
        SFLogicEntry.modifyRoom, SFLogicEntry.modifyPlayer, Function.update_self,
        Function.update_idem, team]

/-- `r` went to `state`, and players went from one in-room state to another. -/
structure Within (r : RoomRef) (state : RoomState) (s s' : SFLogicEntry) : Prop where
  same : s' = { s with players := s'.players, rooms := s'.rooms, sent := s'.sent }
  room : ∃ currentGameMode,
    s'.rooms = Function.update s.rooms r { s.rooms r with state, currentGameMode }
  kept : ∀ q, s'.players q = { s.players q with
    state := (s'.players q).state
    loadingComplete := (s'.players q).loadingComplete
    spawnIndex := (s'.players q).spawnIndex }
  moves : ∀ q, (s'.players q).state = (s.players q).state ∨
    inRoom (s.players q).state = true ∧ inRoom (s'.players q).state = true

namespace Within

variable {r : RoomRef} {state state' : RoomState} {a b c s s' : SFLogicEntry}

theorem of_sends (sends : SendsOnly s s') (stays : (s.rooms r).state = state) :
    Within r state s s' := by
  subst stays
  rw [sends]
  exact ⟨rfl, ⟨(s.rooms r).currentGameMode, (Function.update_eq_self r s.rooms).symm⟩,
    fun _ => rfl, fun _ => .inl rfl⟩

theorem refl (stays : (s.rooms r).state = state) : Within r state s s := of_sends rfl stays

theorem of_room (s : SFLogicEntry) (r : RoomRef) (state : RoomState) (mode : Option Int) :
    Within r state s (s.modifyRoom r fun room => { room with state, currentGameMode := mode }) :=
  ⟨rfl, ⟨mode, rfl⟩, fun _ => rfl, fun _ => .inl rfl⟩

theorem trans (first : Within r state a b) (second : Within r state' b c) :
    Within r state' a c where
  same := by
    rw [second.same, first.same]
  room := by
    obtain ⟨mode, rooms⟩ := first.room
    obtain ⟨mode', rooms'⟩ := second.room
    refine ⟨mode', ?_⟩
    rw [rooms', rooms, Function.update_self, Function.update_idem]
  kept := fun q => by rw [second.kept q, first.kept q]
  moves := fun q => by
    rcases first.moves q with same | within <;> rcases second.moves q with same' | within'
    · exact .inl (same'.trans same)
    · exact .inr (same ▸ within')
    · exact .inr (same' ▸ within)
    · exact .inr ⟨within.1, within'.2⟩

theorem inRoom_iff (within : Within r state s s') (q : PlayerRef) :
    inRoom (s'.players q).state = inRoom (s.players q).state := by
  rcases within.moves q with same | ⟨before, after⟩
  · rw [same]
  · rw [before, after]

theorem roomState (within : Within r state s s') : (s'.rooms r).state = state := by
  obtain ⟨mode, rooms⟩ := within.room
  rw [rooms, Function.update_self]

theorem members (within : Within r state s s') (t : TeamType) :
    SFRoom.members s' r t = SFRoom.members s r t := by
  obtain ⟨mode, rooms⟩ := within.room
  rw [SFRoom.members, rooms, Function.update_self]
  rfl

end Within

theorem changeState_within {s s' : SFLogicEntry} {p : PlayerRef} {state : PlayerState}
    (run : SFPlayerFSM.changeState s p state = some s') (before : inRoom (s.players p).state = true)
    (after : inRoom state = true) (r : RoomRef) : Within r (s.rooms r).state s s' := by
  obtain ⟨loadingComplete, sent, rfl⟩ := changeState_spec run
  have stays : lobbyMove s.lobby (s.players p).serial p (s.players p).state state = s.lobby := by
    rw [lobbyMove]
    split
    · rfl
    · have here : (s.players p).state ≠ .lobby := fun old => by
        rw [old] at before
        contradiction
      have there : state ≠ .lobby := fun new => by
        rw [new] at after
        contradiction
      rw [if_neg here, if_neg there]
  refine ⟨by rw [stays], ⟨_, (Function.update_eq_self r s.rooms).symm⟩, fun q => ?_, fun q => ?_⟩
  · by_cases me : q = p
    · subst me
      simp only [Function.update_self]
    · simp only [Function.update_of_ne me]
  · by_cases me : q = p
    · subst me
      simp only [Function.update_self]
      exact .inr ⟨before, after⟩
    · simp only [Function.update_of_ne me]
      exact .inl trivial

theorem changeStates_within {state : PlayerState} (after : inRoom state = true) (r : RoomRef)
    (members : List PlayerRef) (s s' : SFLogicEntry)
    (before : ∀ p ∈ members, inRoom (s.players p).state = true)
    (run : members.foldlM (fun s p => SFPlayerFSM.changeState s p state) s = some s') :
    Within r (s.rooms r).state s s' := by
  induction members generalizing s with
  | nil =>
      obtain rfl := Option.some.inj run
      exact .refl rfl
  | cons p members ih =>
      rw [List.foldlM_cons] at run
      obtain ⟨middle, first, rest⟩ := Option.bind_eq_some_iff.mp run
      have here := changeState_within first (before p List.mem_cons_self) after r
      have later := ih middle (fun q member => by
        rw [here.inRoom_iff q]
        exact before q (List.mem_cons_of_mem p member)) rest
      rw [here.roomState] at later
      exact here.trans later

theorem changePlayerFSM_within {s s' : SFLogicEntry} {r : RoomRef} {state : PlayerState}
    (after : inRoom state = true)
    (before : ∀ t, ∀ p ∈ SFRoom.members s r t, inRoom (s.players p).state = true)
    (run : SFRoom.changePlayerFSM s r state = some s') : Within r (s.rooms r).state s s' := by
  simp only [SFRoom.changePlayerFSM, List.foldlM_cons, List.foldlM_nil] at run
  obtain ⟨middle, first, rest⟩ := Option.bind_eq_some_iff.mp run
  obtain ⟨last, second, done⟩ := Option.bind_eq_some_iff.mp rest
  obtain rfl := Option.some.inj done
  have red := changeStates_within after r _ s middle (before .red) first
  have blue := changeStates_within after r _ middle last (fun p member => by
    rw [red.members] at member
    rw [red.inRoom_iff]
    exact before .blue p member) second
  rw [red.roomState] at blue
  exact red.trans blue

theorem setGameMode_within (s : SFLogicEntry) (r : RoomRef) :
    Within r (s.rooms r).state s (SFRoomFSM.setGameMode s r) := by
  rw [SFRoomFSM.setGameMode]
  split
  · exact .of_room s r (s.rooms r).state _
  · exact .refl rfl

theorem setSpawnIndexes_within (s : SFLogicEntry) (r : RoomRef) :
    Within r (s.rooms r).state s (SFRoomFSM.setSpawnIndexes s r) := by
  rw [SFRoomFSM.setSpawnIndexes]
  generalize ((s.rooms r).roomMemberMap.toList.zipIdx 1) = entries
  induction entries generalizing s with
  | nil => exact .refl rfl
  | cons entry entries ih =>
      have here : Within r (s.rooms r).state s
          (s.modifyPlayer entry.1.2 fun q => { q with spawnIndex := entry.2 }) := by
        refine ⟨rfl, ⟨_, (Function.update_eq_self r s.rooms).symm⟩, fun q => ?_, fun q => .inl ?_⟩
        · by_cases me : q = entry.1.2
          · subst me
            simp only [SFLogicEntry.modifyPlayer, Function.update_self]
          · simp only [SFLogicEntry.modifyPlayer, Function.update_of_ne me]
        · by_cases me : q = entry.1.2
          · subst me
            simp only [SFLogicEntry.modifyPlayer, Function.update_self]
          · simp only [SFLogicEntry.modifyPlayer, Function.update_of_ne me]
      have later := ih (s.modifyPlayer entry.1.2 fun q => { q with spawnIndex := entry.2 })
      exact here.trans later

theorem roomOnLeave_within {s s' : SFLogicEntry} {r : RoomRef}
    (before : ∀ t, ∀ p ∈ SFRoom.members s r t, inRoom (s.players p).state = true)
    (run : SFRoomFSM.onLeave s r = some s') : Within r (s.rooms r).state s s' := by
  rw [SFRoomFSM.onLeave] at run
  split at run
  · obtain ⟨mode, -, run⟩ := Option.bind_eq_some_iff.mp run
    exact changePlayerFSM_within rfl before run
  · obtain rfl := Option.some.inj run
    exact .refl rfl

theorem roomOnEnter_within {s s' : SFLogicEntry} {r : RoomRef}
    (before : ∀ t, ∀ p ∈ SFRoom.members s r t, inRoom (s.players p).state = true)
    (run : SFRoomFSM.onEnter s r = some s') : Within r (s.rooms r).state s s' := by
  have carried {m : SFLogicEntry} (within : Within r (s.rooms r).state s m) (t : TeamType)
      (p : PlayerRef) (member : p ∈ SFRoom.members m r t) : inRoom (m.players p).state = true := by
    rw [within.members] at member
    rw [within.inRoom_iff]
    exact before t p member
  rw [SFRoomFSM.onEnter] at run
  split at run
  · exact changePlayerFSM_within rfl before run
  · have spawned := setSpawnIndexes_within s r
    have moved := changePlayerFSM_within rfl (carried spawned) run
    rw [spawned.roomState] at moved
    exact spawned.trans moved
  · obtain ⟨m, moved, run⟩ := Option.bind_eq_some_iff.mp run
    have chosen := setGameMode_within s r
    have playing := changePlayerFSM_within rfl (carried chosen) moved
    rw [chosen.roomState] at playing
    have entered := chosen.trans playing
    split at run
    · have again := setGameMode_within m r
      rw [entered.roomState] at again
      have both := entered.trans again
      exact both.trans (.of_sends (propagateMessage_sends run) both.roomState)
    · obtain rfl := Option.some.inj run
      exact entered
  · obtain rfl := Option.some.inj run
    exact .refl rfl

theorem roomChangeState_within {s s' : SFLogicEntry} {r : RoomRef} {state : RoomState}
    (before : ∀ t, ∀ p ∈ SFRoom.members s r t, inRoom (s.players p).state = true)
    (run : SFRoomFSM.changeState s r state = some s') : Within r state s s' := by
  rw [SFRoomFSM.changeState] at run
  split at run
  · rename_i already
    obtain rfl := Option.some.inj run
    exact .refl already
  · obtain ⟨left, leaves, enters⟩ := Option.bind_eq_some_iff.mp run
    have leaving := roomOnLeave_within before leaves
    have switched : Within r state s (left.modifyRoom r fun room => { room with state }) :=
      leaving.trans (.of_room left r state (left.rooms r).currentGameMode)
    have entering := roomOnEnter_within (fun t p member => by
      rw [switched.members] at member
      rw [switched.inRoom_iff]
      exact before t p member) enters
    rw [switched.roomState] at entering
    exact switched.trans entering

theorem recallRoom_spec {s s' : SFLogicEntry} {r : RoomRef}
    (before : ∀ t, ∀ p ∈ SFRoom.members s r t, inRoom (s.players p).state = true)
    (run : SFRoomManager.recallRoom s r = some s') :
    ∃ m, Within r .none s m ∧ s' = { m with
      emptyRooms := s.emptyRooms.insertIfNew (s.rooms r).roomIndex r
      activeRooms := s.activeRooms.erase (s.rooms r).roomIndex } := by
  obtain ⟨m, changed, rfl⟩ := Option.map_eq_some_iff.mp run
  have within := roomChangeState_within before changed
  have index : (m.rooms r).roomIndex = (s.rooms r).roomIndex := by
    obtain ⟨mode, rooms⟩ := within.room
    rw [rooms, Function.update_self]
  refine ⟨m, within, ?_⟩
  rw [index, within.same]

/-- The three ways in which a player leaves a room: it was the last one, it was not the chief, or
another member becomes chief. Without a member in its map a room would keep its chief. -/
theorem roomLeave_cases {s s' : SFLogicEntry} {r : RoomRef} {p : PlayerRef} {left : Bool}
    (run : SFRoom.onLeave s r p = some (s', left)) :
    ∃ sent room, room = withdrawn (s.rooms r) p (s.players p).serial (s.players p).teamType ∧
      (room.observers = [] ∧ left = true ∧ SFRoomManager.recallRoom
          { s with rooms := Function.update s.rooms r room, sent } r = some s' ∨
        room.observers ≠ [] ∧ room.roomMemberMap.toList.head? = none ∧ left = false ∨
        room.observers ≠ [] ∧ left = true ∧ ∃ roomChief, s' = { s with
            rooms := Function.update s.rooms r { room with roomChief }, sent } ∧
          (room.roomChief ≠ some p ∧ roomChief = room.roomChief ∨
            ∃ entry, room.roomMemberMap.toList.head? = some entry ∧
              roomChief = some entry.2)) := by
  rw [SFRoom.onLeave] at run
  obtain ⟨told, propagated, finish⟩ := Option.bind_eq_some_iff.mp run
  have sends := propagateMessage_sends propagated
  have players : told.players = s.players := by rw [sends]; rfl
  have gone : SFRoom.delTeamMember told r p = { s with
      rooms := Function.update s.rooms r
        (withdrawn (s.rooms r) p (s.players p).serial (s.players p).teamType)
      sent := told.sent } := by
    rw [sends]
    simp only [SFRoom.delTeamMember, SFLogicEntry.modifyRoom, Function.update_self,
      Function.update_idem]
    rfl
  refine ⟨told.sent, _, rfl, ?_⟩
  simp only [gone, Function.update_self] at finish
  split at finish
  · rename_i nobody
    obtain ⟨recalled, recalls, same⟩ := Option.map_eq_some_iff.mp finish
    cases same
    exact .inl ⟨List.length_eq_zero_iff.mp nobody, rfl, recalls⟩
  · rename_i some_left
    have inside := fun none => some_left (List.length_eq_zero_iff.mpr none)
    split at finish
    · split at finish
      · rename_i headless
        cases finish
        exact .inr (.inl ⟨inside, headless, rfl⟩)
      · rename_i entry head
        cases finish
        refine .inr (.inr ⟨inside, rfl, some entry.2, ?_, .inr ⟨entry, head, rfl⟩⟩)
        simp only [SFLogicEntry.modifyRoom, Function.update_self, Function.update_idem]
    · rename_i other
      cases finish
      exact .inr (.inr ⟨inside, rfl, _, rfl, .inl ⟨other, rfl⟩⟩)

end Cgsf.Proof.Casual
