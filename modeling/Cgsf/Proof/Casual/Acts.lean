import Cgsf.Proof.Casual.Events

/-!
# What the packets of a player leave alone

Apart from a login, a packet changes no name and no registry. It takes its own player to the lobby or
into a room, and others at most from one state to one inside a room.
-/

namespace Cgsf.Proof.Casual
open Cgsf.Casual Cgsf.Casual.SFLogicEntry Library Std

structure Acts (p : PlayerRef) (s s' : SFLogicEntry) : Prop where
  same : s' = { s with
    players := s'.players, lobby := s'.lobby, rooms := s'.rooms, emptyRooms := s'.emptyRooms
    activeRooms := s'.activeRooms, sent := s'.sent }
  kept : ∀ q, (s'.players q).serial = (s.players q).serial ∧
    (s'.players q).username = (s.players q).username ∧
    (s'.players q).password = (s.players q).password
  moves : ∀ q, (s'.players q).state = (s.players q).state ∨
    inRoom (s'.players q).state = true ∨ q = p ∧ (s'.players q).state = .lobby

namespace Acts

variable {p : PlayerRef} {a b c s s' : SFLogicEntry}

theorem of_containers (same : s' = { s with
    lobby := s'.lobby, rooms := s'.rooms, emptyRooms := s'.emptyRooms
    activeRooms := s'.activeRooms, sent := s'.sent }) : Acts p s s' := by
  rw [same]
  exact ⟨rfl, fun _ => ⟨rfl, rfl, rfl⟩, fun _ => .inl rfl⟩

theorem of_sends (sends : SendsOnly s s') : Acts p s s' := of_containers (by rw [sends])

theorem refl (s : SFLogicEntry) : Acts p s s := of_sends rfl

theorem trans (first : Acts p a b) (second : Acts p b c) : Acts p a c where
  same := by
    rw [second.same, first.same]
  kept := fun q =>
    ⟨(second.kept q).1.trans (first.kept q).1, (second.kept q).2.1.trans (first.kept q).2.1,
      (second.kept q).2.2.trans (first.kept q).2.2⟩
  moves := fun q => by
    rcases second.moves q with same | moved
    · rw [same]
      exact first.moves q
    · exact .inr moved

theorem modifyRoom (s : SFLogicEntry) (r : RoomRef) (f : SFRoom → SFRoom) :
    Acts p s (s.modifyRoom r f) := of_containers rfl

theorem modifyPlayer (s : SFLogicEntry) (q : PlayerRef) (f : SFPlayer → SFPlayer)
    (kept : (f (s.players q)).serial = (s.players q).serial ∧
      (f (s.players q)).username = (s.players q).username ∧
      (f (s.players q)).password = (s.players q).password)
    (state : (f (s.players q)).state = (s.players q).state) : Acts p s (s.modifyPlayer q f) := by
  refine ⟨rfl, fun k => ?_, fun k => .inl ?_⟩
  all_goals
    simp only [SFLogicEntry.modifyPlayer]
    by_cases here : k = q
    · subst here
      simp only [Function.update_self]
      assumption
    · simp only [Function.update_of_ne here, and_self]

theorem changeState {q : PlayerRef} {state : PlayerState}
    (allowed : inRoom state = true ∨ q = p ∧ state = .lobby)
    (run : SFPlayerFSM.changeState s q state = some s') : Acts p s s' := by
  have changes := ChangesState.of_run run
  refine ⟨?_, fun k => ?_, fun k => ?_⟩
  · rw [changes.same]
  · rw [changes.kept k]
    exact ⟨rfl, rfl, rfl⟩
  · by_cases here : k = q
    · subst here
      rw [changes.mine]
      exact .inr (allowed.imp_right fun both => both)
    · rw [changes.others k here]
      exact .inl rfl

theorem foldlM {α : Type} (f : SFLogicEntry → α → Option SFLogicEntry) (xs : List α)
    (each : ∀ s x s', f s x = some s' → Acts p s s') (s s' : SFLogicEntry)
    (run : xs.foldlM f s = some s') : Acts p s s' := by
  induction xs generalizing s with
  | nil =>
      obtain rfl := Option.some.inj run
      exact refl _
  | cons x xs ih =>
      rw [List.foldlM_cons] at run
      obtain ⟨middle, first, rest⟩ := Option.bind_eq_some_iff.mp run
      exact (each s x middle first).trans (ih middle rest)

theorem foldl {α : Type} (f : SFLogicEntry → α → SFLogicEntry) (xs : List α)
    (each : ∀ s x, Acts p s (f s x)) (s : SFLogicEntry) : Acts p s (xs.foldl f s) := by
  induction xs generalizing s with
  | nil => exact refl s
  | cons x xs ih => exact (each s x).trans (ih _)

theorem changePlayerFSM {r : RoomRef} {state : PlayerState} (within : inRoom state = true)
    (run : SFRoom.changePlayerFSM s r state = some s') : Acts p s s' :=
  foldlM _ _ (fun _ _ _ team => foldlM _ _ (fun _ _ _ => changeState (.inl within)) _ _ team) _ _ run

theorem setGameMode (s : SFLogicEntry) (r : RoomRef) : Acts p s (SFRoomFSM.setGameMode s r) := by
  rw [SFRoomFSM.setGameMode]
  split
  · exact modifyRoom s r _
  · exact refl s

theorem roomOnLeave {r : RoomRef} (run : SFRoomFSM.onLeave s r = some s') : Acts p s s' := by
  rw [SFRoomFSM.onLeave] at run
  split at run
  · obtain ⟨mode, -, run⟩ := Option.bind_eq_some_iff.mp run
    exact changePlayerFSM rfl run
  · obtain rfl := Option.some.inj run
    exact refl _

theorem roomOnEnter {r : RoomRef} (run : SFRoomFSM.onEnter s r = some s') : Acts p s s' := by
  rw [SFRoomFSM.onEnter] at run
  split at run
  · exact changePlayerFSM rfl run
  · have spawned : Acts p s (SFRoomFSM.setSpawnIndexes s r) :=
      foldl _ _ (fun s _ => modifyPlayer s _ _ ⟨rfl, rfl, rfl⟩ rfl) s
    exact spawned.trans (changePlayerFSM rfl run)
  · obtain ⟨m, moved, run⟩ := Option.bind_eq_some_iff.mp run
    have playing : Acts p s m := (setGameMode s r).trans (changePlayerFSM rfl moved)
    split at run
    · exact (playing.trans (setGameMode m r)).trans (of_sends (propagateMessage_sends run))
    · obtain rfl := Option.some.inj run
      exact playing
  · obtain rfl := Option.some.inj run
    exact refl _

theorem roomChangeState {r : RoomRef} {state : RoomState}
    (run : SFRoomFSM.changeState s r state = some s') : Acts p s s' := by
  rw [SFRoomFSM.changeState] at run
  split at run
  · obtain rfl := Option.some.inj run
    exact refl _
  · obtain ⟨left, leaves, enters⟩ := Option.bind_eq_some_iff.mp run
    exact ((roomOnLeave leaves).trans (modifyRoom left r _)).trans (roomOnEnter enters)

theorem recallRoom {r : RoomRef} (run : SFRoomManager.recallRoom s r = some s') :
    Acts p s s' := by
  obtain ⟨m, changed, rfl⟩ := Option.map_eq_some_iff.mp run
  exact (roomChangeState changed).trans (of_containers rfl)

theorem addTeamMemberTo (s : SFLogicEntry) (r : RoomRef) (q : PlayerRef) (team : TeamType) :
    Acts p s (SFRoom.addTeamMemberTo s r q team) :=
  (modifyPlayer s q _ ⟨rfl, rfl, rfl⟩ rfl).trans (modifyRoom _ r _)

theorem addTeamMember (s : SFLogicEntry) (r : RoomRef) (q : PlayerRef) :
    Acts p s (SFRoom.addTeamMember s r q) := addTeamMemberTo s r q _

theorem openRoom (s : SFLogicEntry) (r : RoomRef) (q : PlayerRef) :
    Acts p s (SFRoom.openRoom s r q) := by
  rw [SFRoom.openRoom]
  exact ((modifyRoom s r _).trans (addTeamMember _ r q)).trans (modifyRoom _ r _)

theorem changeTeam (s : SFLogicEntry) (r : RoomRef) (q : PlayerRef) :
    Acts p s (SFRoom.changeTeam s r q) :=
  (modifyRoom s r _).trans (addTeamMemberTo _ r q _)

theorem roomEnter {r : RoomRef} {q : PlayerRef} {entered : Bool}
    (run : SFRoom.onEnter s r q = some (s', entered)) : Acts p s s' := by
  rcases onEnter_cases run with ⟨-, rfl⟩ | ⟨-, -, -, teamType, sent, rfl⟩
  · exact refl s'
  · exact (modifyPlayer s q (fun player =>
      { player with teamType, roomIndex := (s.rooms r).roomIndex }) ⟨rfl, rfl, rfl⟩ rfl).trans
        (of_containers rfl)

theorem roomLeave {r : RoomRef} {q : PlayerRef} {left : Bool}
    (run : SFRoom.onLeave s r q = some (s', left)) : Acts p s s' := by
  rw [SFRoom.onLeave] at run
  obtain ⟨told, propagated, finish⟩ := Option.bind_eq_some_iff.mp run
  have gone : Acts p s (SFRoom.delTeamMember told r q) :=
    ((modifyRoom s r _).trans (of_sends (propagateMessage_sends propagated))).trans
      (modifyRoom told r _)
  dsimp only at finish
  split at finish
  · obtain ⟨recalled, recalls, same⟩ := Option.map_eq_some_iff.mp finish
    cases same
    exact gone.trans (recallRoom recalls)
  · split at finish
    · split at finish
      · cases finish
        exact gone
      · cases finish
        exact gone.trans (modifyRoom _ r _)
    · cases finish
      exact gone

theorem waitLeave {r : RoomRef} (run : SFRoomWait.onLeaveRoom s r p = some s') : Acts p s s' := by
  obtain ⟨⟨m, left⟩, leave, finish⟩ := Option.bind_eq_some_iff.mp run
  cases left with
  | false =>
      obtain rfl := Option.some.inj finish
      exact roomLeave leave
  | true =>
      obtain ⟨lobbied, moves, rfl⟩ := Option.map_eq_some_iff.mp finish
      exact ((roomLeave leave).trans (changeState (.inr ⟨rfl, rfl⟩) moves)).trans
        (of_sends (.sendToClient lobbied p _))

theorem loadingLeave {r : RoomRef} (run : SFRoomLoading.onLeaveRoom s r p = some s') :
    Acts p s s' := by
  obtain ⟨⟨m, left⟩, leave, finish⟩ := Option.bind_eq_some_iff.mp run
  cases left with
  | false =>
      obtain rfl := Option.some.inj finish
      exact roomLeave leave
  | true =>
      obtain ⟨a, destroyed, finish⟩ := Option.bind_eq_some_iff.mp finish
      obtain ⟨b, deleted, finish⟩ := Option.bind_eq_some_iff.mp finish
      obtain ⟨lobbied, moves, rfl⟩ := Option.map_eq_some_iff.mp finish
      have told := (propagateMessage_sends destroyed).trans (propagateMessage_sends deleted)
      have gone : Acts p s b := (roomLeave leave).trans (of_sends told)
      exact ((gone.trans (modifyRoom b r _)).trans (changeState (.inr ⟨rfl, rfl⟩) moves)).trans
        (of_sends (.sendToClient lobbied p _))

theorem leaveRoom {r : RoomRef} (run : SFRoomFSM.onLeaveRoom s r p = some s') : Acts p s s' := by
  rw [SFRoomFSM.onLeaveRoom] at run
  split at run
  · exact waitLeave run
  · exact loadingLeave run
  · exact loadingLeave run
  · obtain rfl := Option.some.inj run
    exact refl _

theorem waitEnter {r : RoomRef} (run : SFRoomWait.onEnterRoom s r p = some s') : Acts p s s' := by
  obtain ⟨⟨m, entered⟩, enters, finish⟩ := Option.bind_eq_some_iff.mp run
  cases entered with
  | false =>
      obtain rfl := Option.some.inj finish
      exact roomEnter enters
  | true => exact (roomEnter enters).trans (changeState (.inl rfl) finish)

theorem playEnter {r : RoomRef} {random : Nat}
    (run : SFRoomPlay.onEnterRoom s r p random = some s') : Acts p s s' := by
  obtain ⟨⟨m, entered⟩, enters, finish⟩ := Option.bind_eq_some_iff.mp run
  cases entered with
  | false =>
      obtain rfl := Option.some.inj finish
      exact roomEnter enters
  | true =>
      exact ((roomEnter enters).trans (modifyPlayer m p _ ⟨rfl, rfl, rfl⟩ rfl)).trans
        (changeState (.inl rfl) finish)

theorem loadingStart {r : RoomRef} (run : SFRoomWait.onLoadingStart s r p = some s') :
    Acts p s s' := by
  rw [SFRoomWait.onLoadingStart] at run
  split at run
  · obtain rfl := Option.some.inj run
    exact refl _
  · split at run
    · obtain rfl := Option.some.inj run
      exact refl _
    · exact roomChangeState run

theorem loadingComplete {r : RoomRef} (run : SFRoomLoading.onLoadingComplete s r p = some s') :
    Acts p s s' := by
  rw [SFRoomLoading.onLoadingComplete] at run
  split at run
  · obtain rfl := Option.some.inj run
    exact modifyRoom s r _
  · obtain ⟨m, ready, plays⟩ := Option.bind_eq_some_iff.mp run
    exact ((modifyRoom s r _).trans (roomChangeState ready)).trans (roomChangeState plays)

theorem playLoadingComplete {r : RoomRef} (run : SFRoomPlay.onLoadingComplete s r p = some s') :
    Acts p s s' := by
  obtain ⟨m, told, moves⟩ : ∃ m, SendsOnly s m ∧ SFPlayerFSM.changeState m p .play = some s' :=
    ⟨_, SendsOnly.foldl _ _ (fun m _ => .sendToClient m _ _) s, run⟩
  exact (of_sends told).trans (changeState (.inl rfl) moves)

theorem processUserRequest {r : RoomRef} {packet : Packet} {random : Nat} {accepted : Bool}
    (run : SFRoomFSM.processUserRequest s r p packet random = some (s', accepted)) :
    Acts p s s' := by
  unfold SFRoomFSM.processUserRequest at run
  split at run
  · split at run
    · cases run
      exact changeTeam s r p
    · obtain ⟨m, starts, finish⟩ := Option.map_eq_some_iff.mp run
      cases finish
      exact loadingStart starts
    · cases run
      exact of_sends (onChat_sends s r p _)
    · obtain ⟨m, enters, finish⟩ := Option.map_eq_some_iff.mp run
      cases finish
      exact waitEnter enters
    · obtain ⟨m, leaves, finish⟩ := Option.map_eq_some_iff.mp run
      cases finish
      exact waitLeave leaves
    · cases run
      exact refl s
  · split at run
    · obtain ⟨m, completes, finish⟩ := Option.map_eq_some_iff.mp run
      cases finish
      exact loadingComplete completes
    · cases run
      exact refl s
  · cases run
    exact refl s
  · split at run
    · obtain ⟨m, completes, finish⟩ := Option.map_eq_some_iff.mp run
      cases finish
      exact playLoadingComplete completes
    · obtain ⟨m, enters, finish⟩ := Option.map_eq_some_iff.mp run
      cases finish
      exact playEnter enters
    · obtain ⟨m, leaves, finish⟩ := Option.map_eq_some_iff.mp run
      cases finish
      exact loadingLeave leaves
    · obtain ⟨-, -, finish⟩ := Option.map_eq_some_iff.mp run
      cases finish
      exact refl s
  · cases run
    exact refl s

theorem enterRoom {gameMode roomIndex : Int} {random : Nat}
    (run : SFPlayerLobby.onEnterRoom s p gameMode roomIndex random = some s') : Acts p s s' := by
  rw [SFPlayerLobby.onEnterRoom] at run
  split at run
  · obtain rfl := Option.some.inj run
    exact refl _
  · split at run
    · obtain rfl := Option.some.inj run
      exact refl _
    · obtain ⟨⟨m, accepted⟩, processed, finish⟩ := Option.map_eq_some_iff.mp run
      cases accepted with
      | false =>
          obtain rfl := finish
          exact processUserRequest processed
      | true =>
          obtain rfl := finish
          exact (processUserRequest processed).trans
            (of_sends ((SendsOnly.sendToClient m p _).trans (.sendToClient _ p _)))

theorem createRoom {gameMode : Int} (run : SFPlayerLobby.onCreateRoom s p gameMode = some s') :
    Acts p s s' := by
  rw [SFPlayerLobby.onCreateRoom] at run
  split at run
  · obtain rfl := Option.some.inj run
    exact refl _
  · obtain ⟨⟨m, created⟩, creates, finish⟩ := Option.bind_eq_some_iff.mp run
    have opened : Acts p s m := by
      rw [SFRoomManager.onCreateRoom] at creates
      split at creates
      · cases creates
        exact refl s
      · rename_i r taken found
        obtain ⟨⟨index, r'⟩, -, same⟩ := Option.map_eq_some_iff.mp found
        cases same
        obtain ⟨n, waits, finish⟩ := Option.map_eq_some_iff.mp creates
        cases finish
        have erased : Acts p s { s with emptyRooms := s.emptyRooms.erase index } :=
          of_containers rfl
        have waiting := (erased.trans (openRoom _ r p)).trans (roomChangeState waits)
        exact (waiting.trans ((modifyPlayer n p _ ⟨rfl, rfl, rfl⟩ rfl).trans
          (modifyRoom _ r _))).trans (of_containers rfl)
    cases created with
    | false =>
        obtain rfl := Option.some.inj finish
        exact opened
    | true =>
        obtain ⟨entered, moves, rfl⟩ := Option.map_eq_some_iff.mp finish
        exact (opened.trans (changeState (.inl rfl) moves)).trans
          (of_sends (.sendToClient entered p _))

theorem complete {random : Nat}
    (run : SFPlayerLoading.onLoadingComplete s p random = some s') : Acts p s s' := by
  obtain ⟨r, -, run⟩ := Option.bind_eq_some_iff.mp run
  dsimp only at run
  obtain ⟨⟨m, accepted⟩, processed, rfl⟩ := Option.map_eq_some_iff.mp run
  exact (modifyPlayer s p _ ⟨rfl, rfl, rfl⟩ rfl).trans (processUserRequest processed)

end Acts

end Cgsf.Proof.Casual
