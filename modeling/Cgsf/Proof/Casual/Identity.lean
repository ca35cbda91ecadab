import Cgsf.Casual.Logins
import Cgsf.Proof.Casual.Acts

/-!
# Names, logins and registries in every event

What each event does to the names of players, to who is logged in, and to the registries that lead
to them.
-/

namespace Cgsf.Proof.Casual
open Cgsf.Casual Cgsf.Casual.SFLogicEntry Library Std

variable {place : PlayerRef → Option RoomRef} {p : PlayerRef} {s s' : SFLogicEntry}

/-- Names and registries stay, and with them who is logged in. -/
structure Keeps (s s' : SFLogicEntry) : Prop where
  same : s' = { s with
    players := s'.players, lobby := s'.lobby, rooms := s'.rooms, emptyRooms := s'.emptyRooms
    activeRooms := s'.activeRooms, sent := s'.sent }
  kept : ∀ q, (s'.players q).serial = (s.players q).serial ∧
    (s'.players q).username = (s.players q).username ∧
    (s'.players q).password = (s.players q).password
  phase : ∀ q, (s'.players q).state = (s.players q).state ∨
    loggedIn (s.players q).state = true ∧ loggedIn (s'.players q).state = true ∧
      ((s'.players q).state = .login → (s.players q).state = .login)

theorem loggedIn_of_inRoom {state : PlayerState} (within : inRoom state = true) :
    loggedIn state = true ∧ state ≠ .login := by
  cases state with
  | none | init | login | lobby => contradiction
  | room | loading | playReady | play | playEnd => exact ⟨rfl, nofun⟩

namespace Keeps

theorem of_sends (sends : SendsOnly s s') : Keeps s s' := by
  rw [sends]
  exact ⟨rfl, fun _ => ⟨rfl, rfl, rfl⟩, fun _ => .inl rfl⟩

theorem refl (s : SFLogicEntry) : Keeps s s := of_sends rfl

/-- A player that is not logged in cannot have been taken along into a room. -/
theorem of_acts (inv : Invariant place s) {leaving : Prop} (reaches : Reaches place p leaving s')
    (acts : Acts p s s') (mine : loggedIn (s.players p).state = true) : Keeps s s' := by
  obtain ⟨place', moved, inv', -⟩ := reaches
  have others (q : PlayerRef) (other : q ≠ p) : place' q = place q := by
    cases moved with
    | stays => rfl
    | enters | leaves => exact Function.update_of_ne other ..
  refine ⟨acts.same, acts.kept, fun q => ?_⟩
  rcases acts.moves q with same | within | ⟨rfl, lobby⟩
  · exact .inl same
  · have after := loggedIn_of_inRoom within
    refine .inr ⟨?_, after.1, fun login => absurd login after.2⟩
    by_cases me : q = p
    · rw [me]
      exact mine
    · have there := (inv'.located q).mp within
      rw [others q me] at there
      exact (loggedIn_of_inRoom ((inv.located q).mpr there)).1
  · rw [lobby]
    exact .inr ⟨mine, rfl, nofun⟩

theorem loggedIn_iff (keeps : Keeps s s') (q : PlayerRef) :
    loggedIn (s'.players q).state = loggedIn (s.players q).state := by
  rcases keeps.phase q with same | ⟨before, after, -⟩
  · rw [same]
  · rw [before, after]

end Keeps

/-- A login only asks the database, everything else that is not ignored comes from a player that is
logged in. -/
theorem Acts.request {r : RoomRef} {packet : Packet} {random : Nat}
    (run : (SFRoomFSM.processUserRequest s r p packet random).map (·.1) = some s') :
    Acts p s s' := by
  obtain ⟨⟨m, accepted⟩, processed, rfl⟩ := Option.map_eq_some_iff.mp run
  exact .processUserRequest processed

theorem Acts.memberRequest {packet : Packet} {random : Nat}
    (run : (match SFRoomManager.getRoom s (s.players p).roomIndex with
      | none => some s
      | some r => (SFRoomFSM.processUserRequest s r p packet random).map (·.1)) = some s') :
    Acts p s s' := by
  split at run
  · obtain rfl := Option.some.inj run
    exact .refl _
  · exact .request run

theorem processPacket_cases (inv : Invariant place s) (settled : Settled s)
    (connection : s.playerMap[(s.players p).serial]? = some p) {packet : Packet} {random : Nat}
    (run : SFPlayerFSM.processPacket s p packet random = some s') :
    (s.players p).state = .init ∧ (∃ username password, packet = .login username password ∧
        s' = SFPlayerInit.onLogin s p username password) ∨
      ((s.players p).state = .init → ∀ username password, packet ≠ .login username password) ∧
        Keeps s s' := by
  have reaches := processPacket_reaches inv settled connection run
  have acts {state : PlayerState} (is : (s.players p).state = state) (logged : loggedIn state = true)
      (never : state ≠ .init) (acts : Acts p s s') :
      ((s.players p).state = .init → ∀ username password, packet ≠ .login username password) ∧
        Keeps s s' := by
    refine ⟨fun init => absurd (is.symm.trans init) never, .of_acts inv reaches acts ?_⟩
    rw [is]
    exact logged
  unfold SFPlayerFSM.processPacket at run
  split at run
  · rename_i username password state
    obtain rfl := Option.some.inj run
    exact .inl ⟨state, username, password, rfl, rfl⟩
  · rename_i state
    exact .inr (acts state rfl (by decide) (.changeState (.inr ⟨rfl, rfl⟩) run))
  · rename_i state
    exact .inr (acts state rfl (by decide) (.enterRoom run))
  · rename_i state
    exact .inr (acts state rfl (by decide) (.createRoom run))
  · rename_i info state
    obtain rfl := Option.some.inj run
    exact .inr (acts state rfl (by decide) (.modifyPlayer s p _ ⟨rfl, rfl, rfl⟩ rfl))
  · rename_i state
    exact .inr (acts state rfl (by decide) (.of_sends (sendRoomPage_sends run)))
  · rename_i state
    exact .inr (acts state rfl (by decide) (.memberRequest run))
  · rename_i state
    exact .inr (acts state rfl (by decide) (.memberRequest run))
  · rename_i state
    exact .inr (acts state rfl (by decide) (.memberRequest run))
  · rename_i state
    exact .inr (acts state rfl (by decide) (.memberRequest run))
  · rename_i state
    exact .inr (acts state rfl (by decide) (.complete run))
  · rename_i state
    obtain ⟨r, -, processed⟩ := Option.bind_eq_some_iff.mp run
    exact .inr (acts state rfl (by decide) (.request processed))
  · rename_i other _ _ _ _ _ _ _ _ _ _
    obtain rfl := Option.some.inj run
    exact .inr ⟨fun init username password is => other username password init is, .refl _⟩

/-- A player that waits for its login is let in when the database knows it and its name is free. -/
theorem processDBResult_cases {result : Int}
    (run : SFPlayerFSM.processDBResult s p result = some s') :
    Keeps s s' ∨ (s.players p).state = .init ∧ result = dbResultStateSuccess ∧
      (s.players p).username ∉ s.playerManager ∧
      ∃ m, ChangesState p .login { s with
        playerManager := s.playerManager.insertIfNew (s.players p).username p } m ∧
        SendsOnly m s' := by
  rw [SFPlayerFSM.processDBResult] at run
  split at run
  · rename_i state
    rw [SFPlayerInit.onDBLogin] at run
    split at run
    · rename_i success
      rw [SFPlayerManager.addPlayer] at run
      split at run
      · rename_i m added
        split at added
        · cases added
        · rename_i free
          cases added
          obtain ⟨logged, moves, rfl⟩ := Option.map_eq_some_iff.mp run
          exact .inr ⟨state, success, free, logged, .of_run moves, sendLoginResult_sends logged p _⟩
      · rename_i m refused
        split at refused
        · cases refused
          obtain rfl := Option.some.inj run
          exact .inl (.of_sends (sendLoginResult_sends s p _))
        · cases refused
    · obtain rfl := Option.some.inj run
      exact .inl (.of_sends (sendLoginResult_sends s p result))
  · obtain rfl := Option.some.inj run
    exact .inl (.refl _)

/-- What a connect does: it takes a player that nobody uses. -/
structure Connects (s : SFLogicEntry) (serial : Int) (s' : SFLogicEntry) : Prop where
  idle : (s.players s.allocPlayer.1).state = .none
  others : ∀ q, q ≠ s.allocPlayer.1 → s'.players q = s.players q
  mine : (s'.players s.allocPlayer.1).state = .init ∧
    (s'.players s.allocPlayer.1).serial = serial ∧
    (s'.players s.allocPlayer.1).username = (s.players s.allocPlayer.1).username
  playerMap : s'.playerMap = s.playerMap.insertIfNew serial s.allocPlayer.1
  playerManager : s'.playerManager = s.playerManager
  dbRequests : s'.dbRequests = s.dbRequests

theorem Connects.of_run (people : People s) {serial : Int}
    (run : s.onConnectPlayer serial = some s') : Connects s serial s' := by
  obtain ⟨p, playerPool, nextPlayer, alloc, idle, -⟩ := allocPlayer_spec people
  rw [SFLogicEntry.onConnectPlayer, alloc] at run
  obtain ⟨m, moves, rfl⟩ := Option.map_eq_some_iff.mp run
  have changes := ChangesState.of_run moves
  obtain rfl : p = s.allocPlayer.1 := by rw [alloc]
  have before : (Function.update s.players s.allocPlayer.1
      { (s.players s.allocPlayer.1).reset with serial }) s.allocPlayer.1 =
        { (s.players s.allocPlayer.1).reset with serial } := Function.update_self ..
  have mine := changes.kept s.allocPlayer.1
  simp only [SFLogicEntry.modifyPlayer, before] at mine
  refine ⟨idle, fun q other => ?_, ⟨changes.mine, ?_, ?_⟩, ?_, ?_, ?_⟩
  · exact (changes.others q other).trans (Function.update_of_ne other ..)
  · change (m.players _).serial = _
    rw [mine]
  · change (m.players _).username = _
    rw [mine]
    rfl
  · change m.playerMap.insertIfNew _ _ = _
    rw [changes.same]
    rfl
  · change m.playerManager = _
    rw [changes.same]
    rfl
  · change m.dbRequests = _
    rw [changes.same]
    rfl

/-- What a disconnect does to the player `p` of the serial. -/
structure Disconnects (p : PlayerRef) (serial : Int) (s s' : SFLogicEntry) : Prop where
  idle : (s'.players p).state = .none
  names : ∀ q, (s'.players q).serial = (s.players q).serial ∧
    (s'.players q).username = (s.players q).username
  phase : ∀ q, q ≠ p → (s'.players q).state = (s.players q).state ∨
    loggedIn (s.players q).state = true ∧ loggedIn (s'.players q).state = true ∧
      ((s'.players q).state = .login → (s.players q).state = .login)
  playerMap : s'.playerMap = s.playerMap.erase serial
  playerManager : s'.playerManager = s.playerManager.erase (s.players p).username
  dbRequests : s'.dbRequests = s.dbRequests

theorem Disconnects.of_run (inv : Invariant place s) (settled : Settled s) {serial : Int}
    (connection : s.playerMap[serial]? = some p) (run : s.onDisconnectPlayer serial = some s') :
    Disconnects p serial s s' := by
  have gone := onDisconnectPlayer_spec inv settled connection run
  simp only [SFLogicEntry.onDisconnectPlayer, connection] at run
  have registered : Invariant place (SFPlayerManager.delPlayer s p) := inv.of_registry _ _
  obtain ⟨m, leaves, finish⟩ := Option.bind_eq_some_iff.mp run
  obtain ⟨idle, moves, rfl⟩ := Option.map_eq_some_iff.mp finish
  have changes := ChangesState.of_run moves
  have keeps : Keeps (SFPlayerManager.delPlayer s p) m := by
    split at leaves
    · rename_i within
      obtain ⟨r, member⟩ := registered.member within
      obtain ⟨r', found, leaves⟩ := Option.bind_eq_some_iff.mp leaves
      obtain rfl := registered.getRoom_member member found
      have left := leaveRoom_left registered settled member leaves
      exact .of_acts registered (left.reaches member) (.leaveRoom leaves)
        (loggedIn_of_inRoom within).1
    · obtain rfl := Option.some.inj leaves
      exact .refl _
  refine ⟨gone.idle, fun q => ?_, fun q other => ?_, ?_, ?_, ?_⟩
  · change (idle.players q).serial = _ ∧ (idle.players q).username = _
    rw [changes.kept q]
    exact ⟨(keeps.kept q).1, (keeps.kept q).2.1⟩
  · change (idle.players q).state = _ ∨ _ ∧ loggedIn (idle.players q).state = true ∧
      ((idle.players q).state = .login → _)
    rw [changes.others q other]
    exact keeps.phase q
  · change idle.playerMap.erase serial = _
    rw [changes.same, keeps.same]
    rfl
  · change idle.playerManager = _
    rw [changes.same, keeps.same]
    rfl
  · change idle.dbRequests = _
    rw [changes.same, keeps.same]
    rfl

end Cgsf.Proof.Casual
