import Cgsf.Proof.Casual.NullPointers
import Cgsf.Proof.Casual.Entering

/-!
# Loading, peers and game modes in every run

What a move of the games keeps under a condition holds in every run whose events meet it.
-/

namespace Cgsf.Proof.Casual
open Cgsf.Casual Cgsf.Casual.SFLogicEntry Library Hall

variable {p2pService : Bool} {gameModes : List Int} {history : List Event} {s : SFLogicEntry}

theorem run_games {I : Hall → Prop} {allowed : Hall → Event → Prop}
    (initial : I (hall (initServer p2pService gameModes)))
    (preserved : ∀ h h' event, h.Seating → h.Phased → I h → allowed h event → Move event h h' →
      I h')
    (run : Run (Guarded (fun s => allowed (hall s)) Steps) (initServer p2pService gameModes)
      history s) : InPhase s ∧ I (hall s) := by
  refine run.invariant (I := fun s => InPhase s ∧ I (hall s))
    ⟨initServer_inPhase p2pService gameModes, initial⟩ ?_
  rintro s event s' ⟨inPhase, holds⟩ ⟨meets, step⟩
  refine ⟨step_inPhase inPhase step, ?_⟩
  obtain ⟨⟨place, inv, settled⟩, phased⟩ := inPhase
  exact preserved _ _ event inv.seating phased holds meets (step_move inv settled phased step)

/-! ## Some games -/

/-- Two players in a room that is loading; the first one has loaded. -/
def halfLoaded : List Event :=
  [.connect 7, .data 7 (.login [97] []) 0, .answer 0 0, .data 7 .enterLobby 0,
    .data 7 (.createRoom 1) 0, .connect 8, .data 8 (.login [98] []) 0, .answer 0 0,
    .data 8 .enterLobby 0, .data 8 (.enterRoom 1 0) 0, .data 7 .loadingStart 0,
    .data 7 .loadingComplete 0]

/-- The player that still loads is disconnected. -/
def lastLoader : List Event := halfLoaded ++ [.disconnect 8]

/-- The guest enters the room that is playing, and loads. -/
def lateLoad : List Event :=
  lateGuest ++ [.data 8 (.enterRoom 1 0) 0, .data 8 .loadingComplete 0]

/-- A room that was opened for a mode that nobody registered is loading. -/
def unknownMode : List Event :=
  [.connect 7, .data 7 (.login [97] []) 0, .answer 0 0, .data 7 .enterLobby 0,
    .data 7 (.createRoom 5) 0, .data 7 .loadingStart 0]

/-- It is played in after a game of a registered mode. -/
def nextGame : List Event :=
  oneGame ++ [.disconnect 7] ++ unknownMode ++ [.data 7 .loadingComplete 0]

/-- How these games go. -/
theorem games_end :
    (halfLoaded.foldlM (fun s event =>
      if (hall s).LeavesLoader event then s.processPacket event else none)
      (initServer false [1])).map (fun s =>
      ((s.rooms 0).state, (s.players 0).loadingComplete)) = some (.loading, true) ∧
    (lastLoader.foldlM SFLogicEntry.processPacket (initServer false [1])).map (fun s =>
      ((s.rooms 0).state, (s.rooms 0).observers, (s.players 0).loadingComplete)) =
      some (.loading, [0], true) ∧
    (oneGame.foldlM (fun s event =>
      if (hall s).LoadsInTime event then s.processPacket event else none)
      (initServer false [1])).map (fun s => (s.rooms 0).state) = some .play ∧
    (lateLoad.foldlM SFLogicEntry.processPacket (initServer false [1])).map (fun s =>
      ((s.rooms 0).observers, (s.players 1).state, (s.players 1).serial,
      decide ((8 : Int) ∈ (s.rooms 0).peerMap))) = some ([0, 1], .play, 8, false) ∧
    (oneGame.foldlM (fun s event =>
      if (hall s).StartsRegistered event then s.processPacket event else none)
      (initServer false [1])).map (fun s => (s.rooms 0).state) = some .play ∧
    (unknownMode.foldlM SFLogicEntry.processPacket (initServer false [1])).map
      (fun s => (s.processPacket (.data 7 .loadingComplete 0)).isSome) = some false ∧
    (nextGame.foldlM SFLogicEntry.processPacket (initServer false [1])).map (fun s =>
      ((s.rooms 0).state, (s.rooms 0).gameMode, (s.rooms 0).currentGameMode)) =
      some (.play, 5, some 1) := by
  decide +kernel

/-! ## Loading -/

theorem run_loadingAlive
    (run : Run (Guarded (fun s => (hall s).LeavesLoader) Steps) (initServer p2pService gameModes)
      history s) : (hall s).LoadingAlive := by
  refine (run_games (I := LoadingAlive) (fun r _ loading => ?_) ?_ run).2
  · cases loading
  · intro h h' event seating phased alive meets move
    exact move_loadingAlive seating alive meets move

theorem halfLoaded_alive : ∃ s, (s.rooms 0).state = .loading ∧
    (s.players 0).loadingComplete = true ∧ (hall s).LoadingAlive := by
  have plays := games_end.1
  obtain ⟨s, result, is⟩ := Option.map_eq_some_iff.mp plays
  exact ⟨s, congrArg Prod.fst is, congrArg Prod.snd is,
    run_loadingAlive (.guarded_of_foldlM (fun s => (hall s).LeavesLoader) _ _ result)⟩

/-- The room then waits for nobody. -/
theorem lastLoader_stalls : ∃ s, Run Steps (initServer false [1]) lastLoader s ∧
    ¬(hall s).LoadingAlive := by
  have plays := games_end.2.1
  obtain ⟨s, result, is⟩ := Option.map_eq_some_iff.mp plays
  simp only [Prod.mk.injEq] at is
  refine ⟨s, .of_foldlM _ _ result, fun alive => ?_⟩
  obtain ⟨p, member, loads⟩ := alive 0 (by decide) is.1
  have only : p ∈ (s.rooms 0).observers := member
  rw [is.2.1, List.mem_singleton] at only
  have flag : (s.players p).loadingComplete = false := loads
  rw [only, is.2.2] at flag
  cases flag

/-! ## Peers -/

theorem run_peersLoaded
    (run : Run (Guarded (fun s => (hall s).LoadsInTime) Steps) (initServer p2pService gameModes)
      history s) : (hall s).PeersLoaded := by
  refine (run_games (I := PeersLoaded) (fun r _ k => ?_) ?_ run).2
  · refine iff_of_false (fun listed => ?_) ?_
    · exact absurd listed Std.TreeMap.not_mem_emptyc
    · rintro ⟨p, member, -⟩
      cases member
  · intro h h' event seating phased peers meets move
    exact move_peersLoaded seating phased peers meets move

theorem oneGame_peers : ∃ s, (s.rooms 0).state = .play ∧ (hall s).PeersLoaded := by
  have plays := games_end.2.2.1
  obtain ⟨s, result, is⟩ := Option.map_eq_some_iff.mp plays
  exact ⟨s, is, run_peersLoaded (.guarded_of_foldlM (fun s => (hall s).LoadsInTime) _ _ result)⟩

theorem lateLoad_unlisted : ∃ s, Run Steps (initServer false [1]) lateLoad s ∧
    ¬(hall s).PeersLoaded := by
  have plays := games_end.2.2.2.1
  obtain ⟨s, result, is⟩ := Option.map_eq_some_iff.mp plays
  simp only [Prod.mk.injEq] at is
  refine ⟨s, .of_foldlM _ _ result, fun peers => ?_⟩
  have member : 1 ∈ (s.rooms 0).observers := by simp [is.1]
  have listed : (8 : Int) ∈ (s.rooms 0).peerMap :=
    (peers 0 (by decide) 8).mpr ⟨1, member, is.2.2.1, .inl is.2.1⟩
  exact absurd listed (of_decide_eq_false is.2.2.2)

/-! ## Game modes -/

/-- The rooms in play have their modes, and no event meets a null pointer. -/
theorem run_modesValid
    (run : Run (Guarded (fun s => (hall s).StartsRegistered) Steps)
      (initServer p2pService gameModes) history s) :
    (hall s).ModesValid ∧ ∀ event, s.Possible event → (hall s).StartsRegistered event →
      ∃ s', s.Steps event s' ∧ (hall s').ModesValid := by
  obtain ⟨inPhase, valid⟩ := run_games (I := ModesValid) (fun r _ plays => by cases plays)
    (fun h h' event seating phased valid meets move =>
      move_modesValid seating valid meets move) run
  refine ⟨valid, fun event possible meets => ?_⟩
  obtain ⟨s', step⟩ := step_total inPhase valid possible meets
  obtain ⟨⟨place, inv, settled⟩, phased⟩ := inPhase
  exact ⟨s', step, move_modesValid inv.seating valid meets (step_move inv settled phased step)⟩

theorem oneGame_modes : ∃ s, (s.rooms 0).state = .play ∧ (hall s).ModesValid ∧
    ∃ s', s.Steps (.disconnect 7) s' ∧ (hall s').ModesValid := by
  have plays := games_end.2.2.2.2.1
  obtain ⟨s, result, is⟩ := Option.map_eq_some_iff.mp plays
  obtain ⟨valid, goes⟩ :=
    run_modesValid (.guarded_of_foldlM (fun s => (hall s).StartsRegistered) _ _ result)
  exact ⟨s, is, valid, goes (.disconnect 7) trivial fun p asked => by cases asked⟩

/-- In a new room the game mode is a null pointer, in one that was played in it is the mode of the
earlier game. -/
theorem unknownMode_plays :
    (∃ s, Run Steps (initServer false [1]) unknownMode s ∧
      s.Possible (.data 7 .loadingComplete 0) ∧ ¬∃ s', s.Steps (.data 7 .loadingComplete 0) s') ∧
    ∃ s, Run Steps (initServer false [1]) nextGame s ∧ ¬(hall s).ModesValid := by
  constructor
  · have plays := games_end.2.2.2.2.2.1
    obtain ⟨s, result, stuck⟩ := Option.map_eq_some_iff.mp plays
    refine ⟨s, .of_foldlM _ _ result, trivial, ?_⟩
    rintro ⟨s', step⟩
    rw [step] at stuck
    cases stuck
  · have plays := games_end.2.2.2.2.2.2
    obtain ⟨s, result, is⟩ := Option.map_eq_some_iff.mp plays
    simp only [Prod.mk.injEq] at is
    refine ⟨s, .of_foldlM _ _ result, fun valid => ?_⟩
    have mode : (s.rooms 0).currentGameMode = some (s.rooms 0).gameMode :=
      (valid 0 (by decide) is.1).1
    rw [is.2.1, is.2.2] at mode
    exact absurd (Option.some.inj mode) (by decide)

end Cgsf.Proof.Casual
