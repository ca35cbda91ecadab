import Cgsf.SevenGameServer.SGServer
import Cgsf.Proof.Casual.Connections
import Cgsf.Proof.Casual.Playing
import Cgsf.Proof.SevenGameServer.SGBattle

/-!
# The users of a battle and the members of its room

A battle keeps its users, and its room keeps their serials as long as nobody comes or goes.
-/

namespace Cgsf.Proof.SevenGameServer
open Cgsf.SevenGameServer SGServer Library Std
open Cgsf.Casual (SFLogicEntry RoomRef PlayerRef maxRoomCount maxRoomMember hall)

/-! ## The users of a battle -/

section Users

variable {m m' : SGManager} {b b' : SGBattle} {id : Int} {tickCount : UInt32}

def ids (m : SGManager) : List Int := m.m_userlist.map SGUser.m_iUserID

theorem ids_edit {change : SGUser → SGUser}
    (kept : ∀ pUser, (change pUser).m_iUserID = pUser.m_iUserID) :
    ids (m.edit id change) = ids m := by
  rw [ids, SGManager.edit, List.map_map]
  refine List.map_congr_left fun pUser _ => ?_
  rw [Function.comp_apply]
  split
  · exact kept pUser
  · rfl

theorem ids_evaluateUser {answer : Int} (result : m.evaluateUser id = some (answer, m')) :
    ids m' = ids m := by
  obtain ⟨pUser, -, is⟩ := Option.map_eq_some_iff.mp result
  split_ifs at is
  · cases is
    exact ids_edit fun _ => rfl
  · cases is
    exact ids_edit fun _ => rfl
  · cases is
    rfl

theorem endTurn_userIDs (result : b.endTurn m id tickCount = some b') : b'.userIDs = ids m := by
  obtain ⟨⟨answer, m₂⟩, evaluated, -⟩ := Option.bind_eq_some_iff.mp result
  have kept := ids_evaluateUser evaluated
  rw [SGBattle.userIDs, endTurn_manager evaluated result]
  exact kept

theorem processTurnPass_userIDs (result : b.processTurnPass id tickCount = some b') :
    b'.userIDs = b.userIDs := by
  obtain ⟨⟨bRet, m⟩, passed, result⟩ := Option.bind_eq_some_iff.mp result
  obtain ⟨pUser, -, is⟩ := Option.map_eq_some_iff.mp passed
  split_ifs at is
  · cases is
    obtain rfl := Option.some.inj result
    rfl
  · cases is
    rw [endTurn_userIDs result]
    exact ids_edit fun _ => rfl

theorem ids_processCardSubmit {iCardType iCardNum : Int} {card : Option SCardInfo}
    (result : m.processCardSubmit id iCardType iCardNum = some (card, m')) : ids m' = ids m := by
  rw [SGManager.processCardSubmit] at result
  split at result
  · cases result
    rfl
  · split at result
    · obtain ⟨pUser, -, is⟩ := Option.map_eq_some_iff.mp result
      dsimp only at is
      split_ifs at is
      · cases is
        rfl
      · cases is
        exact ids_edit fun _ => rfl
      · cases is
        rfl
    · cases result
      rfl

theorem onCardSubmit_userIDs {serial cardtype cardnum : Int}
    (result : b.onCardSubmit serial cardtype cardnum tickCount = some b') :
    b'.userIDs = b.userIDs := by
  rw [SGBattle.onCardSubmit] at result
  split at result
  · obtain rfl := Option.some.inj result
    rfl
  · obtain ⟨⟨card, m⟩, submitted, result⟩ := Option.bind_eq_some_iff.mp result
    cases card with
    | none =>
        obtain rfl := Option.some.inj result
        rfl
    | some info =>
        have kept := ids_processCardSubmit submitted
        exact (endTurn_userIDs result).trans kept

theorem updateAI_userIDs {playerID : Int} (result : b.updateAI playerID tickCount = some b') :
    b'.userIDs = b.userIDs := by
  obtain ⟨pBot, -, result⟩ := Option.bind_eq_some_iff.mp result
  obtain ⟨⟨card, m⟩, chosen, result⟩ := Option.bind_eq_some_iff.mp result
  have kept : ids m = b.userIDs := by
    rw [SGManager.processAI] at chosen
    split at chosen
    · cases chosen
      exact ids_edit fun _ => rfl
    · cases chosen
    · cases chosen
      exact ids_edit fun _ => rfl
  cases card with
  | none => exact (endTurn_userIDs result).trans kept
  | some info => exact (endTurn_userIDs result).trans kept

theorem ids_initializeData (m : SGManager) (d : Distribution) :
    ids (m.initializeData d) = ids m := by
  rw [ids, SGManager.initializeData, SGManager.findSevenAndEliminate, List.map_map]
  exact ids_distribute _ _ _ _

theorem ids_addUsers (userSerials : List Int) : ids (.addUsers userSerials) = userSerials := by
  rw [ids, SGManager.addUsers, List.map_map]
  exact List.map_id _

theorem resets_userIDs (resets : SGBattle.Resets b tickCount b') :
    b'.userIDs.Perm b.userIDs := by
  obtain ⟨stack, history, d, userlist, -, -, shuffled, result⟩ := resets
  obtain ⟨pUser, -, result⟩ := Option.bind_eq_some_iff.mp result
  obtain ⟨-, -, rfl⟩ := Option.map_eq_some_iff.mp result
  exact (shuffled.map SGUser.m_iUserID).trans (.of_eq (ids_initializeData _ d))

/-- A game shuffles its users and keeps them. -/
theorem step_userIDs {event : SGBattle.Event} (step : SGBattle.Steps b event b') :
    b'.userIDs.Perm b.userIDs := by
  cases event with
  | turnPass serial tickCount =>
      rw [SGBattle.Steps, SGBattle.onTurnPass] at step
      split at step
      · obtain rfl := Option.some.inj step
        exact .refl _
      · exact .of_eq (processTurnPass_userIDs step)
  | cardSubmit serial cardtype cardnum tickCount => exact .of_eq (onCardSubmit_userIDs step)
  | update tickCount =>
      cases state : b.m_nGameState with
      | sgGamePlay =>
          simp only [SGBattle.Steps, state, SGBattle.updatePlay] at step
          split_ifs at step
          · exact .of_eq (updateAI_userIDs step)
          · obtain rfl := Option.some.inj step
            exact .refl _
          · exact .of_eq (processTurnPass_userIDs step)
          · obtain rfl := Option.some.inj step
            exact .refl _
      | sgGameOver =>
          simp only [SGBattle.Steps, state] at step
          split at step
          · have resets : SGBattle.Resets { b with m_nGameState := .sgGamePlay } tickCount b' :=
              step
            have kept := resets_userIDs resets
            exact kept
          · rw [step]

theorem enters_userIDs {memberSerials : List Int}
    (enters : SGBattle.Enters memberSerials tickCount b) :
    b.userIDs.Perm (SGBattle.rosterSerials memberSerials) := by
  exact (resets_userIDs enters).trans (.of_eq (ids_addUsers _))

theorem mem_rosterSerials {memberSerials : List Int} {k : Int} (positive : 0 < k) :
    k ∈ SGBattle.rosterSerials memberSerials ↔ k ∈ memberSerials := by
  rw [SGBattle.rosterSerials, List.mem_append]
  refine or_iff_left fun bot => ?_
  obtain ⟨i, -, rfl⟩ := List.mem_map.mp bot
  omega

end Users

/-! ## The rooms of the battles -/

section Rooms

open Cgsf.Proof.Casual (Invariant Settled InPhase Good Seats Plays Connects)

variable {place : PlayerRef → Option RoomRef} {s s' : SFLogicEntry} {r : RoomRef}

/-- The member map has the serials of the observers. -/
theorem mem_roomMemberMap (inv : Invariant place s) (inside : r < maxRoomCount) (k : Int) :
    k ∈ (s.rooms r).roomMemberMap ↔ Seats (hall s) r k := by
  have all := (inv.held.rooms r inside).all
  rw [all.lists.mem_iff k]
  exact exists_congr fun p => and_congr_left fun _ => (all.mem p).symm

theorem mem_memberSerials (inv : Invariant place s) (inside : r < maxRoomCount) (k : Int) :
    k ∈ memberSerials s r ↔ k ∈ (s.rooms r).roomMemberMap := by
  have all := (inv.held.rooms r inside).all
  rw [all.lists.mem_iff k, memberSerials, List.mem_map]
  constructor
  · rintro ⟨⟨k', p⟩, listed, serial⟩
    exact ⟨p, ((all.lists k' p).mp (TreeMap.mem_toList_iff_getElem?_eq_some.mp listed)).1, serial⟩
  · rintro ⟨p, member, serial⟩
    exact ⟨(k, p), TreeMap.mem_toList_iff_getElem?_eq_some.mpr
      ((all.lists k p).mpr ⟨member, serial⟩), serial⟩

/-- The serials of all connections are positive. -/
def Positive (s : SFLogicEntry) : Prop := ∀ k ∈ s.playerMap, 0 < k

theorem step_positive (good : Good s) (positive : Positive s) {event : Casual.Event}
    (numbered : Numbered event) (step : s.Steps event s') : Positive s' := by
  intro k there
  by_cases connect : ∃ serial, event = .connect serial
  · obtain ⟨serial, rfl⟩ := connect
    obtain ⟨place, inv, settled⟩ := good
    rw [(Connects.of_run inv.toPeople step).playerMap, TreeMap.mem_insertIfNew] at there
    rcases there with same | before
    · rw [← LawfulEqOrd.compare_eq_iff_eq.mp same]
      exact numbered
    · exact positive k before
  · by_cases disconnect : ∃ serial, event = .disconnect serial
    · obtain ⟨serial, rfl⟩ := disconnect
      cases found : s.playerMap[serial]? with
      | none =>
          rw [SFLogicEntry.Steps, SFLogicEntry.processPacket, SFLogicEntry.onDisconnectPlayer,
            found] at step
          obtain rfl := Option.some.inj step
          exact positive k there
      | some p =>
          obtain ⟨place, inv, settled⟩ := good
          rw [(Casual.Disconnects.of_run inv settled found step).playerMap] at there
          exact positive k (TreeMap.mem_of_mem_erase there)
    · rw [Casual.step_playerMap good step (fun serial is => connect ⟨serial, is⟩)
        fun serial is => disconnect ⟨serial, is⟩] at there
      exact positive k there

theorem Positive.member (positive : Positive s) (inv : Invariant place s)
    (inside : r < maxRoomCount) {k : Int} (listed : k ∈ (s.rooms r).roomMemberMap) : 0 < k := by
  obtain ⟨p, member, rfl⟩ := ((inv.held.rooms r inside).all.lists.mem_iff k).mp listed
  exact positive _ (TreeMap.mem_iff_isSome_getElem?.mpr (inv.connection member ▸ rfl))

end Rooms

/-! ## All runs -/

section Runs

open Cgsf.Proof.Casual (Invariant Settled InPhase Good Seats Plays)

variable {s s' : SGServer}

/-- The users of the battles are the members of their rooms. -/
def Users (s : SGServer) (r : RoomRef) : Prop :=
  ∀ k : Int, k ∈ (s.logicEntry.rooms r).roomMemberMap ↔ 0 < k ∧ k ∈ (s.battles r).userIDs

structure Kept (s : SGServer) : Prop where
  inPhase : InPhase s.logicEntry
  positive : Positive s.logicEntry
  users : ∀ r, r < maxRoomCount → InBattle s.logicEntry r → Users s r

theorem Users.rostered {r : RoomRef} (users : Users s r) : Rostered s r where
  users := users
  found := fun k user positive =>
    Option.isSome_iff_exists.mp
      (TreeMap.mem_iff_isSome_getElem?.mp ((users k).mpr ⟨positive, user⟩))

/-- Neither the members' serials nor the users of the battle are different. -/
theorem Users.carry {r : RoomRef} {place place' : PlayerRef → Option RoomRef}
    (inv : Invariant place s.logicEntry) (inv' : Invariant place' s'.logicEntry)
    (inside : r < maxRoomCount)
    (seats : ∀ k, Seats (hall s'.logicEntry) r k ↔ Seats (hall s.logicEntry) r k)
    (same : s'.battles r = s.battles r) (users : Users s r) : Users s' r := by
  intro k
  rw [mem_roomMemberMap inv' inside, seats k, ← mem_roomMemberMap inv inside, users k, same]

/-- A battle that is entered lists the members. -/
theorem Users.of_enters {r : RoomRef} {place : PlayerRef → Option RoomRef}
    (inv : Invariant place s.logicEntry) (positive : Positive s.logicEntry)
    (inside : r < maxRoomCount) {tickCount : UInt32}
    (enters : SGBattle.Enters (memberSerials s.logicEntry r) tickCount (s.battles r)) :
    Users s r := by
  intro k
  rw [(enters_userIDs enters).mem_iff, ← mem_memberSerials inv inside]
  constructor
  · intro member
    have above := positive.member inv inside ((mem_memberSerials inv inside k).mp member)
    exact ⟨above, (mem_rosterSerials above).mpr member⟩
  · rintro ⟨above, user⟩
    exact (mem_rosterSerials above).mp user

theorem logic_users (kept : Kept s) {event : Casual.Event} {tickCount : UInt32}
    (keeps : s.KeepsUsers (.logic event tickCount)) (step : s.Steps (.logic event tickCount) s')
    (inPhase' : InPhase s'.logicEntry) (positive' : Positive s'.logicEntry) {r : RoomRef}
    (inside : r < maxRoomCount) (battle : InBattle s'.logicEntry r) : Users s' r := by
  obtain ⟨-, step, battles⟩ := step
  obtain ⟨⟨place, inv, settled⟩, phased⟩ := kept.inPhase
  obtain ⟨⟨place', inv', -⟩, -⟩ := inPhase'
  obtain ⟨⟨stay, full⟩, resumes⟩ := keeps
  obtain ⟨enters, others⟩ := battles r
  have begun (playing : (s.logicEntry.rooms r).state = .play)
      (mode : (s'.logicEntry.rooms r).currentGameMode =
        (s.logicEntry.rooms r).currentGameMode) : InBattle s.logicEntry r :=
    ⟨playing, mode ▸ battle.2⟩
  cases Casual.move_plays inv.seating inside (Casual.step_move inv settled phased step)
      battle.1 with
  | stays playing mode seats =>
      exact .carry inv inv' inside seats (others fun new => new.1 playing)
        (kept.users r inside (begun playing mode))
  | enters p playing mode absent members =>
      have members : (s'.logicEntry.rooms r).observers =
          (s.logicEntry.rooms r).observers ++ [p] := members
      have asked := Casual.step_entrance inv settled step inside
        (fun none => absurd (none.symm.trans playing) nofun) absent
        (members ▸ List.mem_append_right _ (List.mem_singleton_self p))
      have crowded := full r asked (begun playing mode)
      have size := (inv'.held.rooms r inside).size
      rw [members, List.length_append, List.length_singleton] at size
      omega
  | leaves p playing mode member gone rest =>
      have asked := Casual.step_leaver inv settled step inside member gone
      exact absurd (stay p asked r inside (begun playing mode) member) rest
  | begins p asked member loading ready gameMode mode seats =>
      have before : (s.logicEntry.rooms r).state ≠ .play := fun playing =>
        absurd (playing.symm.trans loading) nofun
      by_cases own : (s.logicEntry.rooms r).gameMode = gameModeBattle
      · exact .of_enters inv' positive' inside (enters ⟨before, battle.1, gameMode.trans own⟩)
      · have stale : (s'.logicEntry.rooms r).currentGameMode = _ := mode
        rw [battle.2] at stale
        split at stale
        · exact absurd (Option.some.inj stale).symm own
        · rename_i unregistered
          refine .carry inv inv' inside seats
            (others fun new => own (gameMode.symm.trans new.2.2)) (Rostered.users ?_)
          exact resumes p asked r inside member loading ready unregistered stale.symm

theorem Kept.step (kept : Kept s) {event : Event} (keeps : s.KeepsUsers event)
    (step : s.Steps event s') : Kept s' := by
  cases event with
  | logic event tickCount =>
      have inPhase' := Casual.step_inPhase kept.inPhase step.2.1
      have positive' := step_positive kept.inPhase.1 kept.positive step.1 step.2.1
      exact ⟨inPhase', positive', fun r inside battle =>
        logic_users kept keeps step inPhase' positive' inside battle⟩
  | battle k event =>
      obtain ⟨same, -, b', played, battles⟩ := step
      refine ⟨same ▸ kept.inPhase, same ▸ kept.positive, fun r inside battle listed => ?_⟩
      have users := kept.users r inside (same ▸ battle) listed
      rw [same, users, battles]
      by_cases here : r = k
      · rw [here, Function.update_self, (step_userIDs played).mem_iff]
      · rw [Function.update_of_ne here]

theorem init_kept (p2pService : Bool) : Kept (init p2pService) where
  inPhase := Casual.initServer_inPhase _ _
  positive := fun _ there => absurd there TreeMap.not_mem_emptyc
  users := fun _ _ battle => by cases battle.1

theorem run_kept {p2pService : Bool} {history : List Event}
    (run : Run (Guarded KeepsUsers Steps) (init p2pService) history s) : Kept s :=
  run.invariant (init_kept p2pService) fun _ _ _ kept action => kept.step action.1 action.2

/-- As long as its users are kept, they are the members of a battle's room. -/
theorem run_rostered {p2pService : Bool} {history : List Event}
    (run : Run (Guarded KeepsUsers Steps) (init p2pService) history s) {r : RoomRef}
    (inside : r < maxRoomCount) (battle : InBattle s.logicEntry r) : Rostered s r :=
  ((run_kept run).users r inside battle).rostered

/-! ## Some battles -/

theorem exists_enters (serials : List Int) (tickCount : UInt32) :
    ∃ b, SGBattle.Enters serials tickCount b := by
  let b : SGBattle :=
    { m_pSevenGameManager := .addUsers (SGBattle.rosterSerials serials)
      m_dwLastPlayTickCount := tickCount }
  let m := b.m_pSevenGameManager.initializeData dealtInOrder
  have seated : ids m = SGBattle.rosterSerials serials :=
    (ids_initializeData _ _).trans (ids_addUsers _)
  have somebody : m.m_userlist ≠ [] := by
    intro none
    rw [ids, none] at seated
    have size := congrArg List.length seated
    simp only [SGBattle.rosterSerials, List.map_nil, List.length_nil, List.length_append,
      List.length_map, List.length_range, sevenGameMemberNum] at size
    omega
  obtain ⟨pUser, rest, list⟩ := List.exists_cons_of_ne_nil somebody
  have reset : ∃ b', b.resetGame dealtInOrder m.m_userlist tickCount = some b' := by
    rw [SGBattle.resetGame, ← Option.isSome_iff_exists]
    simp only [SGManager.playerShuffle, list, List.head?_cons, Option.bind_some,
      SGBattle.sendCurrentTurn, SGManager.findUser, List.find?_cons, decide_true, Option.map_some,
      Option.isSome_some]
  obtain ⟨b', result⟩ := reset
  exact ⟨b', _, _, dealtInOrder, m.m_userlist, run_dealtInOrder, rfl, .refl _, result⟩

/-- What the logic thread does the server can do. -/
theorem exists_step {event : Casual.Event} (numbered : Numbered event) {t : SFLogicEntry}
    (step : s.logicEntry.Steps event t) :
    ∃ s', s'.logicEntry = t ∧ s.Steps (.logic event 0) s' := by
  classical
  choose enter enters using fun r => exists_enters (memberSerials t r) 0
  refine ⟨⟨t, fun r => if EntersBattle s.logicEntry t r then enter r else s.battles r⟩, rfl,
    numbered, step, fun r => ⟨fun new => ?_, fun old => ?_⟩⟩
  · dsimp only
    rw [if_pos new]
    exact enters r
  · exact if_neg old

/-- Nobody comes or goes, and only rooms of registered modes begin. -/
def Calm (s : SFLogicEntry) (event : Casual.Event) : Prop :=
  Undisturbed s event ∧ (hall s).StartsRegistered event

instance (s : SFLogicEntry) (event : Casual.Event) : Decidable (Calm s event) :=
  inferInstanceAs (Decidable (_ ∧ _))

theorem Calm.keepsUsers {event : Casual.Event} (calm : Calm s.logicEntry event) :
    s.KeepsUsers (.logic event 0) :=
  ⟨calm.1, fun p asked r inside member loading ready unregistered _ =>
    absurd (calm.2 p asked r inside member loading ready) unregistered⟩

theorem exists_serverRun {p2pService : Bool} {history : List Casual.Event} {t : SFLogicEntry}
    (run : Run (Guarded Calm SFLogicEntry.Steps) (init p2pService).logicEntry history t)
    (numbered : ∀ event ∈ history, Numbered event) :
    ∃ s, s.logicEntry = t ∧ Run (Guarded KeepsUsers Steps) (init p2pService)
      (history.map (.logic · 0)) s := by
  induction run with
  | start => exact ⟨_, rfl, .start⟩
  | next before action ih =>
      obtain ⟨s, rfl, run⟩ := ih fun event member => numbered event (List.mem_append_left _ member)
      obtain ⟨s', is, step⟩ := exists_step
        (numbered _ (List.mem_append_right _ (List.mem_singleton_self _))) action.2
      refine ⟨s', is, ?_⟩
      rw [List.map_append]
      exact .next run ⟨Calm.keepsUsers action.1, step⟩

/-- One player plays with three bots while another one waits in the lobby. -/
def lonelyBattle : List Casual.Event :=
  [.connect 7, .data 7 (.login [97] []) 0, .answer 0 0, .data 7 .enterLobby 0,
    .data 7 (.createRoom 2) 0, .data 7 .loadingStart 0, .data 7 .loadingComplete 0, .connect 8,
    .data 8 (.login [98] []) 0, .answer 0 0, .data 8 .enterLobby 0]

/-- The one that waits enters. -/
def lateUser : Casual.Event := .data 8 (.enterRoom 2 0) 0

theorem lonelyBattle_runs : ∃ s, Run (Guarded KeepsUsers Steps) (init false)
      (lonelyBattle.map (.logic · 0)) s ∧ InBattle s.logicEntry 0 ∧
    (8 : Int) ∉ (s.logicEntry.rooms 0).roomMemberMap ∧
    ∃ t, s.logicEntry.Steps lateUser t ∧ InBattle t 0 ∧ (8 : Int) ∈ (t.rooms 0).roomMemberMap := by
  have plays : (lonelyBattle.foldlM (fun s event =>
      if Calm s event then s.processPacket event else none) (init false).logicEntry).map (fun s =>
      (decide (InBattle s 0), decide ((8 : Int) ∈ (s.rooms 0).roomMemberMap),
        (s.processPacket lateUser).map fun t =>
          (decide (InBattle t 0), decide ((8 : Int) ∈ (t.rooms 0).roomMemberMap)))) =
      some (true, false, some (true, true)) := by decide +kernel
  obtain ⟨t, result, is⟩ := Option.map_eq_some_iff.mp plays
  simp only [Prod.mk.injEq, decide_eq_true_eq, decide_eq_false_iff_not] at is
  obtain ⟨battle, absent, late⟩ := is
  obtain ⟨t', step, after⟩ := Option.map_eq_some_iff.mp late
  simp only [Prod.mk.injEq, decide_eq_true_eq] at after
  obtain ⟨s, rfl, run⟩ := exists_serverRun (Run.guarded_of_foldlM Calm _ _ result)
    (by simp [lonelyBattle, Numbered])
  exact ⟨s, run, battle, absent, t', step, after⟩

theorem lonelyBattle_rostered : ∃ s, InBattle s.logicEntry 0 ∧ Rostered s 0 := by
  obtain ⟨s, run, battle, -⟩ := lonelyBattle_runs
  exact ⟨s, battle, run_rostered run (by decide) battle⟩

/-- The battle does not know who comes late. -/
theorem lateUser_unlisted : ¬∀ (p2pService : Bool) history s,
    Run Steps (init p2pService) history s →
      ∀ r, r < maxRoomCount → InBattle s.logicEntry r → Rostered s r := by
  intro always
  obtain ⟨s, run, battle, absent, t, step, plays, member⟩ := lonelyBattle_runs
  have numbered : Numbered lateUser := trivial
  obtain ⟨s', rfl, late⟩ := exists_step numbered step
  have before := (run_kept run).users 0 (by decide) battle 8
  have after := (always false _ s' (.next (run.mono fun _ _ _ action => action.2) late) 0
    (by decide) plays).users 8
  have same : s'.battles 0 = s.battles 0 := (late.2.2 0).2 fun new => new.1 battle.1
  rw [same] at after
  exact absent (before.mpr (after.mp member))

end Runs

end Cgsf.Proof.SevenGameServer
