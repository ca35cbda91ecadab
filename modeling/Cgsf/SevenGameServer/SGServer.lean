import Cgsf.Casual.Games
import Cgsf.SevenGameServer.SGBattle

/-!
# The server of the seven-card game

The logic thread, and for every room the battle that its play state holds. A battle lists its users
when it is entered; the room goes on with its own members.
-/

namespace Cgsf.SevenGameServer
open Casual Library

def gameModeTraining : Int := 1
def gameModeBattle : Int := 2

def SGBattle.userIDs (b : SGBattle) : List Int :=
  b.m_pSevenGameManager.m_userlist.map SGUser.m_iUserID

structure SGServer where
  logicEntry : SFLogicEntry
  battles : RoomRef → SGBattle

namespace SGServer

def init (p2pService : Bool) : SGServer where
  logicEntry := .initServer p2pService [gameModeTraining, gameModeBattle]
  battles _ := { m_pSevenGameManager := {} }

/-- The room plays, and its game mode is the battle. -/
def InBattle (s : SFLogicEntry) (r : RoomRef) : Prop :=
  (s.rooms r).state = .play ∧ (s.rooms r).currentGameMode = some gameModeBattle

instance (s : SFLogicEntry) (r : RoomRef) : Decidable (InBattle s r) :=
  inferInstanceAs (Decidable (_ ∧ _))

/-- The play state is entered, and enters the battle. -/
def EntersBattle (s s' : SFLogicEntry) (r : RoomRef) : Prop :=
  (s.rooms r).state ≠ .play ∧ (s'.rooms r).state = .play ∧ (s'.rooms r).gameMode = gameModeBattle

/-- The members' serials, in the order of the member map. -/
def memberSerials (s : SFLogicEntry) (r : RoomRef) : List Int :=
  (s.rooms r).roomMemberMap.toList.map fun entry => (s.players entry.2).serial

inductive Event where
  | logic (event : Casual.Event) (tickCount : UInt32)
  | battle (r : RoomRef) (event : SGBattle.Event)
  deriving DecidableEq, Repr

/-- Connections are numbered from 1 on. -/
def Numbered : Casual.Event → Prop
  | .connect serial => 0 < serial
  | _ => True

/-- A game mode gets the timer, and what the players send that play in its room. -/
def Delivers (s : SFLogicEntry) (r : RoomRef) (event : SGBattle.Event) : Prop :=
  InBattle s r ∧
    match event with
    | .turnPass serial _ | .cardSubmit serial _ _ _ =>
        ∃ p, s.playerMap[serial]? = some p ∧ (s.players p).state = .play ∧
          SFRoomManager.getRoom s (s.players p).roomIndex = some r
    | .update _ => True

/-- The battles that are entered start anew; otherwise they change by their own events. -/
def Steps (s : SGServer) (event : Event) (s' : SGServer) : Prop :=
  match event with
  | .logic event tickCount =>
      Numbered event ∧ s.logicEntry.Steps event s'.logicEntry ∧ ∀ r,
        (EntersBattle s.logicEntry s'.logicEntry r →
          SGBattle.Enters (memberSerials s'.logicEntry r) tickCount (s'.battles r)) ∧
        (¬EntersBattle s.logicEntry s'.logicEntry r → s'.battles r = s.battles r)
  | .battle r event =>
      s'.logicEntry = s.logicEntry ∧ Delivers s.logicEntry r event ∧
        ∃ b', (s.battles r).Steps event b' ∧ s'.battles = Function.update s.battles r b'

/-! ## Users and members -/

/-- The users that are no bots are the members, and a member is found for each of them. -/
structure Rostered (s : SGServer) (r : RoomRef) : Prop where
  users : ∀ k : Int, k ∈ (s.logicEntry.rooms r).roomMemberMap ↔ 0 < k ∧ k ∈ (s.battles r).userIDs
  found : ∀ k ∈ (s.battles r).userIDs, 0 < k →
    ∃ p, (s.logicEntry.rooms r).roomMemberMap[k]? = some p

/-- Nobody leaves others behind in a battle, and nobody asks to enter one that has a place left. -/
def Undisturbed (s : SFLogicEntry) (event : Casual.Event) : Prop :=
  (∀ p ∈ s.leaver event, ∀ r, r < maxRoomCount → InBattle s r → p ∈ (s.rooms r).observers →
    (s.rooms r).observers.erase p = []) ∧
  ∀ r ∈ s.entrance event, InBattle s r → maxRoomMember ≤ (s.rooms r).observers.length

instance (s : SFLogicEntry) (event : Casual.Event) : Decidable (Undisturbed s event) :=
  inferInstanceAs (Decidable (_ ∧ _))

/-- If the loading ends in a room whose own mode is not registered and that has come back to the
battle of an earlier game, its members are the users of that game. -/
def Resumes (s : SGServer) (event : Casual.Event) : Prop :=
  ∀ p ∈ (hall s.logicEntry).completing event, ∀ r, r < maxRoomCount →
    p ∈ (s.logicEntry.rooms r).observers → (s.logicEntry.rooms r).state = .loading →
    (∀ q ∈ (s.logicEntry.rooms r).observers, q ≠ p →
      (s.logicEntry.players q).loadingComplete = true) →
    (s.logicEntry.rooms r).gameMode ∉ s.logicEntry.gameModes →
    (s.logicEntry.rooms r).currentGameMode = some gameModeBattle → Rostered s r

/-- The room keeps the users of its battle. -/
def KeepsUsers (s : SGServer) (event : Event) : Prop :=
  match event with
  | .logic event _ => Undisturbed s.logicEntry event ∧ Resumes s event
  | .battle _ _ => True

end SGServer

end Cgsf.SevenGameServer
