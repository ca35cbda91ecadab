import Cgsf.SevenGameServer.SGManager

/-!
# The battle

Each event carries the tick count that the code reads. What is only sent to the clients is left
out; what the code reads to send it is not.
-/

namespace Cgsf.SevenGameServer
open Library

def SGUser.isRunning (user : SGUser) : Bool := user.m_iStatus = .gameRunning

inductive SGGameState where
  | sgGamePlay
  | sgGameOver
  deriving DecidableEq, Repr

def sgDelayGameOver : UInt32 := 3000
def sgAIWaitTime : UInt32 := 800
def sgPlayerWaitTime : UInt32 := 10000

structure SGBattle where
  m_pSevenGameManager : SGManager
  m_nGameState : SGGameState := .sgGamePlay
  m_dwLastTickCount : UInt32 := 0
  m_dwLastPlayTickCount : UInt32 := 0

namespace SGBattle

/-- The user whose turn it is has to be there. -/
def sendCurrentTurn (b : SGBattle) (tickCount : UInt32) : Option SGBattle :=
  (b.m_pSevenGameManager.findUser b.m_pSevenGameManager.m_pCurrentUserID).map fun _ =>
    { b with m_dwLastPlayTickCount := tickCount }

/-- The first winner is sent. -/
def sendWinner (b : SGBattle) : Option SGBattle :=
  b.m_pSevenGameManager.m_vecWinner.head?.map fun _ => b

/-- What follows every pass and every card. -/
def endTurn (b : SGBattle) (m : SGManager) (iUserID : Int) (tickCount : UInt32) : Option SGBattle :=
  let m := { m with m_pCurrentUserID := m.getNextUserID iUserID }
  (m.evaluateUser iUserID).bind fun (_, m) =>
    let b := { b with m_pSevenGameManager := m }
    if m.checkGameEnd then
      b.sendWinner.map fun b =>
        { b with m_nGameState := .sgGameOver, m_dwLastTickCount := tickCount }
    else b.sendCurrentTurn tickCount

def processTurnPass (b : SGBattle) (currentTurnUser : Int) (tickCount : UInt32) : Option SGBattle :=
  (b.m_pSevenGameManager.processTurnPass currentTurnUser).bind fun (bRet, m) =>
    if bRet then b.endTurn m currentTurnUser tickCount else some b

def onTurnPass (b : SGBattle) (serial : Int) (tickCount : UInt32) : Option SGBattle :=
  let currentTurnUser := b.m_pSevenGameManager.m_pCurrentUserID
  if currentTurnUser ≠ serial then some b else b.processTurnPass currentTurnUser tickCount

def onCardSubmit (b : SGBattle) (serial cardtype cardnum : Int) (tickCount : UInt32) :
    Option SGBattle :=
  let currentTurnUser := b.m_pSevenGameManager.m_pCurrentUserID
  if currentTurnUser ≠ serial then some b
  else
    (b.m_pSevenGameManager.processCardSubmit currentTurnUser cardtype cardnum).bind fun
      | (none, _) => some b
      | (some info, m) => b.endTurn (m.updateTableState info) currentTurnUser tickCount

/-- The computer's turn. -/
def updateAI (b : SGBattle) (playerID : Int) (tickCount : UInt32) : Option SGBattle :=
  (b.m_pSevenGameManager.findUser playerID).bind fun pBot =>
    (b.m_pSevenGameManager.processAI pBot).bind fun
      | (none, m) => b.endTurn m pBot.m_iUserID tickCount
      | (some cardInfo, m) => b.endTurn (m.updateTableState cardInfo) pBot.m_iUserID tickCount

/-- `Update` in SG_GAME_PLAY. -/
def updatePlay (b : SGBattle) (tickCount : UInt32) : Option SGBattle :=
  let playerID := b.m_pSevenGameManager.m_pCurrentUserID
  if playerID < 0 then
    if tickCount > b.m_dwLastPlayTickCount + sgAIWaitTime then b.updateAI playerID tickCount
    else some b
  else if tickCount > b.m_dwLastPlayTickCount + sgPlayerWaitTime then
    b.processTurnPass playerID tickCount
  else some b

/-- The cards that are drawn and the order that the users are shuffled into are given. -/
def resetGame (b : SGBattle) (d : Distribution) (userlist : List SGUser) (tickCount : UInt32) :
    Option SGBattle :=
  let m := (b.m_pSevenGameManager.initializeData d).playerShuffle userlist
  m.m_userlist.head?.bind fun pUser =>
    sendCurrentTurn
      { b with m_pSevenGameManager := { m with m_pCurrentUserID := pUser.m_iUserID } } tickCount

/-- Any draws that end the loop, any order of the users. -/
def Resets (b : SGBattle) (tickCount : UInt32) (b' : SGBattle) : Prop :=
  ∃ stack history d userlist,
    Run Distribution.Draws (Distribution.start stack) history d ∧ d.iCardCount = 52 ∧
      userlist.Perm (b.m_pSevenGameManager.initializeData d).m_userlist ∧
        b.resetGame d userlist tickCount = some b'

/-- The bots are -1, -2 and so on. -/
def rosterSerials (memberSerials : List Int) : List Int :=
  memberSerials ++
    (List.range (sevenGameMemberNum - memberSerials.length)).map fun (i : Nat) => -1 - (i : Int)

/-- `OnEnter` with the keys of the room's member map. -/
def Enters (memberSerials : List Int) (tickCount : UInt32) (b : SGBattle) : Prop :=
  Resets { m_pSevenGameManager := .addUsers (rosterSerials memberSerials)
           m_dwLastPlayTickCount := tickCount } tickCount b

inductive Event where
  | turnPass (serial : Int) (tickCount : UInt32)
  | cardSubmit (serial cardtype cardnum : Int) (tickCount : UInt32)
  | update (tickCount : UInt32)
  deriving DecidableEq, Repr

def Steps (b : SGBattle) (event : Event) (b' : SGBattle) : Prop :=
  match event with
  | .turnPass serial tickCount => b.onTurnPass serial tickCount = some b'
  | .cardSubmit serial cardtype cardnum tickCount =>
      b.onCardSubmit serial cardtype cardnum tickCount = some b'
  | .update tickCount =>
      match b.m_nGameState with
      | .sgGamePlay => b.updatePlay tickCount = some b'
      | .sgGameOver =>
          if tickCount - b.m_dwLastTickCount > sgDelayGameOver then
            Resets { b with m_nGameState := .sgGamePlay } tickCount b'
          else b' = b

/-! ## What the game promises -/

/-- Each card is on the table or with exactly one of the users that count. -/
def HeldOnce (m : SGManager) (counts : SGUser → Bool) : Prop :=
  ∀ t n, 1 ≤ n → n ≤ maxCardNum →
    (m.m_userlist.countP fun pUser => counts pUser && pUser.cards t n) +
      (if m.m_pTable t n then 1 else 0) = 1

/-- The hands are those of the users that are still in the game. -/
structure Coherent (b : SGBattle) : Prop where
  alive : b.m_pSevenGameManager.m_iAlivePlayer = b.m_pSevenGameManager.m_listUserOrder.length
  surviving : b.m_pSevenGameManager.m_userlist.countP SGUser.isRunning =
    b.m_pSevenGameManager.m_listUserOrder.length
  current : b.m_pSevenGameManager.m_pCurrentUserID ∈ b.m_pSevenGameManager.m_listUserOrder
  cards : HeldOnce b.m_pSevenGameManager SGUser.isRunning
  winner : b.m_nGameState = .sgGameOver → b.m_pSevenGameManager.m_vecWinner ≠ []

/-- No hand is different, nor the table or the order. -/
structure SameBoard (b b' : SGBattle) : Prop where
  hands : b'.m_pSevenGameManager.m_userlist.map SGUser.cards =
    b.m_pSevenGameManager.m_userlist.map SGUser.cards
  table : b'.m_pSevenGameManager.m_pTable = b.m_pSevenGameManager.m_pTable
  order : b'.m_pSevenGameManager.m_listUserOrder = b.m_pSevenGameManager.m_listUserOrder

def Event.IsPacket : Event → Prop
  | .turnPass .. => True
  | .cardSubmit .. => True
  | .update .. => False

/-- The current user submits a card that it may submit, or passes without a ticket. -/
def PlaysOn (b : SGBattle) (event : Event) : Prop :=
  ∃ pUser ∈ b.m_pSevenGameManager.findUser b.m_pSevenGameManager.m_pCurrentUserID,
    match event with
    | .turnPass serial _ => serial = pUser.m_iUserID ∧ pUser.m_iPassTicketCnt = 0
    | .cardSubmit serial cardtype cardnum _ =>
        serial = pUser.m_iUserID ∧ ∃ info : SCardInfo,
          cardtype = info.iCardType.toInt ∧ cardnum = info.iCardNum ∧
            info.iCardNum ∈
              SGAlgorithm.closeCards b.m_pSevenGameManager.m_pTable pUser info.iCardType
    | .update _ => False

/-- Nobody plays on when the game is over. -/
def InTime (b : SGBattle) (event : Event) : Prop :=
  b.m_nGameState = .sgGameOver → ¬b.PlaysOn event

/-- Nobody was put out of the game. -/
def NoneOut (b : SGBattle) : Prop :=
  ∀ pUser ∈ b.m_pSevenGameManager.m_userlist, 0 ≤ pUser.m_iPassTicketCnt

/-- The game is in order, no pointer is null and no list empty where the code reads it, and when it
is over a packet leaves the board alone exactly if it is in time. In the arrays of all users each
card is found once as long as nobody was put out. -/
structure WellPlayed (b : SGBattle) : Prop where
  coherent : Coherent b
  answered : ∀ event, b.InTime event → event.IsPacket ∨ b.m_nGameState = .sgGamePlay →
    ∃ b', Steps b event b'
  gameOver : ∀ event b', b.m_nGameState = .sgGameOver → event.IsPacket → Steps b event b' →
    (SameBoard b b' ↔ b.InTime event)
  arrays : HeldOnce b.m_pSevenGameManager (fun _ => true) ↔ b.NoneOut

end SGBattle

end Cgsf.SevenGameServer
