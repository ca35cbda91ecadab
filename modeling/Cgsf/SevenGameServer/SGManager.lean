import Cgsf.SevenGameServer.Cards
import Cgsf.SevenGameServer.SelectAlgorithm

/-!
# The users of a game, their order and the table
-/

namespace Cgsf.SevenGameServer

def sevenGameMemberNum : Nat := 4

/-- No two users of the list have the same id. -/
structure SGManager where
  m_userlist : List SGUser := []
  m_listUserOrder : List Int := []
  m_vecWinner : List Int := []
  m_iAlivePlayer : Int := 0
  m_iSuccessNum : Int := 0
  m_pCurrentUserID : Int := 0
  m_pTable : Cards := .none

namespace SGManager

def findUser (m : SGManager) (iUserID : Int) : Option SGUser :=
  m.m_userlist.find? fun pUser => iUserID = pUser.m_iUserID

/-- What is done through the pointer that `findUser` gives. -/
def edit (m : SGManager) (iUserID : Int) (change : SGUser → SGUser) : SGManager :=
  { m with
    m_userlist := m.m_userlist.map fun pUser =>
      if iUserID = pUser.m_iUserID then change pUser else pUser }

def getNextUserID (m : SGManager) (currentUserID : Int) : Int :=
  match m.m_listUserOrder.dropWhile (· ≠ currentUserID) with
  | [] => -10
  | _ :: id :: _ => id
  | [_] => m.m_listUserOrder.headD (-10)

/-- A null pointer is read where nothing is given. After -1 the user is out of the game, after -2
through. -/
def evaluateUser (m : SGManager) (iUserID : Int) : Option (Int × SGManager) :=
  (m.findUser iUserID).map fun pUser =>
    if pUser.m_iPassTicketCnt < 0 then
      let listUserOrder := m.m_listUserOrder.filter (· ≠ iUserID)
      (-1, { m.edit iUserID SGUser.setGameEnd with
        m_pTable := pUser.sendUserCardToTable m.m_pTable
        m_iAlivePlayer := m.m_iAlivePlayer - 1
        m_listUserOrder := listUserOrder
        m_vecWinner :=
          if listUserOrder.length = 1 then m.m_vecWinner ++ listUserOrder.take 1
          else m.m_vecWinner })
    else if pUser.m_TotalCardNum = 0 then
      (-2, { m.edit iUserID SGUser.setGameEnd with
        m_iSuccessNum := m.m_iSuccessNum + 1
        m_iAlivePlayer := m.m_iAlivePlayer - 1
        m_listUserOrder := m.m_listUserOrder.filter (· ≠ iUserID)
        m_vecWinner := m.m_vecWinner ++ [iUserID] })
    else (0, m)

def checkGameEnd (m : SGManager) : Bool := m.m_iAlivePlayer ≤ 1

def updateTableState (m : SGManager) (info : SCardInfo) : SGManager :=
  { m with m_pTable := SGTable.updateTableState m.m_pTable info }

/-- The bool is the answer. -/
def processTurnPass (m : SGManager) (currentTurnUser : Int) : Option (Bool × SGManager) :=
  (m.findUser currentTurnUser).map fun pUser =>
    if pUser.m_iPassTicketCnt < 0 then (false, m)
    else (true, m.edit currentTurnUser SGUser.decreasePassTicketCnt)

/-- The answer, and the card where it is TRUE. -/
def processCardSubmit (m : SGManager) (currentTurnUser iCardType iCardNum : Int) :
    Option (Option SCardInfo × SGManager) :=
  match CardType.ofInt? iCardType with
  | none => some (none, m)
  | some t =>
      if iCardNum ≥ 1 ∧ iCardNum ≤ 13 then
        (m.findUser currentTurnUser).map fun pUser =>
          if pUser.iHaveIt iCardNum.toNat t then
            let cardLimit := SGTable.checkBoundary m.m_pTable t
            if iCardNum ≠ cardLimit.highCard + 1 ∧ iCardNum ≠ cardLimit.lowCard - 1 then (none, m)
            else
              (some ⟨t, iCardNum.toNat⟩,
                m.edit currentTurnUser fun pUser => pUser.eliminateCard iCardNum.toNat t)
          else (none, m)
      else some (none, m)

/-- The card, unless the computer passes. A choice that is not set is used where nothing is
given. -/
def processAI (m : SGManager) (pAI : SGUser) : Option (Option SCardInfo × SGManager) :=
  match SGAlgorithm.getNextAction (some m.m_userlist) m.m_pTable pAI with
  | .pass => some (none, m.edit pAI.m_iUserID SGUser.decreasePassTicketCnt)
  | .submit none => none
  | .submit (some card) =>
      some (some card,
        m.edit pAI.m_iUserID fun pAI => pAI.eliminateCard card.iCardNum card.iCardType)

def findSevenAndEliminate (userlist : List SGUser) : List SGUser :=
  userlist.map fun pUser =>
    { pUser.setSevenCardNull.setTotalCard with
      m_iPassTicketCnt := maxPassTicket, m_iStatus := .gameRunning }

/-- What `CardDistribue` draws is given. -/
def initializeData (m : SGManager) (d : Distribution) : SGManager :=
  { m with
    m_iAlivePlayer := sevenGameMemberNum
    m_iSuccessNum := 1
    m_userlist := findSevenAndEliminate (d.hands m.m_userlist)
    m_pTable := SGTable.setSevenCard SGTable.initializeTable }

/-- What `random_shuffle` makes of the list is given. -/
def playerShuffle (m : SGManager) (userlist : List SGUser) : SGManager :=
  { m with
    m_userlist := userlist
    m_listUserOrder := userlist.map SGUser.m_iUserID
    m_vecWinner := [] }

/-- `Reset` and then `AddUser` for every serial. -/
def addUsers (userSerials : List Int) : SGManager where
  m_userlist := userSerials.map fun userSerial => { m_iUserID := userSerial }

/-- `ProcessCardSubmit` answers TRUE. -/
def Accepts (m : SGManager) (iUserID : Int) (info : SCardInfo) : Prop :=
  ∃ m', m.processCardSubmit iUserID info.iCardType.toInt info.iCardNum = some (some info, m')

/-- The computer plays as a person has to. -/
structure FollowsRules (m : SGManager) (pAI : SGUser) : Prop where
  legal : ∀ choice,
    SGAlgorithm.getNextAction (some m.m_userlist) m.m_pTable pAI = .submit choice →
      ∃ info, choice = some info ∧ pAI.iHaveIt info.iCardNum info.iCardType = true ∧
        m.Accepts pAI.m_iUserID info
  passes : (∀ info, ¬m.Accepts pAI.m_iUserID info) →
    SGAlgorithm.getNextAction (some m.m_userlist) m.m_pTable pAI = .pass
  plays : pAI.m_iPassTicketCnt ≤ 0 → (∃ info, m.Accepts pAI.m_iUserID info) →
    SGAlgorithm.getNextAction (some m.m_userlist) m.m_pTable pAI ≠ .pass

end SGManager

end Cgsf.SevenGameServer
