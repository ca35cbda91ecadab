import Cgsf.SevenGameServer.Cards

/-!
# The choices of the computer player
-/

namespace Cgsf.SevenGameServer.SGAlgorithm
open SGTable

def priortyA : Int := 0
def priortyB : Int := 1
def priortyC : Int := 2
def priortyD : Int := 3
def priortyE : Int := 4
def priortyF : Int := 5

/-- How many of the user's cards come behind the gap next to this one. -/
def findCardPriorty (iCardNum : Nat) (iCardType : CardType) (pUser : SGUser) : Int :=
  let low i := (pUser.isLowCardNum i iCardType).isSome
  let high i := (pUser.isHighCardNum i iCardType).isSome
  match iCardNum with
  | 1 => priortyF
  | 13 => priortyF
  | 2 => if low 2 then priortyF else priortyD
  | 12 => if high 12 then priortyF else priortyD
  | 3 => if low 3 then priortyF else if low 2 then priortyE else priortyD
  | 11 => if high 11 then priortyF else if high 12 then priortyE else priortyD
  | 4 => if low 4 then priortyF else if 0 < [3, 2].countP low then priortyE else priortyC
  | 10 => if high 10 then priortyF else if 0 < [11, 12].countP high then priortyE else priortyC
  | 5 => if low 5 then priortyF else if 0 < [4, 3, 2].countP low then priortyE else priortyB
  | 9 => if high 9 then priortyF else if 0 < [10, 11, 12].countP high then priortyE else priortyB
  | 6 => if low 6 then priortyF else if 0 < [5, 4, 3, 2].countP low then priortyE else priortyA
  | 8 =>
      if high 8 then priortyF else if 0 < [9, 10, 11, 12].countP high then priortyE else priortyA
  | _ => -1

/-- The cards that the section for a suit looks at, in its order. -/
def closeCards (pTable : Cards) (pUser : SGUser) (iCardType : CardType) : List Nat :=
  let cardLimit := checkBoundary pTable iCardType
  if pUser.isCloseCard cardLimit iCardType then
    (pUser.isLowCardNum cardLimit.lowCard iCardType).toList ++
      (pUser.isHighCardNum cardLimit.highCard iCardType).toList
  else []

/-- `SSelectCard` is not set by its declaration. -/
structure Selection where
  SSelectCard : Option SCardInfo := none
  iSelectCardPriorty : Int := priortyA
  deriving DecidableEq, Repr

def selectCloseCard (pUser : SGUser) (iCardType : CardType) (selection : Selection)
    (iCardNum : Nat) : Selection :=
  let iCurrentCardPriorty := findCardPriorty iCardNum iCardType pUser
  if iCurrentCardPriorty ≥ selection.iSelectCardPriorty then
    ⟨some ⟨iCardType, iCardNum⟩, iCurrentCardPriorty⟩
  else selection

/-- The section for a suit. -/
def selectSuit (pTable : Cards) (pUser : SGUser) (selection : Selection) (iCardType : CardType) :
    Selection :=
  (closeCards pTable pUser iCardType).foldl (selectCloseCard pUser iCardType) selection

def selectCard (pTable : Cards) (pUser : SGUser) : Option SCardInfo :=
  ([.spade, .heart, .clover, .diamond].foldl (selectSuit pTable pUser) {}).SSelectCard

structure CardCounts where
  iCountGrapedCard : Nat := 0
  iCountCoocockCard : Nat := 0
  iCountGetOutCard : Nat := 0
  deriving DecidableEq, Repr

def countCloseCard (pUser : SGUser) (iCardType : CardType) (counts : CardCounts)
    (iCardNum : Nat) : CardCounts :=
  let iPriorty := findCardPriorty iCardNum iCardType pUser
  if iPriorty = priortyA ∨ iPriorty = priortyB ∨ iPriorty = priortyC ∨ iPriorty = priortyD then
    { counts with iCountGrapedCard := counts.iCountGrapedCard + 1 }
  else if iPriorty = priortyE then
    { counts with iCountCoocockCard := counts.iCountCoocockCard + 1 }
  else if iPriorty = priortyF then
    { counts with iCountGetOutCard := counts.iCountGetOutCard + 1 }
  else counts

/-- The section for a suit. -/
def countSuit (pTable : Cards) (pUser : SGUser) (counts : CardCounts) (iCardType : CardType) :
    CardCounts :=
  (closeCards pTable pUser iCardType).foldl (countCloseCard pUser iCardType) counts

/-- `pManager` is the user list of the user's game manager. -/
def checkOtherUserWithProb (pManager : Option (List SGUser)) (pUser : SGUser) (iProb : Nat) :
    Bool :=
  match pManager with
  | none => false
  | some userlist =>
      let iCheckPass := userlist.countP fun pOtherUser =>
        pOtherUser.m_iUserID ≠ pUser.m_iUserID ∧
          pUser.m_iPassTicketCnt < pOtherUser.m_iPassTicketCnt
      let iProb :=
        if iCheckPass = 0 then iProb + 30
        else if iCheckPass < userlist.length / 3 then iProb + 10 else iProb
      iProb ≥ 100

def iMustPass (pManager : Option (List SGUser)) (counts : CardCounts) (pUser : SGUser) : Bool :=
  let iPassTickLimit := pUser.m_iPassTicketCnt
  let further := if counts.iCountGrapedCard > 0 then 10 else 0
  if iPassTickLimit = 0 then false
  else if iPassTickLimit = 1 then
    if counts.iCountGetOutCard > 0 then false
    else if counts.iCountCoocockCard > 0 then
      checkOtherUserWithProb pManager pUser (50 + 10 + further)
    else if counts.iCountGrapedCard > 0 then checkOtherUserWithProb pManager pUser 50
    else false
  else if iPassTickLimit = 2 then
    if counts.iCountGetOutCard > 0 then false
    else if counts.iCountCoocockCard > 0 then
      checkOtherUserWithProb pManager pUser (50 + 10 + further)
    else if counts.iCountGrapedCard > 0 then checkOtherUserWithProb pManager pUser (50 + 30)
    else false
  else if iPassTickLimit = 3 then
    if counts.iCountGetOutCard > 0 then false
    else if counts.iCountCoocockCard > 0 then
      checkOtherUserWithProb pManager pUser (80 + 10 + further)
    else counts.iCountGrapedCard > 0
  else false

def determinePassCard (pManager : Option (List SGUser)) (pTable : Cards) (pUser : SGUser) : Bool :=
  let counts := [.spade, .diamond, .clover, .heart].foldl (countSuit pTable pUser) {}
  if counts.iCountGrapedCard = 0 ∧ counts.iCountCoocockCard = 0 ∧ counts.iCountGetOutCard = 0 then
    true
  else iMustPass pManager counts pUser

def checkProperCard (pTable : Cards) (pUser : SGUser) : Bool :=
  [.spade, .diamond, .clover, .heart].any fun iCardType =>
    pUser.isCloseCard (checkBoundary pTable iCardType) iCardType

/-- Whether the user passes. There are a table and a user. -/
def checkPassCard (pManager : Option (List SGUser)) (pTable : Cards) (pUser : SGUser) : Bool :=
  if checkProperCard pTable pUser = false then true
  else determinePassCard pManager pTable pUser

inductive NextAction where
  | pass
  | submit (SSelectCard : Option SCardInfo)
  deriving DecidableEq, Repr

def getNextAction (pManager : Option (List SGUser)) (pTable : Cards) (pUser : SGUser) :
    NextAction :=
  if checkPassCard pManager pTable pUser then .pass else .submit (selectCard pTable pUser)

end Cgsf.SevenGameServer.SGAlgorithm
