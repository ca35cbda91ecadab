import Mathlib.Data.List.Range
import Cgsf.Library.Transition

/-!
# The cards of a user and of the table

A place of the card arrays holds its own number or -1. What is kept here is whether it holds its
number.
-/

namespace Cgsf.SevenGameServer

def maxCardNum : Nat := 13
def maxPassTicket : Int := 3

inductive CardType where
  | clover
  | heart
  | diamond
  | spade
  deriving DecidableEq, Repr

/-- `TYPE_CLOVER` to `TYPE_SPADE`. -/
def CardType.ofInt? : Int → Option CardType
  | 0 => some .clover
  | 1 => some .heart
  | 2 => some .diamond
  | 3 => some .spade
  | _ => none

def CardType.toInt : CardType → Int
  | .clover => 0
  | .heart => 1
  | .diamond => 2
  | .spade => 3

abbrev Cards := CardType → Nat → Bool

namespace Cards

def none : Cards := fun _ _ => false

def put (cards : Cards) (iCardType : CardType) (iCardNum : Nat) : Cards := fun t n =>
  if t = iCardType ∧ n = iCardNum then true else cards t n

def take (cards : Cards) (iCardType : CardType) (iCardNum : Nat) : Cards := fun t n =>
  if t = iCardType ∧ n = iCardNum then false else cards t n

/-- All places, in the order of the loops over them. -/
def places : List (CardType × Nat) :=
  (List.range' 1 maxCardNum).flatMap fun i =>
    [(.spade, i), (.heart, i), (.diamond, i), (.clover, i)]

def count (cards : Cards) : Nat := places.countP fun (t, n) => cards t n

end Cards

structure EdgeCard where
  lowCard : Nat
  highCard : Nat
  deriving DecidableEq, Repr

structure SCardInfo where
  iCardType : CardType
  iCardNum : Nat
  deriving DecidableEq, Repr

inductive GameStatus where
  | gameRunning
  | gameEnd
  deriving DecidableEq, Repr

structure SGUser where
  m_iUserID : Int
  m_iPassTicketCnt : Int := 0
  m_iStatus : GameStatus := .gameRunning
  m_TotalCardNum : Int := 0
  cards : Cards := .none

namespace SGUser

def initializeCards (user : SGUser) : SGUser := { user with cards := .none }

def updateUserCard (user : SGUser) (iCardNum : Int) : SGUser :=
  let iCardNum := iCardNum + 1
  if 1 ≤ iCardNum ∧ iCardNum ≤ 13 then
    { user with cards := user.cards.put .spade iCardNum.toNat }
  else if 14 ≤ iCardNum ∧ iCardNum ≤ 26 then
    { user with cards := user.cards.put .heart (iCardNum - 13).toNat }
  else if 27 ≤ iCardNum ∧ iCardNum ≤ 39 then
    { user with cards := user.cards.put .diamond (iCardNum - 26).toNat }
  else if 40 ≤ iCardNum ∧ iCardNum ≤ 52 then
    { user with cards := user.cards.put .clover (iCardNum - 39).toNat }
  else user

def setSevenCardNull (user : SGUser) : SGUser :=
  { user with cards := (((user.cards.take .spade 7).take .heart 7).take .diamond 7).take .clover 7 }

def iHaveIt (user : SGUser) (iCardNum : Nat) (iCardType : CardType) : Bool :=
  user.cards iCardType iCardNum

def isCloseCard (user : SGUser) (cardLimit : EdgeCard) (iCardType : CardType) : Bool :=
  (1 < cardLimit.lowCard && cardLimit.lowCard ≤ 7 &&
      user.cards iCardType (cardLimit.lowCard - 1)) ||
    (7 ≤ cardLimit.highCard && cardLimit.highCard < 13 &&
      user.cards iCardType (cardLimit.highCard + 1))

/-- The card below, unless the user does not have it. -/
def isLowCardNum (user : SGUser) (lowCard : Nat) (iCardType : CardType) : Option Nat :=
  if lowCard = 1 then none
  else if user.cards iCardType (lowCard - 1) then some (lowCard - 1) else none

def isHighCardNum (user : SGUser) (highCard : Nat) (iCardType : CardType) : Option Nat :=
  if highCard = maxCardNum then none
  else if user.cards iCardType (highCard + 1) then some (highCard + 1) else none

def eliminateCard (user : SGUser) (iCardNum : Nat) (iCardType : CardType) : SGUser :=
  { user with
    cards := user.cards.take iCardType iCardNum, m_TotalCardNum := user.m_TotalCardNum - 1 }

def setTotalCard (user : SGUser) : SGUser := { user with m_TotalCardNum := user.cards.count }

def decreasePassTicketCnt (user : SGUser) : SGUser :=
  { user with m_iPassTicketCnt := user.m_iPassTicketCnt - 1 }

/-- `SetStatus` and `SetRemainCardZero`. -/
def setGameEnd (user : SGUser) : SGUser := { user with m_iStatus := .gameEnd, m_TotalCardNum := 0 }

end SGUser

namespace SGTable

def initializeTable : Cards := .none

def setSevenCard (table : Cards) : Cards :=
  (((table.put .spade 7).put .heart 7).put .diamond 7).put .clover 7

def updateTableState (table : Cards) (info : SCardInfo) : Cards :=
  table.put info.iCardType info.iCardNum

/-- From `i` down to 1. -/
def lowCard (table : Cards) (iCardType : CardType) : Nat → Nat
  | 0 => 1
  | i + 1 => if table iCardType (i + 1) then lowCard table iCardType i else i + 2

/-- The last `left` cards up to 13. -/
def highCard (table : Cards) (iCardType : CardType) : Nat → Nat
  | 0 => 13
  | left + 1 =>
      if table iCardType (13 - left) then highCard table iCardType left else 13 - left - 1

def checkBoundary (table : Cards) (iCardType : CardType) : EdgeCard where
  lowCard := lowCard table iCardType 6
  highCard := highCard table iCardType 6

end SGTable

/-- The cards are copied. -/
def SGUser.sendUserCardToTable (user : SGUser) (table : Cards) : Cards := fun t n =>
  if 1 ≤ n ∧ n ≤ maxCardNum ∧ user.cards t n then true else table t n

end Cgsf.SevenGameServer

/-!
# Dealing the cards
-/

namespace Cgsf.SevenGameServer
open Library

/-- The array on the stack while cards are drawn. -/
structure Distribution where
  paCardDistribute : List Int
  iCardCount : Nat := 0
  deriving DecidableEq, Repr

namespace Distribution

/-- Every byte is 0xff, so an `int` is -1. -/
def memset (array : List Int) (bytes : Nat) : List Int :=
  List.replicate (bytes / 4) (-1) ++ array.drop (bytes / 4)

/-- The size that is given is the number of the cards. -/
def start (stack : Fin 52 → Int) : Distribution where
  paCardDistribute := memset (List.ofFn stack) (maxCardNum * 4)

def draw (d : Distribution) (rand : Nat) : Distribution :=
  let iCardNum : Int := ((rand % (maxCardNum * 4) : Nat) : Int)
  if iCardNum ∈ d.paCardDistribute then d
  else ⟨d.paCardDistribute.set d.iCardCount iCardNum, d.iCardCount + 1⟩

/-- A turn of the loop. -/
def Draws (d : Distribution) (rand : Nat) (d' : Distribution) : Prop :=
  d.iCardCount < maxCardNum * 4 ∧ d.draw rand = d'

/-- The users one after another, from `iCardCount` on. -/
def distribute (paCardDistribute : List Int) : List SGUser → Nat → Nat → List SGUser
  | [], _, _ => []
  | user :: users, iCardCount, iUserIndex =>
      ((paCardDistribute.drop iCardCount).take (iUserIndex * maxCardNum - iCardCount)).foldl
          SGUser.updateUserCard user.initializeCards ::
        distribute paCardDistribute users (iUserIndex * maxCardNum) (iUserIndex + 1)

def hands (d : Distribution) (users : List SGUser) : List SGUser :=
  distribute d.paCardDistribute users 0 1

/-- The cards from 0 to 51. -/
def IsCard (i : Int) : Prop := 0 ≤ i ∧ i < 52

instance (i : Int) : Decidable (IsCard i) := inferInstanceAs (Decidable (_ ∧ _))

/-- Every card is with one of the users, and each has thirteen. -/
structure SharedOut (users : List SGUser) : Prop where
  each : ∀ t n, 1 ≤ n → n ≤ maxCardNum →
    ∃ (k : Nat) (user : SGUser), users[k]? = some user ∧ user.cards t n = true ∧
      ∀ (j : Nat) (other : SGUser), users[j]? = some other → other.cards t n = true → j = k
  equal : ∀ user ∈ users, user.cards.count = maxCardNum

/-- What is dealt in the end is shared out, and until then some card that may be drawn is taken. -/
structure Deals (stack : Fin 52 → Int) : Prop where
  fair : ∀ history d, Run Draws (start stack) history d → d.iCardCount = 52 →
    d.paCardDistribute.Nodup ∧ (∀ i, i ∈ d.paCardDistribute ↔ IsCard i) ∧
      ∀ users : List SGUser, users.length = 4 → SharedOut (d.hands users)
  progress : ∀ history d, Run Draws (start stack) history d → d.iCardCount < 52 →
    ∃ rand, (d.draw rand).iCardCount = d.iCardCount + 1

end Distribution

end Cgsf.SevenGameServer
