import Cgsf.Proof.SevenGameServer.Cards
import Cgsf.SevenGameServer.SGManager
import Mathlib.Tactic.IntervalCases

/-!
# The computer plays by the rules

The two cards that a suit section looks at are the ones that a person may submit. Each has a
priority of at least `PRIORTY_A`, so the first one is always taken.
-/

namespace Cgsf.Proof.SevenGameServer
open Cgsf.SevenGameServer SGTable SGAlgorithm

variable {pTable : Cards} {pUser : SGUser} {t : CardType} {n : Nat}

/-! ## The ends of a suit -/

theorem lowCard_bounds (pTable : Cards) (t : CardType) (i : Nat) :
    1 ≤ lowCard pTable t i ∧ lowCard pTable t i ≤ i + 1 := by
  induction i with
  | zero => exact ⟨Nat.le_refl _, Nat.le_refl _⟩
  | succ i ih =>
      rw [lowCard]
      split
      · exact ⟨ih.1, ih.2.trans (Nat.le_succ _)⟩
      · omega

theorem highCard_bounds (pTable : Cards) (t : CardType) (left : Nat) :
    13 - left ≤ highCard pTable t left ∧ highCard pTable t left ≤ 13 := by
  induction left with
  | zero => exact ⟨Nat.le_refl _, Nat.le_refl _⟩
  | succ left ih =>
      rw [highCard]
      split
      · omega
      · omega

theorem checkBoundary_bounds (pTable : Cards) (t : CardType) :
    (1 ≤ (checkBoundary pTable t).lowCard ∧ (checkBoundary pTable t).lowCard ≤ 7) ∧
      7 ≤ (checkBoundary pTable t).highCard ∧ (checkBoundary pTable t).highCard ≤ 13 :=
  ⟨lowCard_bounds pTable t 6, highCard_bounds pTable t 6⟩

/-- Next to one of the ends, and a card at all. -/
def AtEnd (pTable : Cards) (t : CardType) (n : Nat) : Prop :=
  1 ≤ n ∧ n ≤ 13 ∧
    (n = (checkBoundary pTable t).highCard + 1 ∨ n + 1 = (checkBoundary pTable t).lowCard)

theorem isLowCardNum_eq_some {lowest : Nat} (low : 1 ≤ lowest) :
    pUser.isLowCardNum lowest t = some n ↔
      pUser.cards t n = true ∧ 1 ≤ n ∧ n + 1 = lowest := by
  rw [SGUser.isLowCardNum]
  split_ifs with one held
  · simp only [false_iff]
    omega
  · rw [Option.some.injEq]
    constructor
    · rintro rfl
      exact ⟨held, by omega, by omega⟩
    · rintro ⟨-, -, next⟩
      omega
  · simp only [false_iff]
    rintro ⟨has, -, next⟩
    exact held (by rwa [← next, Nat.add_sub_cancel])

theorem isHighCardNum_eq_some {highest : Nat} (high : highest ≤ 13) :
    pUser.isHighCardNum highest t = some n ↔
      pUser.cards t n = true ∧ n ≤ 13 ∧ n = highest + 1 := by
  rw [SGUser.isHighCardNum, maxCardNum]
  split_ifs with all held
  · simp only [false_iff]
    omega
  · rw [Option.some.injEq]
    constructor
    · rintro rfl
      exact ⟨held, by omega, rfl⟩
    · rintro ⟨-, -, next⟩
      exact next.symm
  · simp only [false_iff]
    rintro ⟨has, -, rfl⟩
    exact held has

theorem mem_closeCards :
    n ∈ closeCards pTable pUser t ↔ pUser.cards t n = true ∧ AtEnd pTable t n := by
  obtain ⟨⟨low, low'⟩, high, high'⟩ := checkBoundary_bounds pTable t
  have close : n ∈ closeCards pTable pUser t ↔
      pUser.isLowCardNum (checkBoundary pTable t).lowCard t = some n ∨
        pUser.isHighCardNum (checkBoundary pTable t).highCard t = some n := by
    rw [closeCards]
    split
    · rw [List.mem_append, Option.mem_toList, Option.mem_toList]
    · rename_i far
      simp only [List.not_mem_nil, false_iff, isLowCardNum_eq_some low,
        isHighCardNum_eq_some high']
      simp only [SGUser.isCloseCard, Bool.or_eq_true, Bool.and_eq_true, decide_eq_true_eq] at far
      rintro (⟨has, one, next⟩ | ⟨has, last, rfl⟩)
      · refine far (.inl ⟨⟨by omega, low'⟩, ?_⟩)
        rwa [← next, Nat.add_sub_cancel]
      · exact far (.inr ⟨⟨high, by omega⟩, has⟩)
  rw [close, isLowCardNum_eq_some low, isHighCardNum_eq_some high', ← and_or_left, AtEnd]
  refine and_congr_right fun _ => ?_
  omega

theorem isCloseCard_iff : pUser.isCloseCard (checkBoundary pTable t) t = true ↔
    closeCards pTable pUser t ≠ [] := by
  obtain ⟨⟨low, low'⟩, high, high'⟩ := checkBoundary_bounds pTable t
  constructor
  · intro close
    have held := close
    simp only [SGUser.isCloseCard, Bool.or_eq_true, Bool.and_eq_true, decide_eq_true_eq] at held
    obtain ⟨⟨more, -⟩, has⟩ | ⟨⟨-, less⟩, has⟩ := held
    · exact List.ne_nil_of_mem (mem_closeCards.mpr ⟨has, by omega, by omega, .inr (by omega)⟩)
    · exact List.ne_nil_of_mem (mem_closeCards.mpr ⟨has, by omega, by omega, .inl rfl⟩)
  · intro some
    by_contra far
    exact some (by rw [closeCards, if_neg far])

theorem checkProperCard_iff : checkProperCard pTable pUser = true ↔
    ∃ t n, n ∈ closeCards pTable pUser t := by
  rw [checkProperCard, List.any_eq_true]
  constructor
  · rintro ⟨t, -, close⟩
    exact ⟨t, List.exists_mem_of_ne_nil _ (isCloseCard_iff.mp close)⟩
  · rintro ⟨t, n, member⟩
    exact ⟨t, by cases t <;> simp, isCloseCard_iff.mpr (List.ne_nil_of_mem member)⟩

/-! ## What is accepted -/

theorem ofInt?_toInt (t : CardType) : CardType.ofInt? t.toInt = some t := by
  cases t <;> rfl

theorem ofInt?_eq_some {i : Int} (same : CardType.ofInt? i = some t) : i = t.toInt := by
  unfold CardType.ofInt? at same
  split at same
  all_goals cases same
  all_goals rfl

/-- A card next to an end is accepted, and nothing else is. -/
theorem processCardSubmit_cases {m : SGManager} {iUserID : Int}
    (found : m.findUser iUserID = some pUser) (iCardType iCardNum : Int) :
    (∃ info : SCardInfo, iCardType = info.iCardType.toInt ∧ iCardNum = info.iCardNum ∧
      info.iCardNum ∈ closeCards m.m_pTable pUser info.iCardType ∧
        m.processCardSubmit iUserID iCardType iCardNum =
          some (some info, m.edit iUserID fun pUser =>
            pUser.eliminateCard info.iCardNum info.iCardType)) ∨
    (∀ info : SCardInfo, iCardType = info.iCardType.toInt → iCardNum = info.iCardNum →
      info.iCardNum ∉ closeCards m.m_pTable pUser info.iCardType) ∧
        m.processCardSubmit iUserID iCardType iCardNum = some (none, m) := by
  rw [SGManager.processCardSubmit]
  cases suit : CardType.ofInt? iCardType with
  | none =>
      refine .inr ⟨?_, rfl⟩
      rintro info rfl
      rw [ofInt?_toInt] at suit
      cases suit
  | some t =>
      obtain rfl := ofInt?_eq_some suit
      obtain ⟨⟨low, -⟩, -⟩ := checkBoundary_bounds m.m_pTable t
      simp only [found, Option.map_some]
      by_cases close : 1 ≤ iCardNum ∧ iCardNum.toNat ∈ closeCards m.m_pTable pUser t
      · obtain ⟨one, member⟩ := close
        obtain ⟨held, -, last, ends⟩ := mem_closeCards.mp member
        refine .inl ⟨⟨t, iCardNum.toNat⟩, rfl, (Int.toNat_of_nonneg (by omega)).symm, member, ?_⟩
        rw [if_pos ⟨one, by omega⟩, SGUser.iHaveIt, if_pos held, if_neg (by omega)]
      · refine .inr ⟨?_, ?_⟩
        · rintro ⟨t', n⟩ same rfl member
          have suits : t = t' := by
            simpa only [ofInt?_toInt, Option.some.injEq] using congrArg CardType.ofInt? same
          subst suits
          obtain ⟨-, one, -⟩ := mem_closeCards.mp member
          exact close ⟨by simp only at one ⊢; omega, member⟩
        · split_ifs with inside held far
          · rfl
          · have member := mem_closeCards.mpr (⟨held, by omega, by omega, by omega⟩ :
              pUser.cards t iCardNum.toNat = true ∧ AtEnd m.m_pTable t iCardNum.toNat)
            exact absurd ⟨inside.1, member⟩ close
          · rfl
          · rfl

theorem accepts_iff {m : SGManager} (found : m.findUser pUser.m_iUserID = some pUser)
    (info : SCardInfo) : m.Accepts pUser.m_iUserID info ↔
      info.iCardNum ∈ closeCards m.m_pTable pUser info.iCardType := by
  obtain ⟨info', suit, number, close, result⟩ | ⟨far, result⟩ :=
    processCardSubmit_cases found info.iCardType.toInt info.iCardNum
  · have same : info' = info := by
      have suits := congrArg CardType.ofInt? suit
      rw [ofInt?_toInt, ofInt?_toInt, Option.some.injEq] at suits
      have numbers := Int.ofNat.inj number
      cases info
      cases info'
      simp_all only
    subst same
    exact ⟨fun _ => close, fun _ => ⟨_, result⟩⟩
  · refine ⟨fun ⟨m', accepted⟩ => ?_, fun close => absurd close (far info rfl rfl)⟩
    rw [result] at accepted
    cases accepted

/-! ## Priorities -/

theorem priorty_bounds (ends : AtEnd pTable t n) :
    priortyA ≤ findCardPriorty n t pUser ∧ findCardPriorty n t pUser ≤ priortyF := by
  obtain ⟨⟨low, low'⟩, high, high'⟩ := checkBoundary_bounds pTable t
  obtain ⟨one, last, next⟩ := ends
  have seven : n ≠ 7 := by omega
  clear next low low' high high'
  interval_cases n <;>
    simp only [findCardPriorty, priortyA, priortyB, priortyC, priortyD, priortyE, priortyF] <;>
    omega

/-! ## A choice is made -/

/-- What was selected so far. -/
structure Chosen (pTable : Cards) (pUser : SGUser) (selection : Selection) : Prop where
  close : ∀ info, selection.SSelectCard = some info →
    info.iCardNum ∈ closeCards pTable pUser info.iCardType
  unset : selection.SSelectCard = none → selection.iSelectCardPriorty = priortyA

variable {selection : Selection} {counts : CardCounts}

theorem Chosen.card (chosen : Chosen pTable pUser selection)
    (member : n ∈ closeCards pTable pUser t) :
    Chosen pTable pUser (selectCloseCard pUser t selection n) ∧
      (selectCloseCard pUser t selection n).SSelectCard ≠ none := by
  rw [selectCloseCard]
  split
  · refine ⟨⟨fun info same => ?_, fun none => absurd none (Option.some_ne_none _)⟩,
      Option.some_ne_none _⟩
    obtain rfl := Option.some.inj same
    exact member
  · rename_i less
    refine ⟨chosen, fun none => less ?_⟩
    rw [chosen.unset none]
    exact (priorty_bounds (mem_closeCards.mp member).2).1

theorem Chosen.cards (chosen : Chosen pTable pUser selection) (l : List Nat)
    (members : ∀ n ∈ l, n ∈ closeCards pTable pUser t) :
    Chosen pTable pUser (l.foldl (selectCloseCard pUser t) selection) ∧
      ((l.foldl (selectCloseCard pUser t) selection).SSelectCard = none →
        selection.SSelectCard = none ∧ l = []) := by
  induction l generalizing selection with
  | nil => exact ⟨chosen, fun none => ⟨none, rfl⟩⟩
  | cons n l ih =>
      obtain ⟨next, set⟩ := chosen.card (members n List.mem_cons_self)
      obtain ⟨last, kept⟩ := ih next fun i member => members i (List.mem_cons_of_mem n member)
      exact ⟨last, fun none => absurd (kept none).1 set⟩

theorem Chosen.suits (chosen : Chosen pTable pUser selection) (suits : List CardType) :
    Chosen pTable pUser (suits.foldl (selectSuit pTable pUser) selection) ∧
      ((suits.foldl (selectSuit pTable pUser) selection).SSelectCard = none →
        selection.SSelectCard = none ∧ ∀ t ∈ suits, closeCards pTable pUser t = []) := by
  induction suits generalizing selection with
  | nil =>
      exact ⟨chosen, fun none => ⟨none, fun _ member => absurd member List.not_mem_nil⟩⟩
  | cons t suits ih =>
      obtain ⟨next, set⟩ := chosen.cards (closeCards pTable pUser t) fun _ member => member
      obtain ⟨last, kept⟩ := ih next
      refine ⟨last, fun none => ?_⟩
      obtain ⟨before, rest⟩ := kept none
      obtain ⟨start, empty⟩ := set before
      exact ⟨start, List.forall_mem_cons.mpr ⟨empty, rest⟩⟩

/-- Where some card is close, a close one is selected. -/
theorem selectCard_close (member : n ∈ closeCards pTable pUser t) :
    ∃ info, selectCard pTable pUser = some info ∧
      info.iCardNum ∈ closeCards pTable pUser info.iCardType := by
  have start : Chosen pTable pUser {} := ⟨fun _ same => absurd same.symm (Option.some_ne_none _),
    fun _ => rfl⟩
  obtain ⟨chosen, kept⟩ := start.suits [.spade, .heart, .clover, .diamond]
  rw [selectCard]
  cases choice : ([CardType.spade, .heart, .clover, .diamond].foldl
      (selectSuit pTable pUser) {}).SSelectCard with
  | none =>
      have empty := (kept choice).2 t (by cases t <;> simp)
      exact absurd (empty ▸ member) List.not_mem_nil
  | some info => exact ⟨info, rfl, chosen.close info choice⟩

/-! ## Every close card is counted -/

def total (counts : CardCounts) : Nat :=
  counts.iCountGrapedCard + counts.iCountCoocockCard + counts.iCountGetOutCard

theorem total_countCloseCard (ends : AtEnd pTable t n) :
    total (countCloseCard pUser t counts n) = total counts + 1 := by
  have bounds : priortyA ≤ findCardPriorty n t pUser ∧ findCardPriorty n t pUser ≤ priortyF :=
    priorty_bounds ends
  rw [countCloseCard]
  split
  · simp only [total]
    omega
  · split
    · simp only [total]
      omega
    · split
      · rfl
      · simp only [priortyA, priortyB, priortyC, priortyD, priortyE, priortyF] at *
        omega

theorem total_countSuit (pTable : Cards) (pUser : SGUser) (counts : CardCounts)
    (suits : List CardType) :
    total (suits.foldl (countSuit pTable pUser) counts) =
      total counts + (suits.flatMap (closeCards pTable pUser)).length := by
  have cards (t : CardType) (counts : CardCounts) (l : List Nat)
      (members : ∀ n ∈ l, n ∈ closeCards pTable pUser t) :
      total (l.foldl (countCloseCard pUser t) counts) = total counts + l.length := by
    induction l generalizing counts with
    | nil => rfl
    | cons n l ih =>
        rw [List.foldl_cons, ih _ fun i member => members i (List.mem_cons_of_mem n member),
          total_countCloseCard (mem_closeCards.mp (members n List.mem_cons_self)).2,
          List.length_cons]
        omega
  induction suits generalizing counts with
  | nil => rfl
  | cons t suits ih =>
      rw [List.foldl_cons, ih, countSuit, cards t counts _ fun _ member => member,
        List.flatMap_cons, List.length_append, Nat.add_assoc]

theorem iMustPass_of_no_ticket (pManager : Option (List SGUser))
    (ticket : pUser.m_iPassTicketCnt ≤ 0) : iMustPass pManager counts pUser = false := by
  simp only [iMustPass]
  rw [if_neg (by omega : ¬pUser.m_iPassTicketCnt = 1),
    if_neg (by omega : ¬pUser.m_iPassTicketCnt = 2),
    if_neg (by omega : ¬pUser.m_iPassTicketCnt = 3), ite_self]

theorem checkPassCard_of_no_ticket (pManager : Option (List SGUser))
    (ticket : pUser.m_iPassTicketCnt ≤ 0) (member : n ∈ closeCards pTable pUser t) :
    checkPassCard pManager pTable pUser = false := by
  have proper := checkProperCard_iff.mpr ⟨t, n, member⟩
  have counted := total_countSuit pTable pUser {} [.spade, .diamond, .clover, .heart]
  have some : 0 < ([CardType.spade, .diamond, .clover, .heart].flatMap
      (closeCards pTable pUser)).length :=
    List.length_pos_of_mem (List.mem_flatMap.mpr ⟨t, by cases t <;> simp, member⟩)
  rw [checkPassCard, if_neg (by rw [proper]; decide), determinePassCard, if_neg ?_,
    iMustPass_of_no_ticket pManager ticket]
  rintro ⟨graped, coocock, getOut⟩
  rw [total, graped, coocock, getOut] at counted
  omega

/-- What is submitted is a close card. -/
theorem submits_close {pManager : Option (List SGUser)} {choice : Option SCardInfo}
    (action : getNextAction pManager pTable pUser = .submit choice) :
    ∃ info, choice = some info ∧ info.iCardNum ∈ closeCards pTable pUser info.iCardType := by
  rw [getNextAction] at action
  split at action
  · cases action
  · rename_i stays
    obtain rfl := NextAction.submit.inj action
    have proper : checkProperCard pTable pUser = true := by
      by_contra none
      exact stays (by rw [checkPassCard, if_pos (Bool.eq_false_iff.mpr none)])
    obtain ⟨t, n, member⟩ := checkProperCard_iff.mp proper
    exact selectCard_close member

/-! ## The claim -/

theorem getNextAction_followsRules {m : SGManager} {pAI : SGUser}
    (found : m.findUser pAI.m_iUserID = some pAI) : m.FollowsRules pAI where
  legal choice chosen := by
    obtain ⟨info, same, close⟩ := submits_close chosen
    exact ⟨info, same, (mem_closeCards.mp close).1, (accepts_iff found info).mpr close⟩
  passes none := by
    have improper : checkProperCard m.m_pTable pAI = false := by
      by_contra proper
      obtain ⟨t, n, member⟩ := checkProperCard_iff.mp (Bool.of_not_eq_false proper)
      exact none ⟨t, n⟩ ((accepts_iff found ⟨t, n⟩).mpr member)
    rw [getNextAction, checkPassCard, if_pos improper, if_pos rfl]
  plays ticket some pass := by
    obtain ⟨info, accepted⟩ := some
    rw [getNextAction, checkPassCard_of_no_ticket _ ticket ((accepts_iff found info).mp accepted),
      if_neg Bool.false_ne_true] at pass
    cases pass

/-- Both sides of the eight of spades are on the table, and no ticket is left. -/
theorem lastTicket_followsRules :
    (SGManager.mk [⟨-1, 0, .gameRunning, 1, Cards.none.put .spade 8⟩] [-1] [] 1 1 (-1)
      (setSevenCard ((initializeTable.put .spade 9)))).FollowsRules
        ⟨-1, 0, .gameRunning, 1, Cards.none.put .spade 8⟩ :=
  getNextAction_followsRules rfl

end Cgsf.Proof.SevenGameServer
