import Cgsf.Proof.SevenGameServer.Cards
import Cgsf.Proof.SevenGameServer.SelectAlgorithm
import Cgsf.SevenGameServer.SGBattle

/-!
# What every turn of a game keeps

A turn changes one user among the others and moves cards to the table only. `Sound` is about the
users, the order and the table; `Live` adds whose turn it is.
-/

namespace Cgsf.Proof.SevenGameServer
open Cgsf.SevenGameServer Library SGBattle

variable {m m₁ : SGManager} {b b' : SGBattle} {id : Int} {userlist front back : List SGUser}
  {pUser pUser₁ : SGUser} {tickCount : UInt32}

/-! ## One user among the others -/

structure Seat (userlist : List SGUser) (id : Int) (front : List SGUser) (pUser : SGUser)
    (back : List SGUser) : Prop where
  list : userlist = front ++ pUser :: back
  mine : pUser.m_iUserID = id
  before : ∀ other ∈ front, other.m_iUserID ≠ id
  behind : ∀ other ∈ back, other.m_iUserID ≠ id

theorem exists_seat (nodup : (userlist.map SGUser.m_iUserID).Nodup)
    (member : id ∈ userlist.map SGUser.m_iUserID) :
    ∃ front pUser back, Seat userlist id front pUser back := by
  obtain ⟨pUser, present, rfl⟩ := List.mem_map.mp member
  obtain ⟨front, back, rfl⟩ := List.append_of_mem present
  rw [List.map_append, List.map_cons, List.nodup_middle, List.nodup_cons, List.mem_append,
    not_or] at nodup
  exact ⟨front, pUser, back, rfl, rfl,
    fun other inside same => nodup.1.1 (same ▸ List.mem_map_of_mem inside),
    fun other inside same => nodup.1.2 (same ▸ List.mem_map_of_mem inside)⟩

namespace Seat

theorem change (seat : Seat userlist id front pUser back) (mine : pUser₁.m_iUserID = id) :
    Seat (front ++ pUser₁ :: back) id front pUser₁ back :=
  ⟨rfl, mine, seat.before, seat.behind⟩

theorem find (seat : Seat m.m_userlist id front pUser back) : m.findUser id = some pUser := by
  have none : front.find? (fun pUser => decide (id = pUser.m_iUserID)) = none :=
    List.find?_eq_none.mpr fun other inside same =>
      seat.before other inside (of_decide_eq_true same).symm
  rw [SGManager.findUser, seat.list, List.find?_append, none, Option.none_or,
    List.find?_cons_of_pos (by simp [seat.mine])]

theorem edit (seat : Seat m.m_userlist id front pUser back) (change : SGUser → SGUser) :
    (m.edit id change).m_userlist = front ++ change pUser :: back := by
  have same (l : List SGUser) (others : ∀ other ∈ l, other.m_iUserID ≠ id) :
      l.map (fun pUser => if id = pUser.m_iUserID then change pUser else pUser) = l :=
    (List.map_congr_left fun other inside => if_neg (others other inside).symm).trans
      (List.map_id' l)
  simp only [SGManager.edit, seat.list, List.map_append, List.map_cons, same front seat.before,
    same back seat.behind, seat.mine, if_true]

theorem count (seat : Seat userlist id front pUser back) (p : SGUser → Bool) :
    userlist.countP p = (front ++ back).countP p + if p pUser then 1 else 0 := by
  rw [seat.list, List.countP_append, List.countP_cons, List.countP_append]
  omega

theorem mem (seat : Seat userlist id front pUser back) : pUser ∈ userlist :=
  seat.list ▸ List.mem_append_right _ List.mem_cons_self

theorem forall_iff (seat : Seat userlist id front pUser back) (P : SGUser → Prop) :
    (∀ user ∈ userlist, P user) ↔ (∀ user ∈ front ++ back, P user) ∧ P pUser := by
  rw [seat.list, List.forall_mem_append, List.forall_mem_cons, List.forall_mem_append]
  tauto

end Seat

/-! ## What holds of the users and the table -/

def runningIDs (userlist : List SGUser) : List Int :=
  (userlist.filter SGUser.isRunning).map SGUser.m_iUserID

/-- Out of the game a user has no ticket left and its cards are on the table, through it has no
card left. -/
def Fair (pTable : Cards) (pUser : SGUser) : Prop :=
  match pUser.m_iStatus with
  | .gameRunning =>
      0 ≤ pUser.m_iPassTicketCnt ∧ pUser.m_TotalCardNum = pUser.cards.count ∧
        0 < pUser.cards.count
  | .gameEnd =>
      pUser.m_iPassTicketCnt < 0 ∧ 0 < pUser.cards.count ∧
          (∀ t n, 1 ≤ n → n ≤ maxCardNum → pUser.cards t n = true → pTable t n = true) ∨
        0 ≤ pUser.m_iPassTicketCnt ∧ pUser.cards.count = 0

structure Sound (m : SGManager) : Prop where
  ids : (m.m_userlist.map SGUser.m_iUserID).Nodup
  size : m.m_userlist.length = 4
  order : m.m_listUserOrder = runningIDs m.m_userlist
  alive : m.m_iAlivePlayer = m.m_listUserOrder.length
  fair : ∀ pUser ∈ m.m_userlist, Fair m.m_pTable pUser
  cards : HeldOnce m SGUser.isRunning

theorem Fair.grow {pTable pTable' : Cards} (fair : Fair pTable pUser)
    (grows : ∀ t n, pTable t n = true → pTable' t n = true) : Fair pTable' pUser := by
  rw [Fair] at fair ⊢
  split
  · rename_i running
    rwa [running] at fair
  · rename_i ended
    rw [ended] at fair
    exact fair.imp_left fun ⟨noTicket, held, all⟩ =>
      ⟨noTicket, held, fun t n low high held => grows t n (all t n low high held)⟩

theorem Sound.seat (sound : Sound m) (member : id ∈ m.m_listUserOrder) :
    ∃ front pUser back, Seat m.m_userlist id front pUser back ∧ pUser.isRunning = true := by
  rw [sound.order, runningIDs, List.mem_map] at member
  obtain ⟨pUser, inside, mine⟩ := member
  obtain ⟨present, running⟩ := List.mem_filter.mp inside
  obtain ⟨front, other, back, seat⟩ := exists_seat sound.ids
    (List.mem_map.mpr ⟨pUser, present, mine⟩)
  rw [seat.list, List.mem_append, List.mem_cons] at present
  obtain early | rfl | late := present
  · exact absurd mine (seat.before pUser early)
  · exact ⟨front, pUser, back, seat, running⟩
  · exact absurd mine (seat.behind pUser late)

theorem runningIDs_seat (seat : Seat userlist id front pUser back) :
    runningIDs userlist = if pUser.isRunning then runningIDs front ++ id :: runningIDs back
      else runningIDs front ++ runningIDs back := by
  rw [runningIDs, seat.list, List.filter_append, List.filter_cons]
  split
  · rw [List.map_append, List.map_cons, seat.mine, runningIDs, runningIDs]
  · rw [List.map_append, runningIDs, runningIDs]

theorem not_mem_runningIDs (others : ∀ other ∈ userlist, other.m_iUserID ≠ id) :
    id ∉ runningIDs userlist := by
  rw [runningIDs, List.mem_map]
  rintro ⟨other, inside, same⟩
  exact others other (List.mem_of_mem_filter inside) same

theorem filter_order (seat : Seat userlist id front pUser back) :
    (runningIDs userlist).filter (· ≠ id) = runningIDs front ++ runningIDs back := by
  have keep (l : List SGUser) (others : ∀ other ∈ l, other.m_iUserID ≠ id) :
      (runningIDs l).filter (· ≠ id) = runningIDs l :=
    List.filter_eq_self.mpr fun i inside =>
      decide_eq_true fun same => not_mem_runningIDs others (same ▸ inside)
  rw [runningIDs_seat seat]
  split
  · rw [List.filter_append, List.filter_cons_of_neg (by simp), keep front seat.before,
      keep back seat.behind]
  · rw [List.filter_append, keep front seat.before, keep back seat.behind]

/-- One user changes, and what it gives away is on the table. -/
theorem Sound.change (sound : Sound m) (seat : Seat m.m_userlist id front pUser back)
    (running : pUser.isRunning = true) (list : m₁.m_userlist = front ++ pUser₁ :: back)
    (mine : pUser₁.m_iUserID = id) (fair : Fair m₁.m_pTable pUser₁)
    (grows : ∀ t n, m.m_pTable t n = true → m₁.m_pTable t n = true)
    (kept : ∀ t n, 1 ≤ n → n ≤ maxCardNum →
      (if pUser₁.isRunning && pUser₁.cards t n then 1 else 0) +
          (if m₁.m_pTable t n then 1 else 0) =
        (if pUser.cards t n then 1 else 0) + if m.m_pTable t n then 1 else 0)
    (order : m₁.m_listUserOrder =
      if pUser₁.isRunning then m.m_listUserOrder else m.m_listUserOrder.filter (· ≠ id))
    (alive : m₁.m_iAlivePlayer =
      if pUser₁.isRunning then m.m_iAlivePlayer else m.m_iAlivePlayer - 1) : Sound m₁ := by
  have seat₁ : Seat m₁.m_userlist id front pUser₁ back := list ▸ seat.change mine
  have ids : m₁.m_userlist.map SGUser.m_iUserID = m.m_userlist.map SGUser.m_iUserID := by
    rw [list, seat.list, List.map_append, List.map_append, List.map_cons, List.map_cons, mine,
      seat.mine]
  have before : runningIDs m.m_userlist = runningIDs front ++ id :: runningIDs back := by
    rw [runningIDs_seat seat, if_pos running]
  refine ⟨ids ▸ sound.ids, ?_, ?_, ?_, ?_, fun t n low high => ?_⟩
  · rw [← List.length_map SGUser.m_iUserID, ids, List.length_map, sound.size]
  · rw [order, sound.order, runningIDs_seat seat₁]
    split
    · exact before
    · exact filter_order seat
  · rw [order, alive, sound.alive, sound.order]
    split
    · rfl
    · rw [filter_order seat, before, List.length_append, List.length_append, List.length_cons]
      omega
  · refine (seat₁.forall_iff _).mpr ⟨fun other inside => ?_, fair⟩
    exact (((seat.forall_iff _).mp sound.fair).1 other inside).grow grows
  · have once := sound.cards t n low high
    rw [seat.count, running, Bool.true_and] at once
    rw [seat₁.count, Nat.add_assoc, kept t n low high, ← Nat.add_assoc, once]

/-! ## The end of a turn -/

structure Live (b : SGBattle) : Prop where
  sound : Sound b.m_pSevenGameManager
  current : b.m_pSevenGameManager.m_pCurrentUserID ∈ b.m_pSevenGameManager.m_listUserOrder
  play : b.m_nGameState = .sgGamePlay → 2 ≤ b.m_pSevenGameManager.m_listUserOrder.length
  gameOver : b.m_nGameState = .sgGameOver → b.m_pSevenGameManager.m_listUserOrder.length = 1 ∧
    b.m_pSevenGameManager.m_vecWinner ≠ []

theorem Sound.nodup_order (sound : Sound m) : m.m_listUserOrder.Nodup := by
  rw [sound.order, runningIDs]
  exact (List.filter_sublist.map _).nodup sound.ids

theorem getNextUserID_spec (nodup : m.m_listUserOrder.Nodup) (member : id ∈ m.m_listUserOrder) :
    m.getNextUserID id ∈ m.m_listUserOrder ∧
      (2 ≤ m.m_listUserOrder.length → m.getNextUserID id ≠ id) := by
  obtain ⟨front, back, split⟩ := List.append_of_mem member
  rw [split, List.nodup_middle, List.nodup_cons, List.mem_append, not_or] at nodup
  obtain ⟨⟨before, behind⟩, -⟩ := nodup
  have others : ∀ i ∈ front, decide (i ≠ id) = true := fun i inside =>
    decide_eq_true fun same => before (same ▸ inside)
  have dropped : m.m_listUserOrder.dropWhile (· ≠ id) = id :: back := by
    rw [split, List.dropWhile_append_of_pos others, List.dropWhile_cons_of_neg (by simp)]
  rw [SGManager.getNextUserID, dropped, split]
  cases back with
  | cons next back =>
      refine ⟨List.mem_append_right _ (List.mem_cons_of_mem _ List.mem_cons_self), fun _ same => ?_⟩
      exact behind (same ▸ List.mem_cons_self)
  | nil =>
      cases front with
      | nil => exact ⟨List.mem_cons_self, fun two => absurd two (by simp)⟩
      | cons first front =>
          exact ⟨List.mem_cons_self, fun _ same => before (same ▸ List.mem_cons_self)⟩

/-- Where the users are in order the turn can end. -/
theorem endTurn_closes (b : SGBattle) (tickCount : UInt32) (sound : Sound m)
    (current : m.m_pCurrentUserID ∈ m.m_listUserOrder)
    (winner : m.m_listUserOrder.length = 1 → m.m_vecWinner ≠ [])
    (gameOver : b.m_nGameState = .sgGameOver → m.m_listUserOrder.length = 1) :
    ∃ b', (if m.checkGameEnd then
        (sendWinner { b with m_pSevenGameManager := m }).map fun b =>
          { b with m_nGameState := .sgGameOver, m_dwLastTickCount := tickCount }
      else sendCurrentTurn { b with m_pSevenGameManager := m } tickCount) = some b' ∧
        Live b' ∧ b'.m_pSevenGameManager = m := by
  have some : 0 < m.m_listUserOrder.length := List.length_pos_of_mem current
  rw [SGManager.checkGameEnd, sound.alive]
  by_cases single : m.m_listUserOrder.length = 1
  · obtain ⟨first, rest, winners⟩ := List.exists_cons_of_ne_nil (winner single)
    rw [if_pos (by simp [single]), sendWinner]
    simp only [winners, List.head?_cons, Option.map_some]
    refine ⟨_, rfl, ⟨sound, current, fun play => ?_, fun _ => ⟨single, winner single⟩⟩, rfl⟩
    cases play
  · obtain ⟨front, pUser, back, seat, -⟩ := sound.seat current
    rw [if_neg (by simp only [decide_eq_true_eq]; omega), sendCurrentTurn]
    simp only [seat.find, Option.map_some]
    have two : 2 ≤ m.m_listUserOrder.length := by omega
    exact ⟨_, rfl, ⟨sound, current, fun _ => two, fun ended => absurd (gameOver ended) single⟩, rfl⟩

/-- What a pass or a card does, before its user is evaluated. -/
structure Moved (m : SGManager) (id : Int) (front : List SGUser) (pUser : SGUser)
    (back : List SGUser) (m₁ : SGManager) (pUser₁ : SGUser) : Prop where
  list : m₁.m_userlist = front ++ pUser₁ :: back
  mine : pUser₁.m_iUserID = id
  running : pUser₁.isRunning = true
  order : m₁.m_listUserOrder = m.m_listUserOrder
  alive : m₁.m_iAlivePlayer = m.m_iAlivePlayer
  winners : m₁.m_vecWinner = m.m_vecWinner
  grows : ∀ t n, m.m_pTable t n = true → m₁.m_pTable t n = true
  kept : ∀ t n, 1 ≤ n → n ≤ maxCardNum →
    (if pUser₁.cards t n then 1 else 0) + (if m₁.m_pTable t n then 1 else 0) =
      (if pUser.cards t n then 1 else 0) + if m.m_pTable t n then 1 else 0
  total : pUser₁.m_TotalCardNum = pUser₁.cards.count
  ticket : 0 ≤ pUser₁.m_iPassTicketCnt ∨ 0 < pUser₁.cards.count

theorem heldOnce_most {counts : SGUser → Bool} (once : HeldOnce m counts)
    (member : pUser ∈ m.m_userlist) (counted : counts pUser = true) {t : CardType} {n : Nat}
    (low : 1 ≤ n) (high : n ≤ maxCardNum) (held : pUser.cards t n = true) :
    m.m_pTable t n = false := by
  have one := once t n low high
  have some : 0 < m.m_userlist.countP fun pUser => counts pUser && pUser.cards t n :=
    List.countP_pos_iff.mpr ⟨pUser, member, by rw [counted, held]; rfl⟩
  by_contra laid
  rw [if_pos (Bool.of_not_eq_false laid)] at one
  omega

theorem Moved.turn (moved : Moved m id front pUser back m₁ pUser₁) (next : Int) :
    Moved m id front pUser back { m₁ with m_pCurrentUserID := next } pUser₁ :=
  { moved with }

theorem sendUserCardToTable_apply {pTable : Cards} {t : CardType} {n : Nat} (low : 1 ≤ n)
    (high : n ≤ maxCardNum) :
    pUser.sendUserCardToTable pTable t n = (pUser.cards t n || pTable t n) := by
  rw [SGUser.sendUserCardToTable]
  by_cases held : pUser.cards t n = true
  · rw [if_pos ⟨low, high, held⟩, held, Bool.true_or]
  · rw [if_neg fun all => held all.2.2, Bool.eq_false_iff.mpr held, Bool.false_or]

theorem Moved.most (moved : Moved m id front pUser back m₁ pUser₁) (sound : Sound m)
    (seat : Seat m.m_userlist id front pUser back) (running : pUser.isRunning = true)
    {t : CardType} {n : Nat} (low : 1 ≤ n) (high : n ≤ maxCardNum)
    (held : pUser₁.cards t n = true) : m₁.m_pTable t n = false := by
  have kept := moved.kept t n low high
  rw [if_pos held] at kept
  by_contra laid
  rw [if_pos (Bool.of_not_eq_false laid)] at kept
  split at kept
  · rename_i before
    rw [heldOnce_most sound.cards seat.mem running low high before] at kept
    exact absurd kept (by decide)
  · split at kept <;> omega

/-- The three ways in which a user is evaluated. -/
theorem Moved.evaluate (moved : Moved m id front pUser back m₁ pUser₁) (sound : Sound m)
    (seat : Seat m.m_userlist id front pUser back) (running : pUser.isRunning = true) :
    ∃ answer m₂, m₁.evaluateUser id = some (answer, m₂) ∧ Sound m₂ ∧
      m₂.m_pCurrentUserID = m₁.m_pCurrentUserID ∧
        (m₂ = m₁ ∧ 0 ≤ pUser₁.m_iPassTicketCnt ∧ 0 < pUser₁.cards.count ∨
          ¬(0 ≤ pUser₁.m_iPassTicketCnt ∧ 0 < pUser₁.cards.count) ∧
            m₂.m_listUserOrder = m.m_listUserOrder.filter (· ≠ id) ∧
              (m₂.m_listUserOrder.length = 1 → m₂.m_vecWinner ≠ [])) := by
  have seat₁ : Seat m₁.m_userlist id front pUser₁ back := moved.list ▸ seat.change moved.mine
  have edited := seat₁.edit SGUser.setGameEnd
  rw [SGManager.evaluateUser, seat₁.find, Option.map_some]
  by_cases out : pUser₁.m_iPassTicketCnt < 0
  · have held := moved.ticket.resolve_left (by omega)
    rw [if_pos out]
    refine ⟨_, _, rfl, sound.change seat running edited moved.mine ?_ ?_ ?_ ?_ ?_, rfl,
      .inr ⟨by omega, ?_, fun single => ?_⟩⟩
    · refine .inl ⟨out, held, fun t n low high has => ?_⟩
      have has : pUser₁.cards t n = true := has
      change pUser₁.sendUserCardToTable m₁.m_pTable t n = true
      rw [sendUserCardToTable_apply low high, has, Bool.true_or]
    · intro t n laid
      change pUser₁.sendUserCardToTable m₁.m_pTable t n = true
      rw [SGUser.sendUserCardToTable]
      split
      · rfl
      · exact moved.grows t n laid
    · intro t n low high
      change 0 + (if pUser₁.sendUserCardToTable m₁.m_pTable t n = true then 1 else 0) = _
      rw [← moved.kept t n low high, sendUserCardToTable_apply low high]
      by_cases has : pUser₁.cards t n = true
      · rw [if_pos has, moved.most sound seat running low high has, has]
        rfl
      · rw [if_neg has, Bool.eq_false_iff.mpr has, Bool.false_or]
    · simp only [moved.order]
      rfl
    · simp only [moved.alive]
      rfl
    · simp only [moved.order]
    · simp only [if_pos single]
      intro empty
      rw [List.append_eq_nil_iff, List.take_eq_nil_iff] at empty
      obtain zero | nil := empty.2
      · cases zero
      · simp only [nil] at single
        cases single
  · by_cases through : pUser₁.m_TotalCardNum = 0
    · have noCard : pUser₁.cards.count = 0 := by
        have := moved.total
        omega
      rw [if_neg out, if_pos through]
      refine ⟨_, _, rfl, sound.change seat running edited moved.mine ?_ moved.grows ?_ ?_ ?_, rfl,
        .inr ⟨by omega, ?_, fun _ => ?_⟩⟩
      · exact .inr ⟨not_lt.mp out, noCard⟩
      · intro t n low high
        rw [← moved.kept t n low high, count_eq_zero.mp noCard t n low high]
        rfl
      · simp only [moved.order]
        rfl
      · simp only [moved.alive]
        rfl
      · simp only [moved.order]
      · exact List.append_ne_nil_of_right_ne_nil _ (List.cons_ne_nil _ _)
    · have cards : 0 < pUser₁.cards.count := by
        have := moved.total
        omega
      have ticket := not_lt.mp out
      rw [if_neg out, if_neg through]
      refine ⟨_, _, rfl, sound.change seat running moved.list moved.mine ?_ moved.grows ?_ ?_ ?_,
        rfl, .inl ⟨rfl, ticket, cards⟩⟩
      · rw [Fair, of_decide_eq_true moved.running]
        exact ⟨ticket, moved.total, cards⟩
      · intro t n low high
        rw [← moved.kept t n low high, moved.running, Bool.true_and]
      · rw [moved.running, moved.order, if_pos rfl]
      · rw [moved.running, moved.alive, if_pos rfl]

theorem Moved.endTurn (moved : Moved b.m_pSevenGameManager id front pUser back m₁ pUser₁)
    (live : Live b) (seat : Seat b.m_pSevenGameManager.m_userlist id front pUser back)
    (running : pUser.isRunning = true) (member : id ∈ b.m_pSevenGameManager.m_listUserOrder)
    (gameOver : b.m_nGameState = .sgGameOver →
      0 ≤ pUser₁.m_iPassTicketCnt ∧ 0 < pUser₁.cards.count) :
    ∃ b', b.endTurn m₁ id tickCount = some b' ∧ Live b' ∧
      (0 ≤ pUser₁.m_iPassTicketCnt → 0 < pUser₁.cards.count →
        b'.m_pSevenGameManager.m_userlist = m₁.m_userlist ∧
        b'.m_pSevenGameManager.m_pTable = m₁.m_pTable ∧
        b'.m_pSevenGameManager.m_listUserOrder = m₁.m_listUserOrder) := by
  obtain ⟨inOrder, away⟩ := getNextUserID_spec live.sound.nodup_order member
  have next : m₁.getNextUserID id = b.m_pSevenGameManager.getNextUserID id := by
    rw [SGManager.getNextUserID, SGManager.getNextUserID, moved.order]
  obtain ⟨answer, m₂, evaluated, sound, current, outcome⟩ :=
    (moved.turn (m₁.getNextUserID id)).evaluate live.sound seat running
  rw [SGBattle.endTurn]
  simp only [evaluated, Option.bind_some]
  obtain ⟨rfl, ticket, cards⟩ | ⟨leaves, order, winner⟩ := outcome
  · have same : m₁.m_listUserOrder = b.m_pSevenGameManager.m_listUserOrder := moved.order
    have winner : m₁.m_listUserOrder.length = 1 → m₁.m_vecWinner ≠ [] := by
      rw [same, moved.winners]
      intro single
      cases state : b.m_nGameState with
      | sgGamePlay =>
          have two := live.play state
          omega
      | sgGameOver => exact (live.gameOver state).2
    obtain ⟨b', result, live', manager⟩ := endTurn_closes b tickCount sound
      (by simp only [same, next, inOrder]) winner (fun ended => same ▸ (live.gameOver ended).1)
    exact ⟨b', result, live', fun _ _ => by rw [manager]; exact ⟨rfl, rfl, rfl⟩⟩
  · have play : b.m_nGameState ≠ .sgGameOver := fun ended => leaves (gameOver ended)
    have two : 2 ≤ b.m_pSevenGameManager.m_listUserOrder.length := by
      cases state : b.m_nGameState with
      | sgGamePlay => exact live.play state
      | sgGameOver => exact absurd state play
    have stays : m₂.m_pCurrentUserID ∈ m₂.m_listUserOrder := by
      rw [current, order, List.mem_filter]
      simp only [next]
      exact ⟨inOrder, decide_eq_true (away two)⟩
    obtain ⟨b', result, live', -⟩ := endTurn_closes b tickCount sound stays winner
      (fun ended => absurd ended play)
    exact ⟨b', result, live', fun ticket cards => absurd ⟨ticket, cards⟩ leaves⟩

/-! ## Passes and cards -/

theorem fair_running {pTable : Cards} (fair : Fair pTable pUser)
    (running : pUser.isRunning = true) : 0 ≤ pUser.m_iPassTicketCnt ∧
      pUser.m_TotalCardNum = pUser.cards.count ∧ 0 < pUser.cards.count := by
  rw [Fair, of_decide_eq_true running] at fair
  exact fair

theorem moved_pass (sound : Sound m) (seat : Seat m.m_userlist id front pUser back)
    (running : pUser.isRunning = true) :
    Moved m id front pUser back (m.edit id SGUser.decreasePassTicketCnt)
      pUser.decreasePassTicketCnt := by
  obtain ⟨-, total, cards⟩ := fair_running (sound.fair pUser seat.mem) running
  exact ⟨seat.edit _, seat.mine, running, rfl, rfl, rfl, fun _ _ laid => laid,
    fun _ _ _ _ => rfl, total, .inr cards⟩

theorem moved_card (sound : Sound m) (seat : Seat m.m_userlist id front pUser back)
    (running : pUser.isRunning = true) {info : SCardInfo}
    (close : info.iCardNum ∈ SGAlgorithm.closeCards m.m_pTable pUser info.iCardType) :
    Moved m id front pUser back
      ((m.edit id fun pUser =>
        pUser.eliminateCard info.iCardNum info.iCardType).updateTableState info)
      (pUser.eliminateCard info.iCardNum info.iCardType) := by
  obtain ⟨held, low, high, -⟩ := mem_closeCards.mp close
  obtain ⟨ticket, total, -⟩ := fair_running (sound.fair pUser seat.mem) running
  have free := heldOnce_most sound.cards seat.mem running low high held
  refine ⟨seat.edit _, seat.mine, running, rfl, rfl, rfl, fun t n laid => ?_,
    fun t n _ _ => ?_, ?_, .inl ticket⟩
  · change m.m_pTable.put info.iCardType info.iCardNum t n = true
    rw [put_apply, laid, ite_self]
  · change (if pUser.cards.take info.iCardType info.iCardNum t n = true then 1 else 0) +
      (if m.m_pTable.put info.iCardType info.iCardNum t n = true then 1 else 0) = _
    rw [take_apply, put_apply]
    by_cases same : t = info.iCardType ∧ n = info.iCardNum
    · rw [if_pos same, if_pos same, same.1, same.2, held, free]
      rfl
    · rw [if_neg same, if_neg same]
  · have counted := count_take low high held
    change pUser.m_TotalCardNum - 1 = ((pUser.cards.take info.iCardType info.iCardNum).count : Int)
    omega

/-! ## One event -/

/-- The current user, in its place. -/
theorem Live.seat (live : Live b) : ∃ front pUser back,
    Seat b.m_pSevenGameManager.m_userlist b.m_pSevenGameManager.m_pCurrentUserID front pUser back ∧
      pUser.isRunning = true ∧ 0 ≤ pUser.m_iPassTicketCnt ∧ 0 < pUser.cards.count := by
  obtain ⟨front, pUser, back, seat, running⟩ := live.sound.seat live.current
  obtain ⟨ticket, -, cards⟩ := fair_running (live.sound.fair pUser seat.mem) running
  exact ⟨front, pUser, back, seat, running, ticket, cards⟩

theorem hands_edit (seat : Seat m.m_userlist id front pUser back) {change : SGUser → SGUser}
    (same : (change pUser).cards = pUser.cards) :
    (m.edit id change).m_userlist.map SGUser.cards = m.m_userlist.map SGUser.cards := by
  rw [seat.edit, seat.list, List.map_append, List.map_append, List.map_cons, List.map_cons, same]

theorem live_pass (tickCount : UInt32) (live : Live b)
    (seat : Seat b.m_pSevenGameManager.m_userlist b.m_pSevenGameManager.m_pCurrentUserID front
      pUser back) (running : pUser.isRunning = true)
    (inTime : b.m_nGameState = .sgGameOver → pUser.m_iPassTicketCnt ≠ 0) :
    ∃ b', b.processTurnPass b.m_pSevenGameManager.m_pCurrentUserID tickCount = some b' ∧ Live b' ∧
      (b.m_nGameState = .sgGameOver → SameBoard b b') := by
  obtain ⟨ticket, -, cards⟩ := fair_running (live.sound.fair pUser seat.mem) running
  have left (gameOver : b.m_nGameState = .sgGameOver) :
      0 ≤ pUser.decreasePassTicketCnt.m_iPassTicketCnt := by
    have := inTime gameOver
    change 0 ≤ pUser.m_iPassTicketCnt - 1
    omega
  obtain ⟨b', result, live', board⟩ := (moved_pass live.sound seat running).endTurn live seat
    running live.current fun gameOver => ⟨left gameOver, cards⟩
  refine ⟨b', ?_, live', fun gameOver => ?_⟩
  · rw [processTurnPass, SGManager.processTurnPass, seat.find]
    simp only [Option.map_some, if_neg (not_lt.mpr ticket), Option.bind_some, if_true]
    exact result
  · obtain ⟨hands, table, order⟩ := board (left gameOver) cards
    exact ⟨by rw [hands, hands_edit seat rfl], table, order⟩

theorem live_card (tickCount : UInt32) (live : Live b)
    (seat : Seat b.m_pSevenGameManager.m_userlist b.m_pSevenGameManager.m_pCurrentUserID front
      pUser back) (running : pUser.isRunning = true) (play : b.m_nGameState ≠ .sgGameOver)
    {info : SCardInfo} (close : info.iCardNum ∈
      SGAlgorithm.closeCards b.m_pSevenGameManager.m_pTable pUser info.iCardType) :
    ∃ b', b.endTurn ((b.m_pSevenGameManager.edit b.m_pSevenGameManager.m_pCurrentUserID fun pUser =>
        pUser.eliminateCard info.iCardNum info.iCardType).updateTableState info)
      b.m_pSevenGameManager.m_pCurrentUserID tickCount = some b' ∧ Live b' := by
  obtain ⟨b', result, live', -⟩ := (moved_card live.sound seat running close).endTurn live seat
    running live.current fun gameOver => absurd gameOver play
  exact ⟨b', result, live'⟩

theorem sameBoard_self (b : SGBattle) : SameBoard b b := ⟨rfl, rfl, rfl⟩

theorem playsOn_of_pass (seat : Seat b.m_pSevenGameManager.m_userlist
    b.m_pSevenGameManager.m_pCurrentUserID front pUser back)
    (ticket : pUser.m_iPassTicketCnt = 0) :
    b.PlaysOn (.turnPass b.m_pSevenGameManager.m_pCurrentUserID tickCount) :=
  ⟨pUser, seat.find, seat.mine.symm, ticket⟩

/-- A packet in time is answered, and leaves the board alone when the game is over. -/
theorem live_packet (live : Live b) {event : Event} (packet : event.IsPacket)
    (inTime : b.InTime event) : ∃ b', Steps b event b' ∧ Live b' ∧
      (b.m_nGameState = .sgGameOver → SameBoard b b') := by
  obtain ⟨front, pUser, back, seat, running, ticket, cards⟩ := live.seat
  cases event with
  | turnPass serial tickCount =>
      by_cases turn : b.m_pSevenGameManager.m_pCurrentUserID = serial
      · subst turn
        obtain ⟨b', result, live', board⟩ := live_pass tickCount live seat running
          fun gameOver none => inTime gameOver (playsOn_of_pass seat none)
        exact ⟨b', by rw [Steps, onTurnPass, if_neg (not_not.mpr rfl), result], live', board⟩
      · exact ⟨b, by rw [Steps, onTurnPass, if_pos turn], live, fun _ => sameBoard_self b⟩
  | cardSubmit serial cardtype cardnum tickCount =>
      by_cases turn : b.m_pSevenGameManager.m_pCurrentUserID = serial
      · subst turn
        obtain ⟨info, suit, number, close, accepted⟩ | ⟨-, refused⟩ :=
          processCardSubmit_cases seat.find cardtype cardnum
        · have play : b.m_nGameState ≠ .sgGameOver := fun gameOver => inTime gameOver
            ⟨pUser, seat.find, seat.mine.symm, info, suit, number, close⟩
          obtain ⟨b', result, live'⟩ := live_card tickCount live seat running play
            close
          refine ⟨b', ?_, live', fun gameOver => absurd gameOver play⟩
          rw [Steps, onCardSubmit, if_neg (not_not.mpr rfl), accepted]
          exact result
        · refine ⟨b, ?_, live, fun _ => sameBoard_self b⟩
          rw [Steps, onCardSubmit, if_neg (not_not.mpr rfl), refused]
          rfl
      · exact ⟨b, by rw [Steps, onCardSubmit, if_pos turn], live, fun _ => sameBoard_self b⟩
  | update => cases packet

theorem endTurn_manager {answer : Int} {m₂ : SGManager}
    (evaluated : { m₁ with m_pCurrentUserID := m₁.getNextUserID id }.evaluateUser id =
      some (answer, m₂)) (result : b.endTurn m₁ id tickCount = some b') :
    b'.m_pSevenGameManager = m₂ := by
  simp only [SGBattle.endTurn, evaluated, Option.bind_some] at result
  split at result
  · obtain ⟨ended, sent, rfl⟩ := Option.map_eq_some_iff.mp result
    obtain ⟨-, -, rfl⟩ := Option.map_eq_some_iff.mp sent
    rfl
  · obtain ⟨-, -, rfl⟩ := Option.map_eq_some_iff.mp result
    rfl

/-- The user whose turn ended has left the order, or the table is what its move made of it. -/
theorem Moved.board (moved : Moved b.m_pSevenGameManager id front pUser back m₁ pUser₁)
    (live : Live b) (seat : Seat b.m_pSevenGameManager.m_userlist id front pUser back)
    (running : pUser.isRunning = true) (member : id ∈ b.m_pSevenGameManager.m_listUserOrder)
    (result : b.endTurn m₁ id tickCount = some b') (same : SameBoard b b') :
    0 ≤ pUser₁.m_iPassTicketCnt ∧ m₁.m_pTable = b.m_pSevenGameManager.m_pTable := by
  obtain ⟨answer, m₂, evaluated, -, -, outcome⟩ :=
    (moved.turn (m₁.getNextUserID id)).evaluate live.sound seat running
  obtain rfl := endTurn_manager evaluated result
  obtain ⟨stays, ticket, -⟩ | ⟨-, order, -⟩ := outcome
  · exact ⟨ticket, by rw [← same.table, stays]⟩
  · rw [← order.symm.trans same.order, List.mem_filter, decide_eq_true_eq] at member
    exact absurd rfl member.2

theorem playsOn_changes (live : Live b) {event : Event} (plays : b.PlaysOn event)
    (step : Steps b event b') : ¬SameBoard b b' := by
  intro same
  obtain ⟨front, pUser, back, seat, running, ticket, -⟩ := live.seat
  obtain ⟨pUser', found, plays⟩ := plays
  obtain rfl := Option.some.inj (found.symm.trans seat.find)
  cases event with
  | turnPass serial tickCount =>
      obtain ⟨rfl, none⟩ := plays
      rw [Steps, onTurnPass, if_neg (not_not.mpr seat.mine.symm), processTurnPass,
        SGManager.processTurnPass, seat.find] at step
      simp only [Option.map_some, if_neg (not_lt.mpr ticket), Option.bind_some, if_true] at step
      have kept := (moved_pass live.sound seat running).board live seat running live.current step
        same
      have left : 0 ≤ pUser'.m_iPassTicketCnt - 1 := kept.1
      omega
  | cardSubmit serial cardtype cardnum tickCount =>
      obtain ⟨rfl, info, rfl, rfl, close⟩ := plays
      obtain ⟨info', suit, number, close', accepted⟩ | ⟨refused, -⟩ :=
        processCardSubmit_cases seat.find info.iCardType.toInt info.iCardNum
      · rw [Steps, onCardSubmit, if_neg (not_not.mpr seat.mine.symm), accepted] at step
        have table := ((moved_card live.sound seat running close').board live seat running
          live.current step same).2
        obtain ⟨held, low, high, -⟩ := mem_closeCards.mp close'
        have free := heldOnce_most live.sound.cards seat.mem running low high held
        have laid : b.m_pSevenGameManager.m_pTable.put info'.iCardType info'.iCardNum
            info'.iCardType info'.iCardNum = true := by rw [put_apply, if_pos ⟨rfl, rfl⟩]
        rw [show b.m_pSevenGameManager.m_pTable.put info'.iCardType info'.iCardNum =
          b.m_pSevenGameManager.m_pTable from table, free] at laid
        cases laid
      · exact refused info rfl rfl close
  | update => exact plays

/-- The turn of a computer player. -/
theorem live_updateAI (live : Live b) (play : b.m_nGameState = .sgGamePlay)
    (tickCount : UInt32) :
    ∃ b', b.updateAI b.m_pSevenGameManager.m_pCurrentUserID tickCount = some b' ∧ Live b' := by
  obtain ⟨front, pBot, back, seat, running, ticket, cards⟩ := live.seat
  have going : b.m_nGameState ≠ .sgGameOver := by
    rw [play]
    decide
  have mine := seat.mine
  rw [updateAI, seat.find, Option.bind_some, SGManager.processAI]
  cases action : SGAlgorithm.getNextAction (some b.m_pSevenGameManager.m_userlist)
      b.m_pSevenGameManager.m_pTable pBot with
  | pass =>
      obtain ⟨b', result, live', -⟩ := (moved_pass live.sound seat running).endTurn live seat
        running live.current fun gameOver => absurd gameOver going
      refine ⟨b', ?_, live'⟩
      simp only [Option.bind_some, mine]
      exact result
  | submit choice =>
      obtain ⟨info, rfl, close⟩ := submits_close action
      obtain ⟨b', result, live'⟩ := live_card tickCount live seat running going close
      refine ⟨b', ?_, live'⟩
      simp only [Option.bind_some, mine]
      exact result

/-! ## A new game -/

/-- What dealing makes of a user. -/
def seated (pUser : SGUser) : SGUser :=
  { pUser.setSevenCardNull.setTotalCard with
    m_iPassTicketCnt := maxPassTicket, m_iStatus := .gameRunning }

theorem setSevenCardNull_apply (pUser : SGUser) (t : CardType) (n : Nat) :
    pUser.setSevenCardNull.cards t n = if n = 7 then false else pUser.cards t n := by
  simp only [SGUser.setSevenCardNull, take_apply]
  by_cases seven : n = 7
  · cases t <;> simp [seven]
  · simp [seven]

theorem setSevenCard_apply (t : CardType) (n : Nat) :
    SGTable.setSevenCard SGTable.initializeTable t n = decide (n = 7) := by
  simp only [SGTable.setSevenCard, SGTable.initializeTable, put_apply, none_apply]
  by_cases seven : n = 7
  · cases t <;> simp [seven]
  · simp [seven]

theorem fair_seated (pTable : Cards) (hand : pUser.cards.count = maxCardNum) :
    Fair pTable (seated pUser) := by
  have spade := le_count_take pUser.cards .spade 7
  have heart := le_count_take (pUser.cards.take .spade 7) .heart 7
  have diamond := le_count_take ((pUser.cards.take .spade 7).take .heart 7) .diamond 7
  have clover :=
    le_count_take (((pUser.cards.take .spade 7).take .heart 7).take .diamond 7) .clover 7
  rw [maxCardNum] at hand
  refine ⟨show (0 : Int) ≤ maxPassTicket by decide, rfl, ?_⟩
  change 0 < ((((pUser.cards.take .spade 7).take .heart 7).take .diamond 7).take .clover 7).count
  omega

/-- One place only. -/
theorem countP_eq_one {p : SGUser → Bool} (one : ∃ (k : Nat) (user : SGUser),
    userlist[k]? = some user ∧ p user = true ∧
      ∀ (j : Nat) (other : SGUser), userlist[j]? = some other → p other = true → j = k) :
    userlist.countP p = 1 := by
  induction userlist with
  | nil =>
      obtain ⟨k, user, found, -⟩ := one
      cases found
  | cons first rest ih =>
      obtain ⟨k, user, found, holds, only⟩ := one
      by_cases here : p first = true
      · have zero := only 0 first rfl here
        subst zero
        rw [List.countP_cons_of_pos here, List.countP_eq_zero.mpr fun other inside holds => ?_]
        obtain ⟨j, at_j⟩ := List.mem_iff_getElem?.mp inside
        exact absurd (only (j + 1) other at_j holds) (Nat.succ_ne_zero j)
      · rw [List.countP_cons_of_neg here]
        cases k with
        | zero => exact absurd (Option.some.inj found ▸ holds) here
        | succ k =>
            exact ih ⟨k, user, found, holds, fun j other at_j holds =>
              Nat.succ.inj (only (j + 1) other at_j holds)⟩

theorem id_foldl_updateUserCard (l : List Int) (pUser : SGUser) :
    (l.foldl SGUser.updateUserCard pUser).m_iUserID = pUser.m_iUserID := by
  induction l generalizing pUser with
  | nil => rfl
  | cons i l ih =>
      rw [List.foldl_cons, ih, SGUser.updateUserCard]
      split_ifs <;> rfl

theorem ids_distribute (l : List Int) (userlist : List SGUser) (iCardCount iUserIndex : Nat) :
    (Distribution.distribute l userlist iCardCount iUserIndex).map SGUser.m_iUserID =
      userlist.map SGUser.m_iUserID := by
  induction userlist generalizing iCardCount iUserIndex with
  | nil => rfl
  | cons first rest ih =>
      rw [Distribution.distribute, List.map_cons, List.map_cons, ih, id_foldl_updateUserCard]
      rfl

/-- Users with thirteen cards each, and every card with one of them. -/
theorem sound_seated {hands : List SGUser} (ids : (hands.map SGUser.m_iUserID).Nodup)
    (size : hands.length = 4) (shared : Distribution.SharedOut hands)
    (list : m.m_userlist.Perm (hands.map seated))
    (order : m.m_listUserOrder = m.m_userlist.map SGUser.m_iUserID) (alive : m.m_iAlivePlayer = 4)
    (table : m.m_pTable = SGTable.setSevenCard SGTable.initializeTable) : Sound m := by
  have same : (hands.map seated).map SGUser.m_iUserID = hands.map SGUser.m_iUserID := by
    rw [List.map_map]
    rfl
  have length : m.m_userlist.length = 4 := by rw [list.length_eq, List.length_map, size]
  have running : ∀ pUser ∈ m.m_userlist, pUser.isRunning = true := fun pUser inside => by
    obtain ⟨before, -, rfl⟩ := List.mem_map.mp (list.mem_iff.mp inside)
    rfl
  refine ⟨?_, length, ?_, ?_, fun pUser inside => ?_, fun t n low high => ?_⟩
  · exact (list.map SGUser.m_iUserID).nodup_iff.mpr (same ▸ ids)
  · rw [order, runningIDs, List.filter_eq_self.mpr running]
  · rw [alive, order, List.length_map, length]
    rfl
  · obtain ⟨before, held, rfl⟩ := List.mem_map.mp (list.mem_iff.mp inside)
    exact fair_seated _ (shared.equal before held)
  · rw [list.countP_eq, List.countP_map, table, setSevenCard_apply]
    have cards (pUser : SGUser) : ((seated pUser).isRunning && (seated pUser).cards t n) =
        if n = 7 then false else pUser.cards t n := by
      rw [← setSevenCardNull_apply]
      exact Bool.true_and _
    simp only [Function.comp_def, cards]
    by_cases seven : n = 7
    · simp [seven]
    · simp only [if_neg seven, decide_eq_true_eq, Nat.add_zero]
      exact countP_eq_one (shared.each t n low high)

theorem resets_live (ids : (b.m_pSevenGameManager.m_userlist.map SGUser.m_iUserID).Nodup)
    (size : b.m_pSevenGameManager.m_userlist.length = 4) (play : b.m_nGameState = .sgGamePlay)
    (resets : Resets b tickCount b') : Live b' := by
  obtain ⟨stack, history, d, userlist, run, ended, shuffled, result⟩ := resets
  have dealt := Dealt.run run
  have whole : d.paCardDistribute.take d.iCardCount = d.paCardDistribute :=
    List.take_of_length_le (by rw [dealt.size, ended])
  have same : (d.hands b.m_pSevenGameManager.m_userlist).map SGUser.m_iUserID =
      b.m_pSevenGameManager.m_userlist.map SGUser.m_iUserID := ids_distribute _ _ _ _
  have four : (d.hands b.m_pSevenGameManager.m_userlist).length = 4 := by
    rw [← size, ← List.length_map SGUser.m_iUserID, same, List.length_map]
  have shared := sharedOut size dealt.size (whole ▸ dealt.nodup) (whole ▸ dealt.allCards)
  obtain ⟨first, first_eq, result⟩ := Option.bind_eq_some_iff.mp result
  obtain ⟨-, -, rfl⟩ := Option.map_eq_some_iff.mp result
  have sound : Sound { (b.m_pSevenGameManager.initializeData d).playerShuffle userlist with
      m_pCurrentUserID := first.m_iUserID } :=
    sound_seated (same ▸ ids) four shared shuffled rfl rfl rfl
  refine ⟨sound, ?_, fun _ => ?_, fun gameOver => ?_⟩
  · exact List.mem_map_of_mem (List.mem_of_head? first_eq)
  · change 2 ≤ (userlist.map SGUser.m_iUserID).length
    have length : userlist.length = 4 := sound.size
    rw [List.length_map, length]
    decide
  · exact absurd (play.symm.trans gameOver) (by decide)

/-! ## All runs -/

theorem steps_unique {event : Event} {b₁ b₂ : SGBattle} (packet : event.IsPacket)
    (step : Steps b event b₁) (step' : Steps b event b₂) : b₁ = b₂ := by
  cases event with
  | turnPass => exact Option.some.inj (step.symm.trans step')
  | cardSubmit => exact Option.some.inj (step.symm.trans step')
  | update => cases packet

/-- The timer while the game is played. -/
theorem live_updatePlay (tickCount : UInt32) (live : Live b)
    (play : b.m_nGameState = .sgGamePlay) :
    ∃ b', b.updatePlay tickCount = some b' ∧ Live b' := by
  obtain ⟨front, pUser, back, seat, running, -⟩ := live.seat
  rw [updatePlay]
  split
  · split
    · exact live_updateAI live play tickCount
    · exact ⟨b, rfl, live⟩
  · split
    · obtain ⟨b', result, live', -⟩ := live_pass tickCount live seat running fun gameOver =>
        absurd (play.symm.trans gameOver) (by decide)
      exact ⟨b', result, live'⟩
    · exact ⟨b, rfl, live⟩

theorem Live.step (live : Live b) {event : Event} (inTime : b.InTime event)
    (step : Steps b event b') : Live b' := by
  have packets (packet : event.IsPacket) : Live b' := by
    obtain ⟨b'', step', live'', -⟩ := live_packet live packet inTime
    exact steps_unique packet step' step ▸ live''
  cases event with
  | turnPass => exact packets trivial
  | cardSubmit => exact packets trivial
  | update tickCount =>
      cases state : b.m_nGameState with
      | sgGamePlay =>
          simp only [Steps, state] at step
          obtain ⟨b'', result, live''⟩ := live_updatePlay tickCount live state
          exact Option.some.inj (result.symm.trans step) ▸ live''
      | sgGameOver =>
          simp only [Steps, state] at step
          split at step
          · have resets : Resets { b with m_nGameState := .sgGamePlay } tickCount b' := step
            refine resets_live ?_ ?_ ?_ resets
            · exact live.sound.ids
            · exact live.sound.size
            · rfl
          · exact step ▸ live

theorem nodup_rosterSerials {memberSerials : List Int} (nodup : memberSerials.Nodup)
    (nonneg : ∀ serial ∈ memberSerials, 0 ≤ serial) : (rosterSerials memberSerials).Nodup := by
  refine nodup.append (List.nodup_range.map fun i j same => ?_) fun serial member bot => ?_
  · omega
  · obtain ⟨i, -, rfl⟩ := List.mem_map.mp bot
    have := nonneg _ member
    omega

theorem enters_live {memberSerials : List Int} (nodup : memberSerials.Nodup)
    (nonneg : ∀ serial ∈ memberSerials, 0 ≤ serial) (few : memberSerials.length ≤ 4)
    (enters : Enters memberSerials tickCount b) : Live b := by
  refine resets_live ?_ ?_ rfl enters
  · simp only [SGManager.addUsers, List.map_map, Function.comp_def, List.map_id']
    exact nodup_rosterSerials nodup nonneg
  · simp only [SGManager.addUsers, rosterSerials, sevenGameMemberNum, List.length_map,
      List.length_append, List.length_range]
    omega

/-! ## What a live game promises -/

theorem Live.coherent (live : Live b) : Coherent b where
  alive := live.sound.alive
  surviving := by
    rw [live.sound.order, runningIDs, List.length_map, List.countP_eq_length_filter]
  current := live.current
  cards := live.sound.cards
  winner gameOver := (live.gameOver gameOver).2

/-- A user that was put out has its cards twice. -/
theorem Live.arrays (live : Live b) :
    HeldOnce b.m_pSevenGameManager (fun _ => true) ↔ b.NoneOut := by
  constructor
  · intro once pUser inside
    by_contra out
    have fair := live.sound.fair pUser inside
    rw [Fair] at fair
    split at fair
    · exact out fair.1
    · obtain ⟨-, cards, all⟩ | ⟨ticket, -⟩ := fair
      · have some : ¬∀ t n, 1 ≤ n → n ≤ maxCardNum → pUser.cards t n = false := fun none =>
          cards.ne' (count_eq_zero.mpr none)
        push Not at some
        obtain ⟨t, n, low, high, held⟩ := some
        have held := Bool.of_not_eq_false held
        have laid := all t n low high held
        rw [heldOnce_most once inside rfl low high held] at laid
        cases laid
      · exact out ticket
  · intro none t n low high
    refine Eq.trans ?_ (live.sound.cards t n low high)
    rw [List.countP_congr fun pUser inside => ?_]
    have fair := live.sound.fair pUser inside
    rw [Fair] at fair
    split at fair
    · rename_i running
      rw [SGUser.isRunning, decide_eq_true running]
    · obtain ⟨out, -⟩ | ⟨-, empty⟩ := fair
      · exact absurd (none pUser inside) (not_le.mpr out)
      · rw [count_eq_zero.mp empty t n low high, Bool.and_false, Bool.and_false]

theorem Live.wellPlayed (live : Live b) : WellPlayed b where
  coherent := live.coherent
  answered event inTime played := by
    have packets (packet : event.IsPacket) : ∃ b', Steps b event b' := by
      obtain ⟨b', step, -⟩ := live_packet live packet inTime
      exact ⟨b', step⟩
    cases event with
    | turnPass => exact packets trivial
    | cardSubmit => exact packets trivial
    | update tickCount =>
        have play := played.resolve_left id
        obtain ⟨b', result, -⟩ := live_updatePlay tickCount live play
        exact ⟨b', by simpa only [Steps, play] using result⟩
  gameOver event b' gameOver packet step := by
    constructor
    · exact fun same _ plays => playsOn_changes live plays step same
    · intro inTime
      obtain ⟨b'', step', -, board⟩ := live_packet live packet inTime
      exact steps_unique packet step' step ▸ board gameOver
  arrays := live.arrays

theorem run_wellPlayed {memberSerials : List Int} {b₀ : SGBattle} {history : List Event}
    (nodup : memberSerials.Nodup) (nonneg : ∀ serial ∈ memberSerials, 0 ≤ serial)
    (few : memberSerials.length ≤ sevenGameMemberNum) (enters : Enters memberSerials tickCount b₀)
    (run : Run (Guarded InTime Steps) b₀ history b) : WellPlayed b := by
  have live : Live b := run.invariant (enters_live nodup nonneg few enters)
    fun _ _ _ live step => live.step step.1 step.2
  exact live.wellPlayed

/-! ## A game of four people -/

def dealtInOrder : Distribution := ⟨(List.range 52).map Int.ofNat, 52⟩

/-- The first has the spades. -/
def firstGame : SGBattle where
  m_pSevenGameManager :=
    { m_userlist :=
        ((SGManager.addUsers (rosterSerials [1, 2, 3, 4])).initializeData dealtInOrder).m_userlist
      m_listUserOrder := [1, 2, 3, 4]
      m_iAlivePlayer := 4
      m_iSuccessNum := 1
      m_pCurrentUserID := 1
      m_pTable := SGTable.setSevenCard SGTable.initializeTable }

def drawn (d : Distribution) (rand : Nat) : Option Distribution :=
  if d.iCardCount < maxCardNum * 4 then some (d.draw rand) else none

theorem run_dealtInOrder :
    Run Distribution.Draws (Distribution.start fun _ => -1) (List.range 52) dealtInOrder := by
  have result : (List.range 52).foldlM drawn (Distribution.start fun _ => -1) =
      some dealtInOrder := by decide +kernel
  refine (Run.of_foldlM drawn _ result).mono fun d rand d' next => ?_
  rw [drawn] at next
  split at next
  · rename_i more
    exact ⟨more, Option.some.inj next⟩
  · cases next

theorem enters_firstGame : Enters [1, 2, 3, 4] 0 firstGame :=
  ⟨_, _, dealtInOrder, _, run_dealtInOrder, rfl, .refl _, rfl⟩

/-- The first one passes. -/
theorem firstPass_wellPlayed :
    ∃ b, Run (Guarded InTime Steps) firstGame [.turnPass 1 0] b ∧ WellPlayed b := by
  obtain ⟨b, step⟩ := Option.isSome_iff_exists.mp
    (by decide +kernel : (firstGame.onTurnPass 1 0).isSome = true)
  have run : Run (Guarded InTime Steps) firstGame [.turnPass 1 0] b :=
    .next .start ⟨fun gameOver => absurd gameOver (by decide), step⟩
  exact ⟨b, run, run_wellPlayed (by decide) (by decide) (by decide) enters_firstGame run⟩

def packet (b : SGBattle) (event : Event) : Option SGBattle :=
  match event with
  | .turnPass serial tickCount => b.onTurnPass serial tickCount
  | .cardSubmit serial cardtype cardnum tickCount =>
      b.onCardSubmit serial cardtype cardnum tickCount
  | .update _ => none

theorem run_packets {history : List Event} (result : history.foldlM packet b = some b') :
    Run Steps b history b' :=
  (Run.of_foldlM packet history result).mono fun _ event _ step => by
    cases event with
    | turnPass => exact step
    | cardSubmit => exact step
    | update => cases step

/-- Fifteen passes, after which only the last user is left. -/
def passes : List Event :=
  [1, 2, 3, 4, 1, 2, 3, 4, 1, 2, 3, 4, 1, 2, 3].map fun serial => .turnPass serial 0

/-- The eight of spades is on the table and with the user that was put out. When the game is over
the last user still gets rid of the eight of clovers. -/
theorem passes_incoherent : Enters [1, 2, 3, 4] 0 firstGame ∧
    (¬∀ history b, Run Steps firstGame history b → b.m_nGameState = .sgGamePlay →
      HeldOnce b.m_pSevenGameManager fun _ => true) ∧
    ¬∀ history b event b', Run Steps firstGame history b → b.m_nGameState = .sgGameOver →
      Event.IsPacket event → Steps b event b' → SameBoard b b' := by
  refine ⟨enters_firstGame, fun once => ?_, fun same => ?_⟩
  · have result : ((passes.take 13).foldlM packet firstGame).map (fun b => (b.m_nGameState,
        b.m_pSevenGameManager.m_userlist.countP (fun pUser => pUser.cards .spade 8),
          b.m_pSevenGameManager.m_pTable .spade 8)) = some (.sgGamePlay, 1, true) := by
      decide +kernel
    obtain ⟨b, run, facts⟩ := Option.map_eq_some_iff.mp result
    simp only [Prod.mk.injEq] at facts
    have one := once _ b (run_packets run) facts.1 .spade 8 (by decide) (by decide)
    simp only [Bool.true_and, facts.2.1, facts.2.2] at one
    cases one
  · have result : (passes.foldlM packet firstGame).map (fun b => (b.m_nGameState,
        b.m_pSevenGameManager.m_pTable .clover 8,
          (packet b (.cardSubmit 4 0 8 0)).map fun b =>
            b.m_pSevenGameManager.m_pTable .clover 8)) =
        some (.sgGameOver, false, some true) := by decide +kernel
    obtain ⟨b, run, facts⟩ := Option.map_eq_some_iff.mp result
    simp only [Prod.mk.injEq] at facts
    obtain ⟨gameOver, free, late⟩ := facts
    obtain ⟨b', step, laid⟩ := Option.map_eq_some_iff.mp late
    have table := (same _ b (.cardSubmit 4 0 8 0) b' (run_packets run) gameOver trivial step).table
    rw [table, free] at laid
    cases laid

end Cgsf.Proof.SevenGameServer
