import Mathlib.Data.Finset.Card
import Mathlib.Data.List.Nodup
import Mathlib.Data.List.Perm.Basic
import Cgsf.SevenGameServer.Cards

/-!
# Places of the card arrays
-/

namespace Cgsf.Proof.SevenGameServer
open Cgsf.SevenGameServer

variable {cards : Cards} {t t' : CardType} {n n' : Nat}

@[simp] theorem none_apply : Cards.none t n = false := rfl

theorem put_apply : cards.put t n t' n' = if t' = t ∧ n' = n then true else cards t' n' := rfl

theorem take_apply : cards.take t n t' n' = if t' = t ∧ n' = n then false else cards t' n' := rfl

theorem mem_places {p : CardType × Nat} : p ∈ Cards.places ↔ 1 ≤ p.2 ∧ p.2 ≤ maxCardNum := by
  obtain ⟨t, n⟩ := p
  rw [Cards.places, List.mem_flatMap]
  constructor
  · rintro ⟨i, range, member⟩
    have bounds := List.mem_range'_1.mp range
    have same : n = i := by
      simp only [List.mem_cons, Prod.mk.injEq, List.not_mem_nil, or_false] at member
      omega
    simp only
    omega
  · rintro ⟨low, high⟩
    refine ⟨n, List.mem_range'_1.mpr ⟨low, by simp only at high; omega⟩, ?_⟩
    cases t <;> simp

theorem nodup_places : Cards.places.Nodup := by decide

/-- A count, when the cards are listed. -/
theorem count_eq_length {l : List (CardType × Nat)} (nodup : l.Nodup)
    (inside : ∀ p ∈ l, p ∈ Cards.places)
    (has : ∀ p ∈ Cards.places, cards p.1 p.2 = true ↔ p ∈ l) : cards.count = l.length := by
  rw [Cards.count, List.countP_eq_length_filter]
  refine List.Perm.length_eq ((List.perm_ext_iff_of_nodup (nodup_places.filter _) nodup).mpr ?_)
  intro p
  rw [List.mem_filter]
  constructor
  · rintro ⟨place, held⟩
    exact (has p place).mp held
  · intro member
    exact ⟨inside p member, (has p (inside p member)).mpr member⟩

theorem count_eq (cards : Cards) : cards.count = Cards.places.countP fun p => cards p.1 p.2 := rfl

theorem count_eq_zero : cards.count = 0 ↔
    ∀ t n, 1 ≤ n → n ≤ maxCardNum → cards t n = false := by
  rw [count_eq, List.countP_eq_zero]
  constructor
  · intro none t n low high
    exact Bool.eq_false_iff.mpr (none (t, n) (mem_places.mpr ⟨low, high⟩))
  · rintro none ⟨t, n⟩ member
    obtain ⟨low, high⟩ := mem_places.mp member
    exact Bool.eq_false_iff.mp (none t n low high)

/-- A card that is held counts once. -/
theorem count_take (low : 1 ≤ n) (high : n ≤ maxCardNum) (held : cards t n = true) :
    (cards.take t n).count + 1 = cards.count := by
  obtain ⟨front, back, split⟩ := List.append_of_mem (mem_places.mpr ⟨low, high⟩ :
    (t, n) ∈ Cards.places)
  have apart := (List.nodup_cons.mp (List.nodup_middle.mp (split ▸ nodup_places))).1
  have same (l : List (CardType × Nat)) (outside : (t, n) ∉ l) :
      l.countP (fun p => cards.take t n p.1 p.2) = l.countP fun p => cards p.1 p.2 := by
    refine List.countP_congr fun p member => ?_
    rw [take_apply, if_neg]
    rintro ⟨rfl, rfl⟩
    exact outside member
  rw [List.mem_append, not_or] at apart
  have gone : cards.take t n t n = false := by rw [take_apply, if_pos ⟨rfl, rfl⟩]
  rw [count_eq, count_eq, split, List.countP_append, List.countP_append, List.countP_cons,
    List.countP_cons, same front apart.1, same back apart.2, held, gone]
  simp only [Bool.false_eq_true, if_false, if_true, Nat.add_zero, Nat.add_assoc]

theorem le_count_take (cards : Cards) (t : CardType) (n : Nat) :
    cards.count ≤ (cards.take t n).count + 1 := by
  by_cases held : (1 ≤ n ∧ n ≤ maxCardNum) ∧ cards t n = true
  · exact (count_take held.1.1 held.1.2 held.2).ge
  · rw [count_eq, count_eq]
    refine Nat.le_succ_of_le (List.countP_mono_left fun p member has => ?_)
    rw [take_apply, if_neg]
    · exact has
    · rintro ⟨rfl, rfl⟩
      exact held ⟨mem_places.mp member, has⟩

end Cgsf.Proof.SevenGameServer

/-!
# When the dealing loop can end

What is drawn is always taken once only. Whether the loop ends depends on the last place of the
array, which no card goes to before all others are taken.
-/

namespace Cgsf.Proof.SevenGameServer
open Cgsf.SevenGameServer Library Distribution

/-! ## A card and its place -/

def place (i : Int) : CardType × Nat :=
  if i < 13 then (.spade, (i + 1).toNat)
  else if i < 26 then (.heart, (i - 12).toNat)
  else if i < 39 then (.diamond, (i - 25).toNat)
  else (.clover, (i - 38).toNat)

theorem updateUserCard_eq {i : Int} (card : IsCard i) (user : SGUser) :
    user.updateUserCard i = { user with cards := user.cards.put (place i).1 (place i).2 } := by
  obtain ⟨low, high⟩ := card
  rw [SGUser.updateUserCard, place]
  by_cases spade : i < 13
  · rw [if_pos (by omega), if_pos spade]
  rw [if_neg (by omega), if_neg spade]
  by_cases heart : i < 26
  · rw [if_pos (by omega), if_pos heart, show i + 1 - 13 = i - 12 by omega]
  rw [if_neg (by omega), if_neg heart]
  by_cases diamond : i < 39
  · rw [if_pos (by omega), if_pos diamond, show i + 1 - 26 = i - 25 by omega]
  rw [if_neg (by omega), if_neg diamond, if_pos (by omega), show i + 1 - 39 = i - 38 by omega]

theorem place_mem {i : Int} (card : IsCard i) : place i ∈ Cards.places := by
  obtain ⟨low, high⟩ := card
  rw [mem_places, place, maxCardNum]
  split_ifs <;> simp only <;> omega

theorem place_inj {i j : Int} (card : IsCard i) (card' : IsCard j) (same : place i = place j) :
    i = j := by
  obtain ⟨low, high⟩ := card
  obtain ⟨low', high'⟩ := card'
  rw [place, place] at same
  split_ifs at same <;>
    simp only [Prod.mk.injEq, reduceCtorEq, false_and, true_and] at same <;> omega

theorem exists_place {t : CardType} {n : Nat} (low : 1 ≤ n) (high : n ≤ maxCardNum) :
    ∃ i, IsCard i ∧ place i = (t, n) := by
  rw [maxCardNum] at high
  have pick (base : Int) (first : 0 ≤ base) (last : base ≤ 39) : IsCard (base + n - 1) :=
    ⟨by omega, by omega⟩
  cases t with
  | spade =>
      refine ⟨0 + n - 1, pick 0 (by omega) (by omega), ?_⟩
      rw [place, if_pos (by omega)]
      simp only [Prod.mk.injEq, true_and]
      omega
  | heart =>
      refine ⟨13 + n - 1, pick 13 (by omega) (by omega), ?_⟩
      rw [place, if_neg (by omega), if_pos (by omega)]
      simp only [Prod.mk.injEq, true_and]
      omega
  | diamond =>
      refine ⟨26 + n - 1, pick 26 (by omega) (by omega), ?_⟩
      rw [place, if_neg (by omega), if_neg (by omega), if_pos (by omega)]
      simp only [Prod.mk.injEq, true_and]
      omega
  | clover =>
      refine ⟨39 + n - 1, pick 39 (by omega) (by omega), ?_⟩
      rw [place, if_neg (by omega), if_neg (by omega), if_neg (by omega)]
      simp only [Prod.mk.injEq, true_and]
      omega

theorem foldl_updateUserCard {l : List Int} (allCards : ∀ i ∈ l, IsCard i) (user : SGUser)
    (p : CardType × Nat) : (l.foldl SGUser.updateUserCard user).cards p.1 p.2 = true ↔
      p ∈ l.map place ∨ user.cards p.1 p.2 = true := by
  induction l generalizing user with
  | nil => simp
  | cons i l ih =>
      have card := allCards i List.mem_cons_self
      rw [List.foldl_cons, ih (fun j member => allCards j (List.mem_cons_of_mem _ member)),
        updateUserCard_eq card, List.map_cons, List.mem_cons]
      have here : p.1 = (place i).1 ∧ p.2 = (place i).2 ↔ p = place i := Prod.ext_iff.symm
      simp only [put_apply, here]
      split
      · rename_i same
        simp [same]
      · rename_i other
        simp [other]

theorem nodup_map_place {l : List Int} (nodup : l.Nodup) (allCards : ∀ i ∈ l, IsCard i) :
    (l.map place).Nodup :=
  nodup.map_on fun i member j member' same =>
    place_inj (allCards i member) (allCards j member') same

/-! ## What was drawn so far -/

/-- The last place is as it was on entry, and its card was not drawn. -/
structure Dealt (stack : Fin 52 → Int) (d : Distribution) : Prop where
  size : d.paCardDistribute.length = 52
  count : d.iCardCount ≤ 52
  nodup : (d.paCardDistribute.take d.iCardCount).Nodup
  allCards : ∀ i ∈ d.paCardDistribute.take d.iCardCount, IsCard i
  last : d.iCardCount < 52 → d.paCardDistribute[51]? = some (stack 51)
  apart : d.iCardCount < 52 → stack 51 ∉ d.paCardDistribute.take d.iCardCount

variable {stack : Fin 52 → Int} {d d' : Distribution} {history : List Nat}

theorem dealt_start (stack : Fin 52 → Int) : Dealt stack (start stack) where
  size := by simp [start, memset, maxCardNum]
  count := Nat.zero_le _
  nodup := List.nodup_nil
  allCards i member := absurd member List.not_mem_nil
  last _ := by simp [start, memset, maxCardNum]
  apart _ := List.not_mem_nil

theorem draw_eq (d : Distribution) (rand : Nat) :
    d.draw rand = d ∨ ∃ i, IsCard i ∧ i ∉ d.paCardDistribute ∧
      d.draw rand = ⟨d.paCardDistribute.set d.iCardCount i, d.iCardCount + 1⟩ := by
  rw [draw]
  split
  · exact .inl rfl
  · rename_i absent
    have small : rand % (maxCardNum * 4) < 52 := Nat.mod_lt _ (by decide)
    exact .inr ⟨_, ⟨by omega, by omega⟩, absent, rfl⟩

theorem Dealt.draws {rand : Nat} (dealt : Dealt stack d) (draws : Draws d rand d') :
    Dealt stack d' := by
  obtain ⟨more, rfl⟩ := draws
  have more : d.iCardCount < 52 := more
  have inside : d.iCardCount < d.paCardDistribute.length := dealt.size ▸ more
  obtain same | ⟨i, card, absent, next⟩ := draw_eq d rand
  · rwa [same]
  · have taken : (d.paCardDistribute.set d.iCardCount i).take (d.iCardCount + 1) =
        d.paCardDistribute.take d.iCardCount ++ [i] := by
      rw [List.set_eq_take_append_cons_drop, if_pos inside, List.take_append,
        List.length_take_of_le inside.le, Nat.add_sub_cancel_left, List.take_succ_cons,
        List.take_zero, List.take_of_length_le (by rw [List.length_take_of_le inside.le]; omega)]
    have new : i ∉ d.paCardDistribute.take d.iCardCount := fun member =>
      absent (List.mem_of_mem_take member)
    rw [next]
    refine ⟨List.length_set.trans dealt.size, more, ?_, ?_, ?_, ?_⟩
    · simp only [taken]
      exact dealt.nodup.append (List.nodup_singleton _) fun j member single =>
        new (List.mem_singleton.mp single ▸ member)
    · simp only [taken]
      intro j member
      obtain before | single := List.mem_append.mp member
      · exact dealt.allCards j before
      · exact List.mem_singleton.mp single ▸ card
    · intro less
      rw [List.getElem?_set_ne (by simp only at less; omega)]
      exact dealt.last more
    · intro _
      simp only [taken]
      intro member
      obtain before | single := List.mem_append.mp member
      · exact dealt.apart more before
      · exact absent (List.mem_singleton.mp single ▸ List.mem_of_getElem? (dealt.last more))

theorem Dealt.run (run : Run Draws (start stack) history d) : Dealt stack d :=
  run.invariant (dealt_start stack) fun _ _ _ dealt draws => dealt.draws draws

def cardSet : Finset Int := (Finset.range 52).image Int.ofNat

theorem mem_cardSet {i : Int} : i ∈ cardSet ↔ IsCard i := by
  rw [cardSet, Finset.mem_image]
  constructor
  · rintro ⟨n, range, rfl⟩
    exact ⟨Int.natCast_nonneg n, Int.ofNat_lt.mpr (Finset.mem_range.mp range)⟩
  · rintro ⟨low, high⟩
    exact ⟨i.toNat, Finset.mem_range.mpr (by omega), Int.toNat_of_nonneg low⟩

theorem card_cardSet : cardSet.card = 52 := by
  rw [cardSet, Finset.card_image_of_injective _ fun _ _ => Int.ofNat.inj, Finset.card_range]

/-- Fifty-two different cards are all of them. -/
theorem mem_of_full {l : List Int} (nodup : l.Nodup) (allCards : ∀ i ∈ l, IsCard i)
    (full : l.length = 52) {i : Int} (card : IsCard i) : i ∈ l := by
  have within : l.toFinset ⊆ cardSet := fun j member =>
    mem_cardSet.mpr (allCards j (List.mem_toFinset.mp member))
  have same := Finset.eq_of_subset_of_card_le within
    (by rw [card_cardSet, List.toFinset_card_of_nodup nodup, full])
  exact List.mem_toFinset.mp (same ▸ mem_cardSet.mpr card)

theorem Dealt.split (dealt : Dealt stack d) (more : d.iCardCount < 52) :
    d.paCardDistribute = d.paCardDistribute.take 51 ++ [stack 51] := by
  have last := dealt.last more
  have rest : d.paCardDistribute.drop 51 = [stack 51] := by
    rw [List.drop_eq_getElem_cons (by rw [dealt.size]; decide), List.drop_of_length_le
      (by rw [dealt.size])]
    rw [List.getElem?_eq_getElem (by rw [dealt.size]; decide)] at last
    exact congrArg (· :: []) (Option.some.inj last)
  rw [← rest, List.take_append_drop]

/-- Where the last place holds no card, at most fifty-one cards are excluded. -/
theorem Dealt.progress (dealt : Dealt stack d) (more : d.iCardCount < 52)
    (clear : ¬IsCard (stack 51)) : ∃ rand, (d.draw rand).iCardCount = d.iCardCount + 1 := by
  by_contra none
  have excluded : ∀ i, IsCard i → i ∈ d.paCardDistribute := by
    rintro i ⟨low, high⟩
    by_contra absent
    refine none ⟨i.toNat, ?_⟩
    have value : ((i.toNat % (maxCardNum * 4) : Nat) : Int) = i := by
      rw [Nat.mod_eq_of_lt (by rw [maxCardNum]; omega)]
      omega
    rw [draw, value, if_neg absent]
  have within : cardSet ⊆ (d.paCardDistribute.take 51).toFinset := by
    intro i member
    have card := mem_cardSet.mp member
    have held := excluded i card
    rw [dealt.split more] at held
    obtain early | last := List.mem_append.mp held
    · exact List.mem_toFinset.mpr early
    · exact absurd (List.mem_singleton.mp last ▸ card) clear
  have most := (Finset.card_le_card within).trans (List.toFinset_card_le _)
  rw [card_cardSet, List.length_take] at most
  omega

/-- Where it holds a card, the loop gets no further than there. -/
theorem Dealt.stuck (dealt : Dealt stack d) (left : d.iCardCount = 51)
    (card : IsCard (stack 51)) (rand : Nat) : d.draw rand = d := by
  have more : d.iCardCount < 52 := by omega
  have nodup := dealt.nodup
  have allCards := dealt.allCards
  have apart := dealt.apart more
  rw [left] at nodup allCards apart
  have all : (d.paCardDistribute.take 51 ++ [stack 51]).Nodup :=
    nodup.append (List.nodup_singleton _) fun i member single =>
      apart (List.mem_singleton.mp single ▸ member)
  have cards : ∀ i ∈ d.paCardDistribute.take 51 ++ [stack 51], IsCard i := by
    intro i member
    obtain early | last := List.mem_append.mp member
    · exact allCards i early
    · exact List.mem_singleton.mp last ▸ card
  rw [← dealt.split more] at all cards
  obtain same | ⟨i, card, absent, -⟩ := draw_eq d rand
  · exact same
  · exact absurd (mem_of_full all cards dealt.size card) absent

/-! ## The users' shares -/

def share (l : List Int) (k : Nat) : List Int := (l.drop (k * maxCardNum)).take maxCardNum

theorem mem_share {l : List Int} {k : Nat} {i : Int} :
    i ∈ share l k ↔ ∃ m, m / maxCardNum = k ∧ l[m]? = some i := by
  rw [share, List.mem_iff_getElem?]
  constructor
  · rintro ⟨r, found⟩
    rw [List.getElem?_take] at found
    split at found
    · rename_i small
      rw [List.getElem?_drop] at found
      refine ⟨k * maxCardNum + r, ?_, found⟩
      rw [maxCardNum] at small ⊢
      omega
    · exact absurd found.symm (Option.some_ne_none i)
  · rintro ⟨m, rfl, found⟩
    refine ⟨m % maxCardNum, ?_⟩
    rw [List.getElem?_take, if_pos (Nat.mod_lt _ (by decide)), List.getElem?_drop,
      Nat.div_add_mod', found]

theorem length_share {l : List Int} (full : l.length = 52) {k : Nat} (user : k < 4) :
    (share l k).length = maxCardNum := by
  rw [share, List.length_take, List.length_drop, full, maxCardNum]
  omega

theorem distribute_eq (l : List Int) (users : List SGUser) : ∀ k,
    distribute l users (k * maxCardNum) (k + 1) = users.mapIdx fun i user =>
      (share l (k + i)).foldl SGUser.updateUserCard user.initializeCards := by
  induction users with
  | nil => intro k; rfl
  | cons user users ih =>
      intro k
      have width : (k + 1) * maxCardNum - k * maxCardNum = maxCardNum := by
        rw [Nat.add_mul, Nat.one_mul, Nat.add_sub_cancel_left]
      rw [distribute, ih (k + 1), List.mapIdx_cons, width]
      simp only [share, Nat.add_zero, Nat.add_assoc, Nat.add_comm 1]

theorem hands_eq (d : Distribution) (users : List SGUser) : d.hands users =
    users.mapIdx fun k user =>
      (share d.paCardDistribute k).foldl SGUser.updateUserCard user.initializeCards := by
  have parts := distribute_eq d.paCardDistribute users 0
  simp only [Nat.zero_mul, Nat.zero_add] at parts
  exact parts

/-- The cards of the user at `k`. -/
theorem hands_cards {users : List SGUser} {k : Nat} {user : SGUser}
    (allCards : ∀ i ∈ d.paCardDistribute, IsCard i) (at_k : (d.hands users)[k]? = some user)
    (p : CardType × Nat) :
    user.cards p.1 p.2 = true ↔ p ∈ (share d.paCardDistribute k).map place := by
  rw [hands_eq, List.getElem?_mapIdx, Option.map_eq_some_iff] at at_k
  obtain ⟨before, -, rfl⟩ := at_k
  have slice : ∀ i ∈ share d.paCardDistribute k, IsCard i := fun i taken =>
    allCards i (List.mem_of_mem_drop (List.mem_of_mem_take taken))
  rw [foldl_updateUserCard slice]
  exact or_iff_left Bool.false_ne_true

/-- Four users who take thirteen cards each take every card once. -/
theorem sharedOut {users : List SGUser} (four : users.length = 4)
    (full : d.paCardDistribute.length = 52) (nodup : d.paCardDistribute.Nodup)
    (allCards : ∀ i ∈ d.paCardDistribute, IsCard i) : SharedOut (d.hands users) := by
  have length : (d.hands users).length = 4 := by rw [hands_eq, List.length_mapIdx, four]
  refine ⟨fun t n low high => ?_, fun user member => ?_⟩
  · obtain ⟨i, card, here⟩ := exists_place (t := t) low high
    obtain ⟨m, found⟩ := List.mem_iff_getElem?.mp (mem_of_full nodup allCards full card)
    have inside : m < 52 := full ▸ (List.getElem?_eq_some_iff.mp found).1
    have user : m / maxCardNum < (d.hands users).length := by
      rw [length, maxCardNum]
      omega
    refine ⟨m / maxCardNum, _, List.getElem?_eq_getElem user, ?_, fun j other at_j held => ?_⟩
    · exact (hands_cards allCards (List.getElem?_eq_getElem user) (t, n)).mpr
        (List.mem_map.mpr ⟨i, mem_share.mpr ⟨m, rfl, found⟩, here⟩)
    · obtain ⟨i', taken, same⟩ := List.mem_map.mp ((hands_cards allCards at_j (t, n)).mp held)
      obtain ⟨m', rfl, found'⟩ := mem_share.mp taken
      obtain rfl := place_inj (allCards i' (List.mem_of_getElem? found')) card
        (same.trans here.symm)
      have position : m = m' :=
        (List.getElem?_inj (full ▸ inside) nodup).mp (found.trans found'.symm)
      rw [position]
  · obtain ⟨k, at_k⟩ := List.mem_iff_getElem?.mp member
    have small : k < 4 := length ▸ (List.getElem?_eq_some_iff.mp at_k).1
    have slice : ∀ i ∈ share d.paCardDistribute k, IsCard i := fun i taken =>
      allCards i (List.mem_of_mem_drop (List.mem_of_mem_take taken))
    have once : (share d.paCardDistribute k).Nodup :=
      (List.take_sublist _ _).nodup ((List.drop_sublist _ _).nodup nodup)
    rw [count_eq_length (nodup_map_place once slice) (fun p placed => ?_)
      (fun p _ => hands_cards allCards at_k p), List.length_map, length_share full small]
    obtain ⟨i, taken, rfl⟩ := List.mem_map.mp placed
    exact place_mem (slice i taken)

/-! ## The claim -/

/-- Where the last place is clear, all goes well. -/
theorem deals_of_clear (clear : ¬IsCard (stack 51)) : Deals stack where
  fair history d run done := by
    have dealt := Dealt.run run
    have whole : d.paCardDistribute.take d.iCardCount = d.paCardDistribute :=
      List.take_of_length_le (by rw [dealt.size, done])
    have nodup := whole ▸ dealt.nodup
    have allCards := whole ▸ dealt.allCards
    exact ⟨nodup, fun i => ⟨allCards i, mem_of_full nodup allCards dealt.size⟩,
      fun users four => sharedOut four dealt.size nodup allCards⟩
  progress history d run more := (Dealt.run run).progress more clear

/-- Some draws lead to every number of cards, as long as each state has one that counts. -/
theorem exists_run (deals : Deals stack) : ∀ count ≤ 52,
    ∃ history d, Run Draws (start stack) history d ∧ d.iCardCount = count
  | 0, _ => ⟨[], start stack, .start, rfl⟩
  | count + 1, bound => by
      obtain ⟨history, d, run, left⟩ := exists_run deals count (by omega)
      obtain ⟨rand, next⟩ := deals.progress history d run (by omega)
      exact ⟨_, _, run.next ⟨by rw [left, maxCardNum]; omega, rfl⟩, by rw [next, left]⟩

theorem not_deals_of_card (card : IsCard (stack 51)) : ¬Deals stack := by
  intro deals
  obtain ⟨history, d, run, left⟩ := exists_run deals 51 (by decide)
  obtain ⟨rand, next⟩ := deals.progress history d run (by omega)
  rw [(Dealt.run run).stuck left card rand] at next
  omega

theorem deals_iff (stack : Fin 52 → Int) : Deals stack ↔ ¬IsCard (stack 51) :=
  ⟨fun deals card => not_deals_of_card card deals, deals_of_clear⟩

/-- The king of clovers is on the stack where it was last time. -/
theorem not_deals_again : ¬Deals fun i => (i.val : Int) :=
  not_deals_of_card (by decide)

end Cgsf.Proof.SevenGameServer
