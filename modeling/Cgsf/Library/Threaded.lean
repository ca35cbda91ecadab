import Mathlib.Data.List.Nodup

/-!
# Lists threaded through memory

A doubly linked list is a list of cells with two pointers each. `Threaded next prev b xs a` says
that the cells `xs` point to each other in order, the first of them back to `b` and the last of them
on to `a`.
-/

namespace Cgsf.Library

variable {α : Type*} {next prev next' prev' : α → Option α} {a a' b b' : Option α}
  {xs ys : List α} {x : α}

/-- `xs` are the cells met from `start` on. -/
def Chained (next : α → Option α) : Option α → List α → Prop
  | start, [] => start = none
  | start, x :: xs => start = some x ∧ Chained next (next x) xs

/-- The cells met from `start` on, if there are at most so many. -/
def walk (next : α → Option α) : Nat → Option α → Option (List α)
  | _, none => some []
  | 0, some _ => none
  | n + 1, some x => (walk next n (next x)).map (x :: ·)

theorem Chained.walk {start : Option α} (chained : Chained next start xs) {n : Nat}
    (enough : xs.length ≤ n) : walk next n start = some xs := by
  induction xs generalizing start n with
  | nil =>
      obtain rfl : start = none := chained
      cases n <;> rfl
  | cons x xs ih =>
      obtain ⟨rfl, rest⟩ := chained
      cases n with
      | zero => exact absurd enough (Nat.not_succ_le_zero _)
      | succ n =>
          rw [Library.walk, ih rest (Nat.le_of_succ_le_succ enough)]
          rfl

theorem Chained.congr {start : Option α} (chained : Chained next start xs)
    (same : ∀ x ∈ xs, next' x = next x) : Chained next' start xs := by
  induction xs generalizing start with
  | nil => exact chained
  | cons x xs ih =>
      refine ⟨chained.1, ?_⟩
      rw [same x List.mem_cons_self]
      exact ih chained.2 fun y member => same y (List.mem_cons_of_mem x member)

theorem Chained.unique {start : Option α} (left : Chained next start xs)
    (right : Chained next start ys) : xs = ys := by
  induction xs generalizing start ys with
  | nil =>
      obtain rfl : start = none := left
      cases ys with
      | nil => rfl
      | cons y ys => exact absurd right.1 (Option.some_ne_none y).symm
  | cons x xs ih =>
      obtain ⟨rfl, left⟩ := left
      cases ys with
      | nil => exact absurd right (Option.some_ne_none x)
      | cons y ys =>
          obtain ⟨same, right⟩ := right
          obtain rfl := Option.some.inj same
          rw [ih left right]

/-- Chains that differ from a cell on only reach the same cell. -/
theorem Chained.branch {start : Option α} (left : Chained next start (xs ++ x :: ys))
    {zs : List α} (right : Chained next' start zs) (same : ∀ y ∈ xs, next' y = next y) :
    ∃ rest, zs = xs ++ x :: rest ∧ Chained next (next x) ys ∧ Chained next' (next' x) rest := by
  induction xs generalizing start zs with
  | nil =>
      obtain ⟨rfl, left⟩ := left
      cases zs with
      | nil => exact absurd right (Option.some_ne_none x)
      | cons z zs =>
          obtain ⟨is, right⟩ := right
          obtain rfl := Option.some.inj is
          exact ⟨zs, rfl, left, right⟩
  | cons w xs ih =>
      obtain ⟨rfl, left⟩ := left
      cases zs with
      | nil => exact absurd right (Option.some_ne_none w)
      | cons z zs =>
          obtain ⟨is, right⟩ := right
          obtain rfl := Option.some.inj is
          obtain ⟨here, later⟩ := List.forall_mem_cons.mp same
          rw [here] at right
          obtain ⟨rest, rfl, left, right⟩ := ih left right later
          exact ⟨rest, rfl, left, right⟩

/-- Two chains over the same cells start at the same cell. -/
theorem Chained.start_eq {start start' : Option α} (left : Chained next start xs)
    (right : Chained next start' ys) (perm : xs.Perm ys) : start = start' := by
  cases xs with
  | nil =>
      obtain rfl := List.nil_perm.mp perm
      exact Eq.trans left (Eq.symm right)
  | cons x xs =>
      obtain ⟨rfl, rest⟩ := left
      obtain ⟨before, after, rfl⟩ := List.append_of_mem (perm.subset List.mem_cons_self)
      obtain ⟨tail, -, later, -⟩ := right.branch right fun _ _ => rfl
      obtain rfl := rest.unique later
      have length := perm.length_eq
      rw [List.length_append] at length
      obtain rfl : before = [] := List.eq_nil_of_length_eq_zero (by omega)
      exact right.1.symm

def Threaded (next prev : α → Option α) : Option α → List α → Option α → Prop
  | _, [], _ => True
  | b, x :: xs, a => prev x = b ∧ next x = xs.head?.or a ∧ Threaded next prev (some x) xs a

namespace Threaded

theorem append_iff : Threaded next prev b (xs ++ ys) a ↔
    Threaded next prev b xs (ys.head?.or a) ∧ Threaded next prev (xs.getLast?.or b) ys a := by
  induction xs generalizing b with
  | nil => simp [Threaded]
  | cons x xs ih =>
      rw [List.cons_append, Threaded, Threaded, ih, and_assoc, and_assoc]
      refine and_congr_right fun _ => ?_
      cases xs with
      | nil => simp
      | cons y xs =>
          have last := List.getLast?_eq_some_getLast (List.cons_ne_nil y xs)
          rw [List.getLast?_cons_cons, last]
          exact .rfl

/-- The two ends are changed. -/
theorem retarget (threaded : Threaded next prev b xs a) (nodup : xs.Nodup)
    (first : ∀ y ∈ xs.head?, prev' y = b') (last : ∀ y ∈ xs.getLast?, next' y = a')
    (nexts : ∀ y ∈ xs, y ∉ xs.getLast? → next' y = next y)
    (prevs : ∀ y ∈ xs, y ∉ xs.head? → prev' y = prev y) : Threaded next' prev' b' xs a' := by
  induction xs generalizing b b' with
  | nil => trivial
  | cons x xs ih =>
      obtain ⟨-, after, rest⟩ := threaded
      obtain ⟨fresh, nodup⟩ := List.nodup_cons.mp nodup
      refine ⟨first x rfl, ?_, ih rest nodup (fun y head => ?_) (fun y final => ?_)
        (fun y member inner => ?_) fun y member inner => ?_⟩
      · cases xs with
        | nil => exact last x rfl
        | cons y xs =>
            rw [nexts x List.mem_cons_self, after]
            · rfl
            · intro same
              rw [List.getLast?_cons_cons] at same
              exact fresh (List.mem_of_mem_getLast? same)
      · have member := List.mem_of_mem_head? head
        rw [prevs y (List.mem_cons_of_mem x member)]
        · cases xs with
          | nil => exact nomatch head
          | cons z xs =>
              obtain rfl := Option.some.inj head
              exact rest.1
        · intro same
          exact fresh (Option.some.inj same ▸ member)
      · refine last y ?_
        cases xs with
        | nil => exact nomatch final
        | cons z xs =>
            rw [List.getLast?_cons_cons]
            exact final
      · refine nexts y (List.mem_cons_of_mem x member) fun final => inner ?_
        cases xs with
        | nil => exact nomatch member
        | cons z xs =>
            rw [List.getLast?_cons_cons] at final
            exact final
      · refine prevs y (List.mem_cons_of_mem x member) fun same => ?_
        exact fresh (Option.some.inj same ▸ member)

theorem congr (threaded : Threaded next prev b xs a) (nexts : ∀ y ∈ xs, next' y = next y)
    (prevs : ∀ y ∈ xs, prev' y = prev y) : Threaded next' prev' b xs a := by
  induction xs generalizing b with
  | nil => trivial
  | cons x xs ih =>
      obtain ⟨before, after, rest⟩ := threaded
      refine ⟨(prevs x List.mem_cons_self).trans before, (nexts x List.mem_cons_self).trans after, ?_⟩
      exact ih rest (fun y member => nexts y (List.mem_cons_of_mem x member))
        fun y member => prevs y (List.mem_cons_of_mem x member)

theorem reverse (threaded : Threaded next prev b xs a) :
    Threaded prev next a xs.reverse b := by
  induction xs generalizing b with
  | nil => trivial
  | cons x xs ih =>
      obtain ⟨before, after, rest⟩ := threaded
      rw [List.reverse_cons, append_iff]
      refine ⟨ih rest, ?_, before, trivial⟩
      rw [after, List.getLast?_reverse]

theorem chained (threaded : Threaded next prev b xs none) : Chained next xs.head? xs := by
  induction xs generalizing b with
  | nil => rfl
  | cons x xs ih =>
      obtain ⟨-, after, rest⟩ := threaded
      refine ⟨rfl, ?_⟩
      rw [after, Option.or_none]
      exact ih rest

theorem before (threaded : Threaded next prev b xs a) {y : α} (head : y ∈ xs.head?) :
    prev y = b := by
  cases xs with
  | nil => exact nomatch head
  | cons x xs =>
      obtain rfl := Option.some.inj head
      exact threaded.1

theorem after (threaded : Threaded next prev b xs a) {y : α} (last : y ∈ xs.getLast?) :
    next y = a := by
  rw [← List.head?_reverse] at last
  exact threaded.reverse.before last

/-- What stands at a cell in the middle. -/
theorem at_cell (threaded : Threaded next prev none (xs ++ x :: ys) none) :
    prev x = xs.getLast? ∧ next x = ys.head? := by
  obtain ⟨-, before, after, -⟩ := append_iff.mp threaded
  rw [Option.or_none] at before after
  exact ⟨before, after⟩

/-- Two lists become one. -/
theorem join (left : Threaded next prev b xs a') (right : Threaded next prev b' ys a)
    (nodup : (xs ++ ys).Nodup) (last : ∀ y ∈ xs.getLast?, next' y = ys.head?.or a)
    (first : ∀ y ∈ ys.head?, prev' y = xs.getLast?.or b)
    (nexts : ∀ y ∈ xs ++ ys, y ∉ xs.getLast? → next' y = next y)
    (prevs : ∀ y ∈ xs ++ ys, y ∉ ys.head? → prev' y = prev y) :
    Threaded next' prev' b (xs ++ ys) a := by
  obtain ⟨nodup, nodup', apart⟩ := List.nodup_append.mp nodup
  refine append_iff.mpr ⟨?_, ?_⟩
  · refine left.retarget nodup (fun y head => ?_) last
      (fun y member => nexts y (List.mem_append_left ys member)) fun y member _ => ?_
    · have member := List.mem_of_mem_head? head
      rw [prevs y (List.mem_append_left ys member) fun first =>
        apart y member y (List.mem_of_mem_head? first) rfl]
      exact left.before head
    · exact prevs y (List.mem_append_left ys member) fun first =>
        apart y member y (List.mem_of_mem_head? first) rfl
  · refine right.retarget nodup' first (fun y final => ?_) (fun y member _ => ?_)
      fun y member => prevs y (List.mem_append_right xs member)
    · have member := List.mem_of_mem_getLast? final
      rw [nexts y (List.mem_append_right xs member) fun last =>
        apart y (List.mem_of_mem_getLast? last) y member rfl]
      exact right.after final
    · exact nexts y (List.mem_append_right xs member) fun last =>
        apart y (List.mem_of_mem_getLast? last) y member rfl

/-- A cell is taken out. -/
theorem unlink (threaded : Threaded next prev none (xs ++ x :: ys) none)
    (nodup : (xs ++ x :: ys).Nodup) (last : ∀ y ∈ xs.getLast?, next' y = ys.head?)
    (first : ∀ y ∈ ys.head?, prev' y = xs.getLast?)
    (nexts : ∀ y ∈ xs ++ ys, y ∉ xs.getLast? → next' y = next y)
    (prevs : ∀ y ∈ xs ++ ys, y ∉ ys.head? → prev' y = prev y) :
    Threaded next' prev' none (xs ++ ys) none := by
  obtain ⟨left, -, -, right⟩ := append_iff.mp threaded
  refine left.join right (List.nodup_middle.mp nodup).of_cons (fun y final => ?_) (fun y head => ?_)
    nexts prevs
  · rw [last y final, Option.or_none]
  · rw [first y head, Option.or_none]

/-- A cell is put between two lists. -/
theorem put (left : Threaded next prev none xs a) (right : Threaded next prev b ys none)
    (nodup : (xs ++ x :: ys).Nodup) (before : prev' x = xs.getLast?) (after : next' x = ys.head?)
    (last : ∀ y ∈ xs.getLast?, next' y = some x) (first : ∀ y ∈ ys.head?, prev' y = some x)
    (nexts : ∀ y ∈ xs ++ ys, y ∉ xs.getLast? → next' y = next y)
    (prevs : ∀ y ∈ xs ++ ys, y ∉ ys.head? → prev' y = prev y) :
    Threaded next' prev' none (xs ++ x :: ys) none := by
  obtain ⟨nodup, nodup', apart⟩ := List.nodup_append.mp nodup
  have apart (y : α) (here : y ∈ xs) : y ∉ ys := fun there =>
    apart y here y (List.mem_cons_of_mem x there) rfl
  refine append_iff.mpr ⟨?_, ?_, ?_, ?_⟩
  · refine left.retarget nodup (fun y head => ?_) last
      (fun y member => nexts y (List.mem_append_left ys member)) fun y member _ => ?_
    · have member := List.mem_of_mem_head? head
      rw [prevs y (List.mem_append_left ys member) fun first =>
        apart y member (List.mem_of_mem_head? first)]
      exact left.before head
    · exact prevs y (List.mem_append_left ys member) fun first =>
        apart y member (List.mem_of_mem_head? first)
  · rw [before, Option.or_none]
  · rw [after, Option.or_none]
  · refine right.retarget nodup'.of_cons first (fun y final => ?_) (fun y member _ => ?_)
      fun y member => prevs y (List.mem_append_right xs member)
    · have member := List.mem_of_mem_getLast? final
      rw [nexts y (List.mem_append_right xs member) fun last =>
        apart y (List.mem_of_mem_getLast? last) member]
      exact right.after final
    · exact nexts y (List.mem_append_right xs member) fun last =>
        apart y (List.mem_of_mem_getLast? last) member

/-- A cell is put between two others. -/
theorem link (threaded : Threaded next prev none (xs ++ ys) none)
    (nodup : (xs ++ x :: ys).Nodup) (before : prev' x = xs.getLast?) (after : next' x = ys.head?)
    (last : ∀ y ∈ xs.getLast?, next' y = some x) (first : ∀ y ∈ ys.head?, prev' y = some x)
    (nexts : ∀ y ∈ xs ++ ys, y ∉ xs.getLast? → next' y = next y)
    (prevs : ∀ y ∈ xs ++ ys, y ∉ ys.head? → prev' y = prev y) :
    Threaded next' prev' none (xs ++ x :: ys) none :=
  have ⟨left, right⟩ := append_iff.mp threaded
  left.put right nodup before after last first nexts prevs

/-- A cell takes the place of another. -/
theorem replace {z : α} (threaded : Threaded next prev none (xs ++ z :: ys) none)
    (nodup : (xs ++ x :: ys).Nodup) (before : prev' x = xs.getLast?) (after : next' x = ys.head?)
    (last : ∀ y ∈ xs.getLast?, next' y = some x) (first : ∀ y ∈ ys.head?, prev' y = some x)
    (nexts : ∀ y ∈ xs ++ ys, y ∉ xs.getLast? → next' y = next y)
    (prevs : ∀ y ∈ xs ++ ys, y ∉ ys.head? → prev' y = prev y) :
    Threaded next' prev' none (xs ++ x :: ys) none :=
  have ⟨left, _, _, right⟩ := append_iff.mp threaded
  left.put right nodup before after last first nexts prevs

/-- A cell is taken out of one list and put in front of another. -/
theorem move {zs : List α} [DecidableEq α] (threaded : Threaded next prev none (xs ++ x :: ys) none)
    (onto : Threaded next prev none zs none) (nodup : (xs ++ x :: ys ++ zs).Nodup)
    (nextX : next' x = zs.head?) (prevX : prev' x = none)
    (nexts : ∀ y, y ≠ x → next' y = if xs.getLast? = some y then ys.head? else next y)
    (prevs : ∀ y, y ≠ x → prev' y = if zs.head? = some y then some x
      else if ys.head? = some y then xs.getLast? else prev y) :
    Threaded next' prev' none (xs ++ ys) none ∧ Threaded next' prev' none (x :: zs) none := by
  obtain ⟨here, there, apart⟩ := List.nodup_append.mp nodup
  have fresh := (List.nodup_cons.mp (List.nodup_middle.mp here)).1
  have notX (y : α) (member : y ∈ xs ++ ys) : y ≠ x := fun same => fresh (same ▸ member)
  have zsNotX (y : α) (member : y ∈ zs) : y ≠ x := fun same => apart x (by simp) y member same.symm
  have notZ (y : α) (member : y ∈ xs ++ ys) : zs.head? ≠ some y := fun head =>
    apart y (by simp at member ⊢; tauto) y (List.mem_of_mem_head? head) rfl
  constructor
  · refine threaded.unlink here (fun y last => ?_) (fun y first => ?_) (fun y member inner => ?_)
      fun y member inner => ?_
    · rw [nexts y (notX y (List.mem_append_left _ (List.mem_of_mem_getLast? last)))]
      exact if_pos last
    · have member := List.mem_append_right xs (List.mem_of_mem_head? first)
      rw [prevs y (notX y member), if_neg (notZ y member)]
      exact if_pos first
    · rw [nexts y (notX y member)]
      exact if_neg inner
    · rw [prevs y (notX y member), if_neg (notZ y member)]
      exact if_neg inner
  · have onto : Threaded next prev none ([] ++ zs) none := onto
    refine onto.link ?_ prevX nextX (by simp) (fun y first => ?_) (fun y member _ => ?_)
      fun y member inner => ?_
    · exact List.nodup_cons.mpr ⟨fun member => zsNotX x member rfl, there⟩
    · rw [prevs y (zsNotX y (List.mem_of_mem_head? first))]
      exact if_pos first
    · rw [nexts y (zsNotX y member), if_neg]
      exact fun last => apart y (by simp [List.mem_of_mem_getLast? last]) y member rfl
    · rw [prevs y (zsNotX y member)]
      refine (if_neg inner).trans (if_neg ?_)
      exact fun first => apart y (by simp [List.mem_of_mem_head? first]) y member rfl

end Threaded

end Cgsf.Library
