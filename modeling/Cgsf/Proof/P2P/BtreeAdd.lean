import Cgsf.Proof.P2P.BtreeSearch

/-!
# A node is added
-/

namespace Cgsf.Proof.P2P
open Cgsf.P2P Library LinkedTree

variable {t t' : CBtree} {n : Nat}

/-- A node is hung from the last step of a path and threaded between `xs` and `ys`. -/
structure Inserts (t t' : CBtree) (n : Nat) (step : TreeStep Nat) (xs ys : List Nat) : Prop where
  children : ∀ side y, t'.links.child side y =
    if y = step.node ∧ side = step.side then some n else t.links.child side y
  parents : ∀ y, t'.parent y = if y = n then some step.node else t.parent y
  root : t'.pcRoot = t.pcRoot
  first : t'.pcFirst = t.pcFirst
  last : t'.pcLast = t.pcLast
  threaded : Threaded t'.next t'.prev none (xs ++ n :: ys) none

variable {e : Nat} {xs ys : List Nat}

theorem linkRight_inserts {l : BinaryTree Nat} (threaded : Threaded t.next t.prev none (xs ++ ys) none)
    (nodup : (xs ++ n :: ys).Nodup) (last : xs.getLast? = some e) :
    Inserts t (t.linkRight n e) n ⟨.right, e, l⟩ xs ys := by
  obtain ⟨fresh, apart⟩ := List.nodup_cons.mp (List.nodup_middle.mp nodup)
  have behind : t.next e = ys.head? := by
    obtain ⟨front, rfl⟩ := List.getLast?_eq_some_iff.mp last
    rw [List.append_assoc] at threaded
    exact threaded.at_cell.2
  have memE : e ∈ xs := List.mem_of_getLast? last
  have ne : e ≠ n := fun same => fresh (same ▸ List.mem_append_left ys memE)
  have read : Function.update t.next n (t.next e) e = t.next e := Function.update_of_ne ne ..
  have links : (t.linkRight n e).left = t.left ∧
      (t.linkRight n e).right = Function.update t.right e (some n) ∧
      (t.linkRight n e).parent = Function.update t.parent n (some e) ∧
      (t.linkRight n e).pcRoot = t.pcRoot ∧ (t.linkRight n e).pcFirst = t.pcFirst ∧
      (t.linkRight n e).pcLast = t.pcLast := by
    simp only [CBtree.linkRight, CBtree.setParent, CBtree.setRight, CBtree.setPrev, CBtree.setNext,
      read]
    cases t.next e <;> exact ⟨rfl, rfl, rfl, rfl, rfl, rfl⟩
  have next : (t.linkRight n e).next =
      Function.update (Function.update t.next n (t.next e)) e (some n) := by
    simp only [CBtree.linkRight, CBtree.setParent, CBtree.setRight, CBtree.setPrev, CBtree.setNext,
      read]
    cases t.next e <;> rfl
  have prev (y : Nat) : (t.linkRight n e).prev y =
      if ys.head? = some y then some n else if y = n then some e else t.prev y := by
    rw [← behind]
    simp only [CBtree.linkRight, CBtree.setParent, CBtree.setRight, CBtree.setPrev, CBtree.setNext,
      read]
    cases t.next e with
    | none => simp [Function.update_apply]
    | some z => simp [Function.update_apply, eq_comm]
  refine ⟨?_, ?_, links.2.2.2.1, links.2.2.2.2.1, links.2.2.2.2.2, ?_⟩
  · intro side y
    cases side
    · simp [CBtree.links, links.1]
    · simp [CBtree.links, links.2.1, Function.update_apply]
  · intro y
    rw [links.2.2.1, Function.update_apply]
  · refine threaded.link nodup ?_ ?_ ?_ ?_ ?_ ?_
    · rw [prev, if_neg, if_pos rfl, last]
      exact fun head => fresh (List.mem_append_right xs (List.mem_of_mem_head? head))
    · rw [next, Function.update_of_ne ne.symm, Function.update_self, behind]
    · intro y final
      obtain rfl : e = y := Option.some.inj (last.symm.trans final)
      rw [next, Function.update_self]
    · intro y head
      rw [prev, if_pos (Option.mem_def.mp head)]
    · intro y member inner
      rw [next, Function.update_of_ne, Function.update_of_ne]
      · rintro rfl
        exact fresh member
      · rintro rfl
        exact inner last
    · intro y member inner
      rw [prev, if_neg (mt Option.mem_def.mpr inner), if_neg]
      rintro rfl
      exact fresh member

/-- The tree read from right to left. -/
def mirror (t : CBtree) : CBtree where
  left := t.right
  right := t.left
  parent := t.parent
  prev := t.next
  next := t.prev
  pcRoot := t.pcRoot
  pcFirst := t.pcLast
  pcLast := t.pcFirst

theorem linkLeft_eq_mirror (t : CBtree) (n e : Nat) :
    t.linkLeft n e = mirror ((mirror t).linkRight n e) := by
  simp only [CBtree.linkLeft, CBtree.linkRight, CBtree.setParent, CBtree.setLeft, CBtree.setRight,
    CBtree.setPrev, CBtree.setNext, mirror]
  cases Function.update t.prev n (t.prev e) e <;> rfl

theorem linkLeft_inserts {r : BinaryTree Nat} (threaded : Threaded t.next t.prev none (xs ++ ys) none)
    (nodup : (xs ++ n :: ys).Nodup) (first : ys.head? = some e) :
    Inserts t (t.linkLeft n e) n ⟨.left, e, r⟩ xs ys := by
  have threaded' := threaded.reverse
  have nodup' := List.nodup_reverse.mpr nodup
  rw [List.reverse_append] at threaded'
  rw [List.reverse_append, List.reverse_cons, List.append_assoc] at nodup'
  rw [← List.getLast?_reverse] at first
  have inserts := linkRight_inserts (t := mirror t) (l := r) threaded' nodup' first
  rw [linkLeft_eq_mirror]
  refine ⟨fun side y => ?_, inserts.parents, inserts.root, inserts.last, inserts.first, ?_⟩
  · cases side
    · exact (inserts.children .right y).trans (by simp [CBtree.links, mirror])
    · exact (inserts.children .left y).trans (by simp [CBtree.links, mirror])
  · have back := inserts.threaded.reverse
    rw [List.reverse_append, List.reverse_cons, List.reverse_reverse, List.reverse_reverse,
      List.append_assoc] at back
    exact back

/-! ## The whole tree -/

theorem links_child (t : CBtree) (side : Branch) (y : Nat) :
    t.links.child side y = match side with
      | .left => t.left y
      | .right => t.right y := by
  cases side <;> rfl

theorem reset_links (t : CBtree) (n : Nat) (side : Branch) (y : Nat) :
    (t.reset n).links.child side y = if y = n then none else t.links.child side y := by
  cases side <;> exact Function.update_apply ..

theorem reset_parent (t : CBtree) (n y : Nat) :
    (t.reset n).parent y = if y = n then none else t.parent y :=
  Function.update_apply ..

theorem reset_next (t : CBtree) (n y : Nat) :
    (t.reset n).next y = if y = n then none else t.next y :=
  Function.update_apply ..

theorem reset_prev (t : CBtree) (n y : Nat) :
    (t.reset n).prev y = if y = n then none else t.prev y :=
  Function.update_apply ..

variable {shape : BinaryTree Nat}

/-- A node that is not in the tree may be reset. -/
theorem Shaped.reset (shaped : Shaped t shape) (fresh : n ∉ inorder shape) :
    Shaped (t.reset n) shape := by
  have other (y : Nat) (member : y ∈ inorder shape) : y ≠ n := fun same => fresh (same ▸ member)
  refine ⟨shaped.rooted.congr (fun y member side => ?_) (fun y member => ?_),
    shaped.threaded.congr (fun y member => ?_) (fun y member => ?_), shaped.first, shaped.last⟩
  · rw [reset_links, if_neg (other y member)]
  · exact (reset_parent t n y).trans (if_neg (other y member))
  · rw [reset_next, if_neg (other y member)]
  · rw [reset_prev, if_neg (other y member)]

theorem Inserts.rooted {step : TreeStep Nat} {path : List (TreeStep Nat)}
    (inserts : Inserts t t' n step xs ys) (rooted : Rooted t.links none t.pcRoot (plug (step :: path) .nil))
    (nodup : (inorder (plug (step :: path) .nil)).Nodup)
    (fresh : n ∉ inorder (plug (step :: path) .nil)) (leaf : ∀ side, t.links.child side n = none) :
    Rooted t'.links none t'.pcRoot (plug (step :: path) (.node n .nil .nil)) := by
  have perm := inorder_plug_perm (step :: path) .nil
  rw [inorder, List.append_nil] at perm
  have nodup' := perm.nodup_iff.mp nodup
  have other (y : Nat) (member : y ∈ aside (step :: path)) : y ≠ n := by
    rintro rfl
    exact fresh (perm.mem_iff.mpr member)
  have here := other step.node (node_mem_aside List.mem_cons_self)
  obtain ⟨around, -⟩ := rooted_plug.mp rooted
  refine rooted_plug.mpr ⟨around.redirect nodup' ?_ ?_ ?_ ?_ ?_, rfl, ?_, ?_, ?_⟩
  · intro y member side apart
    rw [inserts.children, if_neg]
    exact fun same => apart step rfl ⟨same.1.symm, same.2.symm⟩
  · rintro head is
    cases is
    rw [inserts.children, if_pos ⟨rfl, rfl⟩]
    rfl
  · intro y member _
    exact (inserts.parents y).trans (if_neg (other y member))
  · intro y member is
    exact ((inserts.parents y).trans (if_neg (other y member))).trans
      (Around.root_parent around (List.cons_ne_nil step path) is)
  · rw [inserts.root, if_neg (List.cons_ne_nil step path)]
  · exact (inserts.parents n).trans (if_pos rfl)
  · exact (inserts.children .left n).trans
      ((if_neg fun same => here same.1.symm).trans (leaf .left))
  · exact (inserts.children .right n).trans
      ((if_neg fun same => here same.1.symm).trans (leaf .right))

variable {K : Type} [LinearOrder K] {key : Nat → K} {compareTo : Nat → Nat → Int}

/-- A place that was found for a node is hung with it. -/
theorem added_inserts {path : List (TreeStep Nat)} {step : TreeStep Nat}
    (threaded : Threaded t.next t.prev none (before (step :: path) ++ after (step :: path)) none)
    (nodup : (before (step :: path) ++ n :: after (step :: path)).Nodup) :
    (added t n (step :: path, .nil)).1 = true ∧
      Inserts t (added t n (step :: path, .nil)).2 n step (before (step :: path))
        (after (step :: path)) := by
  obtain ⟨side, e, other⟩ := step
  cases side with
  | left => exact ⟨rfl, linkLeft_inserts threaded nodup rfl⟩
  | right =>
      refine ⟨rfl, linkRight_inserts threaded nodup ?_⟩
      rw [before, ← List.append_assoc, List.getLast?_concat]

theorem noteEnds_fields (t : CBtree) (n : Nat) : (t.noteEnds true n).links = t.links ∧
    (t.noteEnds true n).pcRoot = t.pcRoot ∧ (t.noteEnds true n).next = t.next ∧
      (t.noteEnds true n).prev = t.prev ∧
        (t.noteEnds true n).pcFirst = (if t.prev n = none then some n else t.pcFirst) ∧
          (t.noteEnds true n).pcLast = if t.next n = none then some n else t.pcLast := by
  rw [CBtree.noteEnds]
  by_cases before : t.prev n = none <;> by_cases after : t.next n = none <;>
    simp [before, after, CBtree.links]

theorem Inserts.shaped {step : TreeStep Nat} (inserts : Inserts t t' n step xs ys)
    (rooted : Rooted t'.links none t'.pcRoot shape) (order : inorder shape = xs ++ n :: ys)
    (first : t.pcFirst = (xs ++ ys).head?) (last : t.pcLast = (xs ++ ys).getLast?) :
    Shaped (t'.noteEnds true n) shape := by
  obtain ⟨links, root, next, prev, pcFirst, pcLast⟩ := noteEnds_fields t' n
  obtain ⟨before, after⟩ := inserts.threaded.at_cell
  refine ⟨?_, ?_, ?_, ?_⟩
  · rw [links, root]
    exact rooted
  · rw [next, prev, order]
    exact inserts.threaded
  · rw [pcFirst, before, inserts.first, first, order]
    cases xs <;> simp
  · rw [pcLast, after, inserts.last, last, order]
    cases ys with
    | nil => simp
    | cons y ys => simp [List.getLast?_append, List.getLast?_cons_cons]

/-- The tree has the new node in its order, or has one with its key. -/
inductive AddSpec (key : Nat → K) (n : Nat) (shape : BinaryTree Nat) :
    Option (Bool × CBtree) → Prop where
  | present {t' : CBtree} (x : Nat) (member : x ∈ inorder shape) (same : key x = key n)
      (shaped : Shaped t' shape) : AddSpec key n shape (some (false, t'))
  | absent {t' : CBtree} {shape' : BinaryTree Nat} {xs ys : List Nat}
      (old : inorder shape = xs ++ ys) (new : inorder shape' = xs ++ n :: ys)
      (less : ∀ x ∈ xs, key x < key n) (greater : ∀ y ∈ ys, key n < key y)
      (shaped : Shaped t' shape') : AddSpec key n shape (some (true, t'))

theorem add_spec (compares : Compares key compareTo) (shaped : Shaped t shape)
    (sorted : (inorder shape).Pairwise fun x y => key x < key y) {fuel : Nat}
    (enough : shape.numNodes ≤ fuel) (fresh : n ∉ inorder shape) :
    AddSpec key n shape (t.add compareTo fuel n) := by
  have old := shaped.reset fresh
  have nodup : (inorder shape).Nodup := sorted.imp fun less same => less.ne (congrArg key same)
  rw [CBtree.add]
  cases root : (t.reset n).pcRoot with
  | none =>
      have empty : shape = .nil := by
        have ptr := old.rooted.ptr_eq
        rw [root] at ptr
        cases shape with
        | nil => rfl
        | node => cases ptr
      subst empty
      refine @AddSpec.absent _ _ _ _ _ _ (.node n .nil .nil) [] [] rfl rfl
        (List.forall_mem_nil _) (List.forall_mem_nil _) ?_
      refine ⟨⟨rfl, ?_, ?_, ?_⟩, ⟨?_, ?_, trivial⟩, rfl, rfl⟩
      · exact (reset_parent t n n).trans (if_pos rfl)
      · exact (reset_links t n .left n).trans (if_pos rfl)
      · exact (reset_links t n .right n).trans (if_pos rfl)
      · exact (reset_prev t n n).trans (if_pos rfl)
      · exact (reset_next t n n).trans (if_pos rfl)
  | some x =>
      have rooted := old.rooted
      rw [root] at rooted
      have loop := @addLoop_eq _ _ _ _ (t.reset n) compares _ n _ _ _ [] _ rooted
        (fun _ _ _ _ => rfl) enough
      have whole := plug_locate key (key n) [] shape
      have belongs : Belongs key (key n) (locate key (key n) [] shape).1 :=
        locate_belongs ⟨List.forall_mem_nil _, List.forall_mem_nil _⟩ sorted
      dsimp only
      rw [loop, Option.map_some]
      cases place : locate key (key n) [] shape with
      | mk path s =>
          rw [place] at whole belongs
          change plug path s = shape at whole
          cases s with
          | node d l r =>
              have same := locate_key place
              have member : d ∈ inorder shape := by
                rw [← whole, inorder_plug]
                simp [inorder]
              rw [added_node, CBtree.noteEnds]
              simp only [Bool.false_eq_true, false_and, if_false]
              exact .present d member same old
          | nil =>
              cases path with
              | nil =>
                  rw [← whole] at rooted
                  cases rooted
              | cons step path =>
                  have order := inorder_plug (step :: path) .nil
                  rw [whole, inorder, List.append_nil] at order
                  have fresh' : n ∉ before (step :: path) ++ after (step :: path) := order ▸ fresh
                  have nodup' := List.nodup_middle.mpr (List.nodup_cons.mpr ⟨fresh', order ▸ nodup⟩)
                  obtain ⟨answer, inserts⟩ := added_inserts (order ▸ old.threaded) nodup'
                  have hung := inserts.rooted (by rw [whole]; exact old.rooted) (by rw [whole]; exact nodup)
                    (by rw [whole]; exact fresh) fun side => (reset_links t n side n).trans (if_pos rfl)
                  rw [answer]
                  have new := inorder_plug (step :: path) (.node n .nil .nil)
                  rw [inorder, inorder, List.nil_append, List.append_assoc, List.singleton_append] at new
                  refine .absent order new belongs.before belongs.after
                    (inserts.shaped hung new (order ▸ old.first) (order ▸ old.last))

end Cgsf.Proof.P2P
