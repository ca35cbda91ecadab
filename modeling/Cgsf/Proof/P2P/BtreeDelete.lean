import Cgsf.Proof.P2P.BtreeSearch

/-!
# A node is deleted

The tree that replaces the one at the node is hung at the same place.
-/

namespace Cgsf.Proof.P2P
open Cgsf.P2P Library LinkedTree

variable {t u : CBtree} {d : Nat}

/-! ## The threads -/

/-- The threads of `u` run past `d`, and its links are those of `t`. -/
structure Unthreads (t u : CBtree) (xs ys : List Nat) : Prop where
  links : u.links = t.links
  root : u.pcRoot = t.pcRoot
  threaded : Threaded u.next u.prev none (xs ++ ys) none
  first : u.pcFirst = (xs ++ ys).head?
  last : u.pcLast = (xs ++ ys).getLast?

theorem delNodeAndLink_links (t : CBtree) (d : Nat) :
    (t.delNodeAndLink d).links = t.links ∧ (t.delNodeAndLink d).pcRoot = t.pcRoot := by
  unfold CBtree.delNodeAndLink
  dsimp only
  split_ifs <;> split <;> split <;> exact ⟨rfl, rfl⟩

theorem delNodeAndLink_fields (notNext : t.next d ≠ some d) (notPrev : t.prev d ≠ some d) :
    (∀ y, (t.delNodeAndLink d).next y = if t.prev d = some y then t.next d else t.next y) ∧
      (∀ y, (t.delNodeAndLink d).prev y = if t.next d = some y then t.prev d else t.prev y) ∧
        (t.delNodeAndLink d).pcFirst = (if t.pcFirst = some d then t.next d else t.pcFirst) ∧
          (t.delNodeAndLink d).pcLast = if t.pcLast = some d then t.prev d else t.pcLast := by
  have reads (f : Nat → Option Nat) {z : Nat} (v : Option Nat) (ne : some z ≠ some d) :
      Function.update f z v d = f d :=
    Function.update_of_ne (fun same => ne (congrArg some same.symm)) ..
  rcases Option.eq_none_or_eq_some (t.next d) with next | ⟨z, next⟩ <;>
    rcases Option.eq_none_or_eq_some (t.prev d) with prev | ⟨p, prev⟩
  all_goals
    simp only [next, prev] at notNext notPrev
    by_cases first : t.pcFirst = some d <;> by_cases last : t.pcLast = some d <;>
      simp [CBtree.delNodeAndLink, CBtree.setPrev, CBtree.setNext, next, prev, first, last, reads,
        notNext, notPrev, Function.update_apply, eq_comm]

theorem delNodeAndLink_unthreads {xs ys : List Nat}
    (threaded : Threaded t.next t.prev none (xs ++ d :: ys) none) (nodup : (xs ++ d :: ys).Nodup)
    (first : t.pcFirst = (xs ++ d :: ys).head?) (last : t.pcLast = (xs ++ d :: ys).getLast?) :
    Unthreads t (t.delNodeAndLink d) xs ys := by
  obtain ⟨fresh, apart⟩ := List.nodup_cons.mp (List.nodup_middle.mp nodup)
  obtain ⟨before, after⟩ := threaded.at_cell
  have ahead (y : Nat) (is : xs.getLast? = some y) : y ≠ d := fun same =>
    fresh (same ▸ List.mem_append_left ys (List.mem_of_getLast? is))
  have behind (y : Nat) (is : ys.head? = some y) : y ≠ d := fun same =>
    fresh (same ▸ List.mem_append_right xs (List.mem_of_mem_head? is))
  obtain ⟨next, prev, pcFirst, pcLast⟩ := delNodeAndLink_fields (t := t) (d := d)
    (fun same => behind d (after.symm.trans same) rfl) (fun same => ahead d (before.symm.trans same) rfl)
  obtain ⟨links, root⟩ := delNodeAndLink_links t d
  refine ⟨links, root, ?_, ?_, ?_⟩
  · refine threaded.unlink nodup (fun y is => ?_) (fun y is => ?_) (fun y _ inner => ?_) fun y _ inner => ?_
    · rw [next, before, if_pos (Option.mem_def.mp is), after]
    · rw [prev, after, if_pos (Option.mem_def.mp is), before]
    · rw [next, before, if_neg (mt Option.mem_def.mpr inner)]
    · rw [prev, after, if_neg (mt Option.mem_def.mpr inner)]
  · rw [pcFirst, first, after]
    cases xs with
    | nil => simp
    | cons x xs =>
        have other : x ≠ d := fun same => fresh (same ▸ List.mem_cons_self)
        simp [other]
  · rw [pcLast, last, before]
    rcases List.eq_nil_or_concat' ys with rfl | ⟨front, y, rfl⟩
    · simp
    · have other : y ≠ d := fun same => fresh (by simp [same])
      rw [← List.cons_append, ← List.append_assoc, ← List.append_assoc, List.getLast?_concat,
        List.getLast?_concat, if_neg fun same => other (Option.some.inj same)]

/-! ## The links -/

/-- The place at the end of a path leads to `rep`. -/
def hang (u : CBtree) (rep : Option Nat) : List (TreeStep Nat) → CBtree
  | [] => { u with pcRoot := rep }
  | ⟨.left, x, _⟩ :: _ => u.setLeft x rep
  | ⟨.right, x, _⟩ :: _ => u.setRight x rep

variable {rep : Option Nat} {path : List (TreeStep Nat)} {old new : BinaryTree Nat}

theorem hang_child (side : Branch) (y : Nat) : (hang u rep path).links.child side y =
    if ∃ step ∈ path.head?, step.node = y ∧ step.side = side then rep else u.links.child side y := by
  cases path with
  | nil => simp [hang, CBtree.links]
  | cons step path =>
      obtain ⟨side', x, other⟩ := step
      cases side' <;> cases side <;>
        simp [hang, CBtree.links, CBtree.setLeft, CBtree.setRight, Function.update_apply, eq_comm]

theorem hang_fields (u : CBtree) (rep : Option Nat) (path : List (TreeStep Nat)) :
    (hang u rep path).parent = u.parent ∧ (hang u rep path).next = u.next ∧
    (hang u rep path).prev = u.prev ∧ (hang u rep path).pcFirst = u.pcFirst ∧
      (hang u rep path).pcLast = u.pcLast ∧
        (hang u rep path).pcRoot = if path = [] then rep else u.pcRoot := by
  cases path with
  | nil => exact ⟨rfl, rfl, rfl, rfl, rfl, rfl⟩
  | cons step path =>
      obtain ⟨side, x, other⟩ := step
      cases side <;> exact ⟨rfl, rfl, rfl, rfl, rfl, rfl⟩

/-- The parent's pointer to the node is the one that is replaced. -/
theorem replaceChild_eq {root : Option Nat} (around : Around u.links none root path (some d))
    (fresh : d ∉ aside path) :
    u.replaceChild d (foot none path) rep = (some d, hang u rep path) := by
  cases path with
  | nil => rfl
  | cons step path =>
      obtain ⟨side, x, other⟩ := step
      obtain ⟨here, beside, -⟩ := around
      rw [foot, CBtree.replaceChild]
      cases side with
      | left =>
          have here : u.left x = some d := here
          rw [if_pos here]
          rfl
      | right =>
          have here : u.right x = some d := here
          have notLeft : u.left x ≠ some d := by
            intro same
            have ptr : u.left x = top other := beside.ptr_eq
            refine fresh (List.mem_append_left _ (List.mem_cons_of_mem x (top_mem ?_)))
            exact ptr.symm.trans same
          rw [if_neg notLeft, if_pos here]
          rfl

/-- The node is replaced by a tree; what is around it has kept its links. -/
theorem replaceChild_rooted {l r : BinaryTree Nat} (u : CBtree) (new : BinaryTree Nat)
    (rooted : Rooted t.links none t.pcRoot (plug path (.node d l r)))
    (nodup : (inorder (plug path (.node d l r))).Nodup) (root : u.pcRoot = t.pcRoot)
    (children : ∀ y ∈ aside path, ∀ side, u.links.child side y = t.links.child side y)
    (parents : ∀ y ∈ aside path, u.parent y = t.parent y)
    (here : Rooted u.links (foot none path) (top new) new)
    (members : ∀ y ∈ inorder new, y ∈ inorder (.node d l r)) :
    u.replaceChild d (foot none path) (top new) = (some d, hang u (top new) path) ∧
      Rooted (hang u (top new) path).links none (hang u (top new) path).pcRoot (plug path new) := by
  obtain ⟨apartPath, -, apart⟩ := nodup_plug nodup
  obtain ⟨around, -⟩ := rooted_plug.mp rooted
  obtain ⟨parent, -, -, -, -, pcRoot⟩ := hang_fields u (top new) path
  refine ⟨replaceChild_eq (around.congr children parents) (apart d (by simp [inorder])),
    rooted_plug.mpr ⟨around.redirect apartPath ?_ ?_ ?_ ?_ ?_, here.congr ?_ ?_⟩⟩
  · intro y member side other
    rw [hang_child, if_neg]
    · exact children y member side
    · rintro ⟨step, is, same⟩
      exact other step is same
  · intro step is
    rw [hang_child, if_pos ⟨step, is, rfl, rfl⟩]
  · intro y member _
    exact (congrFun parent y).trans (parents y member)
  · intro y member is
    have deep : path ≠ [] := by
      rintro rfl
      cases member
    exact (congrFun parent y).trans ((parents y member).trans (around.root_parent deep is))
  · rw [pcRoot, root]
  · intro y member side
    rw [hang_child, if_neg]
    rintro ⟨step, is, rfl, -⟩
    exact apart _ (members _ member) (node_mem_aside (List.mem_of_mem_head? is))
  · intro y member
    exact congrFun parent y

/-! ## The cases -/

variable {l r : BinaryTree Nat}

/-- The node is out of the threads, and what replaces its tree is hung at its place. -/
theorem hang_shaped {w : CBtree}
    (unthreads : Unthreads t u (before path ++ inorder l) (inorder r ++ after path))
    (threads : w.next = u.next ∧ w.prev = u.prev ∧ w.pcFirst = u.pcFirst ∧ w.pcLast = u.pcLast)
    (rooted : Rooted (hang w (top new) path).links none (hang w (top new) path).pcRoot (plug path new))
    (order : inorder new = inorder l ++ inorder r) : Shaped (hang w (top new) path) (plug path new) := by
  obtain ⟨-, next, prev, first, last, -⟩ := hang_fields w (top new) path
  have whole : inorder (plug path new) =
      before path ++ inorder l ++ (inorder r ++ after path) := by
    rw [inorder_plug, order, List.append_assoc, List.append_assoc, List.append_assoc]
  refine ⟨rooted, ?_, ?_, ?_⟩
  · rw [next, prev, threads.1, threads.2.1, whole]
    exact unthreads.threaded
  · rw [first, threads.2.2.1, whole]
    exact unthreads.first
  · rw [last, threads.2.2.2, whole]
    exact unthreads.last

theorem inorder_at (path : List (TreeStep Nat)) (l r : BinaryTree Nat) (d : Nat) :
    inorder (plug path (.node d l r)) =
      before path ++ inorder l ++ d :: (inorder r ++ after path) := by
  rw [inorder_plug, inorder]
  simp only [List.append_assoc, List.cons_append]

/-- Whatever a parent is set to before, the threads run past the node. -/
theorem Shaped.unthreads (shaped : Shaped t (plug path (.node d l r)))
    (nodup : (inorder (plug path (.node d l r))).Nodup) (x : Nat) (p : Option Nat) :
    Unthreads (t.setParent x p) ((t.setParent x p).delNodeAndLink d) (before path ++ inorder l)
      (inorder r ++ after path) := by
  obtain ⟨-, threaded, first, last⟩ := shaped
  rw [inorder_at] at threaded first last nodup
  exact delNodeAndLink_unthreads threaded nodup first last

theorem setParent_parent (t : CBtree) (x : Nat) (p : Option Nat) (y : Nat) :
    (t.setParent x p).parent y = if y = x then p else t.parent y :=
  Function.update_apply ..

/-- One child takes the place of the node. -/
theorem promote_shaped {c : BinaryTree Nat} {x : Nat} (shaped : Shaped t (plug path (.node d l r)))
    (nodup : (inorder (plug path (.node d l r))).Nodup) (child : Rooted t.links (some d) (some x) c)
    (order : inorder c = inorder l ++ inorder r) :
    ∃ t', ((t.setParent x (foot none path)).delNodeAndLink d).replaceChild d (foot none path) (some x) =
        (some d, t') ∧ Shaped t' (plug path c) := by
  have unthreads := shaped.unthreads nodup x (foot none path)
  obtain ⟨-, nodupHere, apart⟩ := nodup_plug nodup
  have members (y : Nat) (member : y ∈ inorder c) : y ∈ inorder (.node d l r) := by
    rw [order, List.mem_append] at member
    simp only [inorder, List.mem_append, List.mem_cons]
    tauto
  have root : some x = top c := child.ptr_eq
  have memX : x ∈ inorder c := top_mem root.symm
  have children (side : Branch) (y : Nat) :
      ((t.setParent x (foot none path)).delNodeAndLink d).links.child side y =
        t.links.child side y := by
    rw [unthreads.links]
    cases side <;> rfl
  have parents (y : Nat) : ((t.setParent x (foot none path)).delNodeAndLink d).links.parent y =
      if y = x then foot none path else t.parent y := by
    rw [unthreads.links]
    exact setParent_parent ..
  rw [root]
  have replaced := replaceChild_rooted ((t.setParent x (foot none path)).delNodeAndLink d) c shaped.rooted
    nodup unthreads.root
    (fun y _ side => children side y) ?_ ?_ members
  · exact ⟨_, replaced.1, hang_shaped unthreads ⟨rfl, rfl, rfl, rfl⟩ replaced.2 order⟩
  · intro y member
    refine (parents y).trans (if_neg ?_)
    rintro rfl
    exact apart y (members y memX) member
  · rw [← root]
    refine child.reparent ?_ (fun y _ side => children side y) ?_ ?_
    · rw [order]
      exact (List.nodup_middle.mp nodupHere).of_cons
    · intro y _ other
      refine (parents y).trans (if_neg ?_)
      rintro rfl
      exact other root.symm
    · intro y is
      obtain rfl : x = y := Option.some.inj (root.trans is)
      exact (parents x).trans (if_pos rfl)

theorem leaf_shaped (shaped : Shaped t (plug path (.node d .nil .nil)))
    (nodup : (inorder (plug path (.node d .nil .nil))).Nodup) :
    ∃ t', (t.delNodeAndLink d).replaceChild d (foot none path) none = (some d, t') ∧
      Shaped t' (plug path .nil) := by
  have unthreads : Unthreads t (t.delNodeAndLink d) (before path ++ inorder .nil)
      (inorder .nil ++ after path) := by
    obtain ⟨-, threaded, first, last⟩ := shaped
    rw [inorder_at] at threaded first last nodup
    exact delNodeAndLink_unthreads threaded nodup first last
  have replaced := replaceChild_rooted (t.delNodeAndLink d) .nil shaped.rooted nodup
    unthreads.root (fun y _ side => by rw [unthreads.links])
    (fun y _ => congrFun (congrArg TreeLinks.parent unthreads.links) y) rfl (List.forall_mem_nil _)
  exact ⟨_, replaced.1, hang_shaped unthreads ⟨rfl, rfl, rfl, rfl⟩ replaced.2 rfl⟩

/-! ### Two children -/

theorem raiseLeftEnd_threads (m y : Nat) (p q : Option Nat) :
    (u.raiseLeftEnd m y p q).next = u.next ∧ (u.raiseLeftEnd m y p q).prev = u.prev ∧
      (u.raiseLeftEnd m y p q).pcFirst = u.pcFirst ∧ (u.raiseLeftEnd m y p q).pcLast = u.pcLast ∧
        (u.raiseLeftEnd m y p q).pcRoot = u.pcRoot := by
  unfold CBtree.raiseLeftEnd
  dsimp only
  split_ifs
  · exact ⟨rfl, rfl, rfl, rfl, rfl⟩
  · split <;> split <;> exact ⟨rfl, rfl, rfl, rfl, rfl⟩

theorem raiseLeftEnd_near (m : Nat) (p q : Option Nat) :
    (∀ side z, (u.raiseLeftEnd m m p q).links.child side z =
      if z = m ∧ side = .left then q else u.links.child side z) ∧
      ∀ z, (u.raiseLeftEnd m m p q).links.parent z = if z = m then p else u.links.parent z := by
  rw [CBtree.raiseLeftEnd, if_pos rfl]
  refine ⟨fun side z => ?_, fun z => Function.update_apply ..⟩
  cases side
  · simp [CBtree.links, CBtree.setLeft, CBtree.setParent, Function.update_apply]
  · simp [CBtree.links, CBtree.setLeft, CBtree.setParent]

theorem raiseLeftEnd_far {m y e : Nat} (ne : y ≠ m) (p q : Option Nat) (parent : u.parent m = some e) :
    (∀ z, (u.raiseLeftEnd m y p q).left z =
        if z = e then u.right m else if z = m then q else u.left z) ∧
      (∀ z, (u.raiseLeftEnd m y p q).right z = if z = m then some y else u.right z) ∧
        ∀ z, (u.raiseLeftEnd m y p q).parent z = if z = m then p
          else if u.right m = some z then some e else if z = y then some m else u.parent z := by
  have read : Function.update u.parent y (some m) m = some e := by
    rw [Function.update_of_ne ne.symm, parent]
  rcases Option.eq_none_or_eq_some (u.right m) with child | ⟨c, child⟩
  all_goals
    simp [CBtree.raiseLeftEnd, ne, CBtree.setParent, CBtree.setLeft, CBtree.setRight, read, child,
      Function.update_apply, eq_comm]

section Raise

variable {c : BinaryTree Nat} {lp : List (TreeStep Nat)} {m x y : Nat} {p : Option Nat}

/-- The first node on the right comes first in its order. -/
theorem inorder_of_leftmost (is : leftmost [] r = (lp, .node m .nil c)) :
    inorder r = m :: inorder (plug lp c) := by
  have whole := plug_leftmost [] r
  have nothing := before_leftmost [] r
  rw [is] at whole nothing
  change plug lp (.node m .nil c) = r at whole
  change before lp = [] at nothing
  rw [← whole, inorder_plug, inorder_plug, nothing]
  rfl

/-- What is raised has the left subtree on its left and what is left of the right one on its
right. -/
theorem raiseLeftEnd_rooted (rooted : Rooted t.links p (some d) (.node d l r))
    (nodup : (inorder (.node d l r)).Nodup) (left : top l = some x) (right : top r = some y)
    (is : leftmost [] r = (lp, .node m .nil c))
    (children : ∀ side z, u.links.child side z = t.links.child side z)
    (parents : ∀ z, u.links.parent z = if z = x then some m else t.links.parent z) :
    Rooted (u.raiseLeftEnd m y p (some x)).links p (some m) (.node m l (plug lp c)) ∧
      ∀ z, z ∉ inorder (.node d l r) →
        (∀ side, (u.raiseLeftEnd m y p (some x)).links.child side z = t.links.child side z) ∧
          (u.raiseLeftEnd m y p (some x)).links.parent z = t.links.parent z := by
  have order := inorder_of_leftmost is
  obtain ⟨-, -, rootedL, rootedR⟩ := rooted
  rw [rootedL.ptr_eq, left] at rootedL
  rw [rootedR.ptr_eq, right] at rootedR
  obtain ⟨nodupL, nodupR, apart⟩ := List.nodup_append.mp nodup
  have memX : x ∈ inorder l := top_mem left
  have memM : m ∈ inorder r := by
    rw [order]
    exact List.mem_cons_self
  have notL {z : Nat} (member : z ∈ inorder r) : z ∉ inorder l := fun other =>
    apart z other z (List.mem_cons_of_mem d member) rfl
  have xm : x ≠ m := fun same => notL memM (same ▸ memX)
  have whole := plug_leftmost [] r
  rw [is] at whole
  change plug lp (.node m .nil c) = r at whole
  have nodupR := (List.nodup_cons.mp nodupR).2
  rw [← whole] at rootedR
  obtain ⟨aroundM, -, aboveM, -, rootedC⟩ := rooted_plug.mp rootedR
  have ptrC := rootedC.ptr_eq
  rw [ptrC] at rootedC
  -- The left subtree is hung from the raised node.
  have hungL {v : CBtree} (kids : ∀ z ∈ inorder l, ∀ side, v.links.child side z = t.links.child side z)
      (backs : ∀ z ∈ inorder l, v.links.parent z = u.links.parent z) :
      Rooted v.links (some m) (some x) l := by
    refine rootedL.reparent nodupL kids (fun z member other => ?_) fun z is => ?_
    · rw [backs z member, parents, if_neg]
      rintro rfl
      exact other left
    · rw [backs z (top_mem is), parents, if_pos (Option.some.inj (is.symm.trans left))]
  cases lp with
  | nil =>
      have same : y = m := by
        rw [← whole] at right
        exact (Option.some.inj right).symm
      subst same
      obtain ⟨child, parent⟩ := raiseLeftEnd_near (u := u) y p (some x)
      have freshC : y ∉ inorder c := by
        rw [order] at nodupR
        exact (List.nodup_cons.mp nodupR).1
      have memC {z : Nat} (member : z ∈ inorder c) : z ∈ inorder r := by
        rw [order]
        exact List.mem_cons_of_mem y member
      refine ⟨⟨rfl, (parent y).trans (if_pos rfl), ?_, ?_⟩, fun z outside => ⟨fun side => ?_, ?_⟩⟩
      · rw [child, if_pos ⟨rfl, rfl⟩]
        refine hungL (fun z member side => ?_) fun z member => ?_
        · rw [child, if_neg, children]
          rintro ⟨rfl, -⟩
          exact notL memM member
        · rw [parent, if_neg]
          rintro rfl
          exact notL memM member
      · rw [child, if_neg (by simp), children, ptrC]
        refine rootedC.congr (fun z member side => ?_) fun z member => ?_
        · rw [child, if_neg, children]
          rintro ⟨rfl, -⟩
          exact freshC member
        · rw [parent, if_neg, parents, if_neg]
          · rintro rfl
            exact notL (memC member) memX
          · rintro rfl
            exact freshC member
      · rw [child, if_neg, children]
        rintro ⟨rfl, -⟩
        exact outside (by simp [inorder, memM])
      · rw [parent, if_neg, parents, if_neg]
        · rintro rfl
          exact outside (by simp [inorder, memX])
        · rintro rfl
          exact outside (by simp [inorder, memM])
  | cons step rest =>
      have sides := @leftmost_left _ [] r (List.forall_mem_nil _)
      rw [is] at sides
      have side : step.side = .left := sides step List.mem_cons_self
      obtain ⟨nodupPath, nodupM, apartM⟩ := nodup_plug (whole ▸ nodupR)
      have inR {z : Nat} (member : z ∈ aside (step :: rest)) : z ∈ inorder r := by
        rw [← whole]
        exact (inorder_plug_perm _ _).mem_iff.mpr (List.mem_append_left _ member)
      have memC {z : Nat} (member : z ∈ inorder c) : z ∈ inorder r := by
        rw [← whole]
        exact (inorder_plug_perm _ _).mem_iff.mpr
          (List.mem_append_right _ (List.mem_cons_of_mem m member))
      have freshM : m ∉ aside (step :: rest) := apartM m List.mem_cons_self
      have freshC {z : Nat} (member : z ∈ inorder c) : z ∉ aside (step :: rest) :=
        apartM z (List.mem_cons_of_mem m member)
      have memE : step.node ∈ aside (step :: rest) := node_mem_aside List.mem_cons_self
      have memY : y ∈ aside (step :: rest) := by
        obtain ⟨outer, member, root⟩ := aroundM.root_mem (List.cons_ne_nil step rest)
        rw [Option.some.inj root]
        exact node_mem_aside member
      have ne : y ≠ m := fun same => freshM (same ▸ memY)
      have notTop {z : Nat} (outside : z ∉ inorder c) : u.right m ≠ some z := fun same =>
        outside (top_mem (ptrC.symm.trans ((children .right m).symm.trans same)))
      obtain ⟨leftV, rightV, parentV⟩ := raiseLeftEnd_far (u := u) ne p (some x)
        (((parents m).trans (if_neg xm.symm)).trans aboveM)
      -- Away from the nodes that are named, nothing but the parent of `x` has changed.
      have child {z : Nat} (notE : z ≠ step.node) (notM : z ≠ m) (side : Branch) :
          (u.raiseLeftEnd m y p (some x)).links.child side z = t.links.child side z := by
        rw [← children]
        cases side with
        | left => exact (leftV z).trans ((if_neg notE).trans (if_neg notM))
        | right => exact (rightV z).trans (if_neg notM)
      have parent {z : Nat} (notM : z ≠ m) (outside : z ∉ inorder c) (notY : z ≠ y) :
          (u.raiseLeftEnd m y p (some x)).links.parent z = u.links.parent z :=
        (parentV z).trans ((if_neg notM).trans ((if_neg (notTop outside)).trans (if_neg notY)))
      have other {z w : Nat} (inside : z ∈ inorder l) (member : w ∈ inorder r) : z ≠ w :=
        fun same => notL member (same ▸ inside)
      refine ⟨⟨rfl, (parentV m).trans (if_pos rfl), ?_, ?_⟩, fun z outside => ⟨fun side => ?_, ?_⟩⟩
      · have ptr : (u.raiseLeftEnd m y p (some x)).links.child .left m = some x :=
          (leftV m).trans ((if_neg fun same : m = step.node => freshM (same ▸ memE)).trans
            (if_pos rfl))
        rw [ptr]
        refine hungL (fun z member side => ?_) fun z member => ?_
        · exact child (other member (inR memE)) (other member memM) side
        · exact parent (other member memM) (fun inside => notL (memC inside) member)
            (other member (inR memY))
      · have ptr : (u.raiseLeftEnd m y p (some x)).links.child .right m = some y :=
          (rightV m).trans (if_pos rfl)
        rw [ptr]
        have notM {z : Nat} (member : z ∈ aside (step :: rest)) : z ≠ m :=
          fun same => freshM (same ▸ member)
        refine rooted_plug.mpr ⟨aroundM.redirect nodupPath ?_ ?_ ?_ ?_ ?_, ?_⟩
        · intro z member at' apart
          cases at' with
          | left => exact child (fun same => apart step rfl ⟨same.symm, side⟩) (notM member) .left
          | right => exact ((rightV z).trans (if_neg (notM member))).trans (children .right z)
        · rintro head same
          cases same
          rw [side]
          exact ((leftV step.node).trans (if_pos rfl)).trans ((children .right m).trans ptrC)
        · intro z member outside
          rw [parent (notM member) (fun inside => freshC inside member)
            fun same => outside (congrArg some same.symm), parents, if_neg]
          rintro rfl
          exact notL (inR member) memX
        · intro z member root
          cases root
          exact (parentV y).trans ((if_neg ne).trans
            ((if_neg (notTop fun inside => freshC inside member)).trans (if_pos rfl)))
        · rw [if_neg (List.cons_ne_nil step rest)]
        · have notMC {z : Nat} (member : z ∈ inorder c) : z ≠ m := by
            rintro rfl
            exact (List.nodup_cons.mp nodupM).1 member
          refine rootedC.reparent (List.nodup_cons.mp nodupM).2 ?_ ?_ ?_
          · intro z member side
            exact child (fun same : z = step.node => freshC member (same ▸ memE)) (notMC member)
              side
          · intro z member outside
            have notTop : u.right m ≠ some z := fun same =>
              outside (ptrC.symm.trans ((children .right m).symm.trans same))
            have notY : z ≠ y := fun same => freshC member (same ▸ memY)
            refine (parentV z).trans ((if_neg (notMC member)).trans ((if_neg notTop).trans
              ((if_neg notY).trans ((parents z).trans (if_neg ?_)))))
            rintro rfl
            exact notL (memC member) memX
          · intro z root
            refine (parentV z).trans ((if_neg (notMC (top_mem root))).trans (if_pos ?_))
            exact (children .right m).trans (ptrC.trans root)
      · refine child ?_ ?_ side
        · rintro rfl
          exact outside (by simp [inorder, inR memE])
        · rintro rfl
          exact outside (by simp [inorder, memM])
      · rw [parent, parents, if_neg]
        · rintro rfl
          exact outside (by simp [inorder, memX])
        · rintro rfl
          exact outside (by simp [inorder, memM])
        · exact fun inside => outside (by simp [inorder, memC inside])
        · rintro rfl
          exact outside (by simp [inorder, inR memY])

/-- The first node on the right takes the place of the node. -/
theorem both_shaped (shaped : Shaped t (plug path (.node d l r)))
    (nodup : (inorder (plug path (.node d l r))).Nodup) (left : top l = some x)
    (right : top r = some y) (is : leftmost [] r = (lp, .node m .nil c)) :
    ∃ t', (((t.setParent x (some m)).delNodeAndLink d).raiseLeftEnd m y (foot none path)
        (some x)).replaceChild d (foot none path) (some m) = (some d, t') ∧
      Shaped t' (plug path (.node m l (plug lp c))) := by
  have unthreads := shaped.unthreads nodup x (some m)
  obtain ⟨-, nodupHere, apart⟩ := nodup_plug nodup
  have order : inorder (.node m l (plug lp c)) = inorder l ++ inorder r := by
    rw [inorder, inorder_of_leftmost is]
  have children (side : Branch) (z : Nat) :
      ((t.setParent x (some m)).delNodeAndLink d).links.child side z = t.links.child side z := by
    rw [unthreads.links]
    cases side <;> rfl
  have parents (z : Nat) : ((t.setParent x (some m)).delNodeAndLink d).links.parent z =
      if z = x then some m else t.links.parent z := by
    rw [unthreads.links]
    exact setParent_parent ..
  have raised := raiseLeftEnd_threads (u := (t.setParent x (some m)).delNodeAndLink d) m y
    (foot none path) (some x)
  obtain ⟨next, prev, first, last, root⟩ := raised
  obtain ⟨here, frame⟩ := raiseLeftEnd_rooted (rooted_plug.mp shaped.rooted).2 nodupHere left right is
    children parents
  have outside (z : Nat) (member : z ∈ aside path) : z ∉ inorder (.node d l r) :=
    fun inside => apart z inside member
  have replaced := replaceChild_rooted _ (.node m l (plug lp c)) shaped.rooted nodup
    (root.trans unthreads.root) (fun z member => (frame z (outside z member)).1)
    (fun z member => (frame z (outside z member)).2) here fun z member => by
      rw [order, List.mem_append] at member
      simp only [inorder, List.mem_append, List.mem_cons]
      tauto
  exact ⟨_, replaced.1, hang_shaped unthreads ⟨next, prev, first, last⟩ replaced.2 order⟩

end Raise

/-! ## The deletion -/

/-- The node is gone from the order. -/
theorem delFound_spec {fuel : Nat} (shaped : Shaped t (plug path (.node d l r)))
    (nodup : (inorder (plug path (.node d l r))).Nodup) (enough : r.numNodes ≤ fuel) :
    ∃ t' shape', t.delFound fuel d = some (some d, t') ∧ Shaped t' shape' ∧
      inorder shape' = before path ++ inorder l ++ (inorder r ++ after path) := by
  obtain ⟨-, -, parent, left, right⟩ := rooted_plug.mp shaped.rooted
  have parent : t.parent d = foot none path := parent
  have ptrL : t.left d = top l := left.ptr_eq
  have ptrR : t.right d = top r := right.ptr_eq
  have atPlace {new : BinaryTree Nat} (order : inorder new = inorder l ++ inorder r) :
      inorder (plug path new) = before path ++ inorder l ++ (inorder r ++ after path) := by
    rw [inorder_plug, order]
    simp only [List.append_assoc]
  rw [CBtree.delFound, parent, ptrL, ptrR]
  cases l with
  | nil =>
      cases r with
      | nil =>
          dsimp only [top]
          by_cases single : foot none path = none
          · rw [if_pos single]
            cases path with
            | nil => exact ⟨_, .nil, rfl, ⟨rfl, trivial, rfl, rfl⟩, rfl⟩
            | cons step path => cases single
          · rw [if_neg single]
            obtain ⟨t', is, shaped'⟩ := leaf_shaped shaped nodup
            exact ⟨t', _, congrArg some is, shaped', atPlace rfl⟩
      | node y rl rr =>
          rw [right.ptr_eq] at right
          obtain ⟨t', is, shaped'⟩ := promote_shaped shaped nodup right rfl
          exact ⟨t', _, congrArg some is, shaped', atPlace rfl⟩
  | node x ll lr =>
      cases r with
      | nil =>
          rw [left.ptr_eq] at left
          have order : inorder (.node x ll lr) = inorder (.node x ll lr) ++ inorder .nil :=
            (List.append_nil _).symm
          obtain ⟨t', is, shaped'⟩ := promote_shaped shaped nodup left order
          exact ⟨t', _, congrArg some is, shaped', atPlace order⟩
      | node y rl rr =>
          obtain ⟨lp, m, c, is⟩ := leftmost_node [] y rl rr
          rw [right.ptr_eq] at right
          dsimp only [top]
          rw [getLeftEnd_eq right enough is]
          obtain ⟨t', replaced, shaped'⟩ := both_shaped shaped nodup rfl rfl is
          refine ⟨t', _, congrArg some replaced, shaped', atPlace ?_⟩
          rw [inorder, inorder_of_leftmost is]

variable {K : Type} [LinearOrder K] {key : Nat → K} {compareTo : Nat → Nat → Int}
  {shape : BinaryTree Nat}

/-- The node with the key is taken from the order, if there is one. -/
inductive DeleteSpec (key : Nat → K) (n : Nat) (t : CBtree) (shape : BinaryTree Nat) :
    Option (Bool × CBtree) → Prop where
  | absent (others : ∀ x ∈ inorder shape, key x ≠ key n) : DeleteSpec key n t shape (some (false, t))
  | present {t' : CBtree} {shape' : BinaryTree Nat} {xs ys : List Nat} (x : Nat)
      (same : key x = key n) (old : inorder shape = xs ++ x :: ys)
      (new : inorder shape' = xs ++ ys) (shaped : Shaped t' shape') :
      DeleteSpec key n t shape (some (true, t'))

theorem delete_spec (compares : Compares key compareTo) (shaped : Shaped t shape)
    (sorted : (inorder shape).Pairwise fun x y => key x < key y) {fuel n : Nat}
    (enough : shape.numNodes ≤ fuel) : DeleteSpec key n t shape (t.delete compareTo fuel n) := by
  have nodup : (inorder shape).Nodup := sorted.imp fun less same => less.ne (congrArg key same)
  have whole := plug_locate key (key n) [] shape
  have belongs : Belongs key (key n) (locate key (key n) [] shape).1 :=
    locate_belongs ⟨List.forall_mem_nil _, List.forall_mem_nil _⟩ sorted
  rw [CBtree.delete, CBtree.delWithLive, find_eq compares shaped.rooted enough]
  cases place : locate key (key n) [] shape with
  | mk path s =>
      rw [place] at whole belongs
      change plug path s = shape at whole
      cases s with
      | nil =>
          refine .absent fun x member => ?_
          rw [← whole, inorder_plug, inorder, List.append_nil, List.mem_append] at member
          rcases member with less | greater
          · exact (belongs.before x less).ne
          · exact (belongs.after x greater).ne'
      | node d l r =>
          have fits : r.numNodes ≤ fuel := by
            rw [← length_inorder, ← whole, inorder_at] at enough
            rw [← length_inorder]
            simp only [List.length_append, List.length_cons] at enough
            omega
          subst whole
          obtain ⟨t', shape', is, shaped', order⟩ := delFound_spec shaped nodup fits
          dsimp only [top, Option.bind_some]
          rw [is]
          exact .present d (locate_key place) (inorder_at ..) order shaped'

end Cgsf.Proof.P2P
