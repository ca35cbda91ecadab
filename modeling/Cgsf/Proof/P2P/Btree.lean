import Cgsf.Library.Transition
import Cgsf.Proof.P2P.BtreeAdd
import Cgsf.Proof.P2P.BtreeDelete
import Mathlib.Order.Nat

/-!
# The tree holds the stored nodes in order, while no stored node is added again
-/

namespace Cgsf.Proof.P2P
open Cgsf.P2P Library LinkedTree

variable {K : Type} [LinearOrder K] {key : Nat → K} {compareTo : Nat → Nat → Int} {r : TreeRun}
  {shape : BinaryTree Nat} {n : Nat}

/-- The nodes of the tree are in the order of their keys and are those that are stored. -/
structure Stores (key : Nat → K) (shape : BinaryTree Nat) (stored : List Nat) : Prop where
  sorted : (inorder shape).Pairwise fun x y => key x < key y
  stored : (inorder shape).Perm stored

variable {stored : List Nat}

theorem Stores.enough (holds : Stores key shape stored) : shape.numNodes ≤ stored.length := by
  rw [← length_inorder]
  exact Nat.le_of_eq holds.stored.length_eq

theorem Stores.unique (holds : Stores key shape stored) {x y : Nat} (memX : x ∈ inorder shape)
    (memY : y ∈ inorder shape) (same : key x = key y) : x = y := by
  have distinct : ((inorder shape).map key).Nodup :=
    List.pairwise_map.mpr (holds.sorted.imp fun less => less.ne)
  exact List.inj_on_of_nodup_map distinct memX memY same

/-- The search ends at the stored node with the key, if there is one. -/
theorem Stores.search (holds : Stores key shape stored) (compares : Compares key compareTo) (n : Nat) :
    top (locate key (key n) [] shape).2 = stored.find? fun x => compareTo x n = 0 := by
  have whole := plug_locate key (key n) [] shape
  have belongs : Belongs key (key n) (locate key (key n) [] shape).1 :=
    locate_belongs ⟨List.forall_mem_nil _, List.forall_mem_nil _⟩ holds.sorted
  cases place : locate key (key n) [] shape with
  | mk path s =>
      rw [place] at whole belongs
      change plug path s = shape at whole
      cases s with
      | nil =>
          refine (List.find?_eq_none.mpr fun x member => ?_).symm
          rw [← holds.stored.mem_iff, ← whole, inorder_plug, inorder, List.append_nil,
            List.mem_append] at member
          rw [decide_eq_true_eq, compares.equal]
          rcases member with less | greater
          · exact (belongs.before x less).ne
          · exact (belongs.after x greater).ne'
      | node d l r =>
          have member : d ∈ inorder shape := by
            rw [← whole, inorder_at]
            simp
          have same : key d = key n := locate_key place
          cases found : stored.find? fun x => compareTo x n = 0 with
          | none =>
              have other := List.find?_eq_none.mp found d (holds.stored.mem_iff.mp member)
              rw [decide_eq_true_eq, compares.equal] at other
              exact absurd same other
          | some x =>
              have equal := List.find?_some found
              rw [decide_eq_true_eq, compares.equal] at equal
              have memX := holds.stored.mem_iff.mpr (List.mem_of_find?_eq_some found)
              exact congrArg some (holds.unique member memX (same.trans equal.symm))

theorem Stores.correct (holds : Stores key shape r.stored) (compares : Compares key compareTo)
    (shaped : Shaped r.tree shape) : r.Correct compareTo where
  ordered := by
    refine ⟨shape, shaped.rooted, ?_, shaped.threaded, shaped.first, shaped.last, holds.stored⟩
    exact holds.sorted.imp fun less => (compares.greater ..).mpr less
  finds n := by rw [find_eq compares shaped.rooted holds.enough, holds.search compares n]

theorem holds_of_correct (compares : Compares key compareTo) (correct : r.Correct compareTo) :
    ∃ shape, Shaped r.tree shape ∧ Stores key shape r.stored := by
  obtain ⟨shape, rooted, sorted, threaded, first, last, perm⟩ := correct.ordered
  exact ⟨shape, ⟨rooted, threaded, first, last⟩,
    ⟨sorted.imp fun less => (compares.greater ..).mp less, perm⟩⟩

theorem present_iff (compares : Compares key compareTo) (holds : Stores key shape r.stored) :
    r.Present compareTo n ↔ ∃ x ∈ inorder shape, key x = key n := by
  simp [TreeRun.Present, compares.equal, holds.stored.mem_iff]

/-! ## A step -/

/-- A node that is not stored is added, or one that compares equal is. -/
theorem add_correct (compares : Compares key compareTo) (shaped : Shaped r.tree shape)
    (holds : Stores key shape r.stored) (fresh : n ∉ r.stored) :
    ∃ r', r.Answers compareTo (.add n) r' ∧ r'.Correct compareTo := by
  have spec := add_spec compares shaped holds.sorted holds.enough (mt holds.stored.mem_iff.mp fresh)
  generalize is : r.tree.add compareTo r.stored.length n = result at spec
  cases spec with
  | present x member same shaped' =>
      rename_i t'
      have present := (present_iff compares holds).mpr ⟨x, member, same⟩
      refine ⟨⟨t', r.stored⟩, ?_, Stores.correct holds compares shaped'⟩
      rw [TreeRun.Answers, TreeRun.answer, TreeRun.call, is, if_pos present, present]
      rfl
  | absent old new less greater shaped' =>
      rename_i t' shape' xs ys
      have absent : ¬r.Present compareTo n := by
        rw [present_iff compares holds, old]
        rintro ⟨x, member, same⟩
        rcases List.mem_append.mp member with below | above
        · exact (less x below).ne same
        · exact (greater x above).ne' same
      have sorted := holds.sorted
      rw [old, List.pairwise_append] at sorted
      have holds' : Stores key shape' (n :: r.stored) := by
        refine ⟨?_, ?_⟩
        · rw [new, List.pairwise_append, List.pairwise_cons]
          refine ⟨sorted.1, ⟨greater, sorted.2.1⟩, fun x memX y memY => ?_⟩
          rcases List.mem_cons.mp memY with rfl | above
          · exact less x memX
          · exact sorted.2.2 x memX y above
        · rw [new]
          exact List.perm_middle.trans ((old ▸ holds.stored).cons n)
      refine ⟨⟨t', n :: r.stored⟩, ?_, Stores.correct holds' compares shaped'⟩
      rw [TreeRun.Answers, TreeRun.answer, TreeRun.call, is, if_neg absent,
        Bool.eq_false_iff.mpr absent]
      rfl

theorem delete_correct (compares : Compares key compareTo) (shaped : Shaped r.tree shape)
    (holds : Stores key shape r.stored) :
    ∃ r', r.Answers compareTo (.delete n) r' ∧ r'.Correct compareTo := by
  have spec := delete_spec compares shaped holds.sorted (n := n) holds.enough
  generalize is : r.tree.delete compareTo r.stored.length n = result at spec
  cases spec with
  | absent others =>
      have absent : ¬r.Present compareTo n := by
        rw [present_iff compares holds]
        exact fun ⟨x, member, same⟩ => others x member same
      have kept : r.stored.filter (fun x => compareTo x n ≠ 0) = r.stored := by
        refine List.filter_eq_self.mpr fun x member => decide_eq_true ?_
        rw [Ne, compares.equal]
        exact others x (holds.stored.mem_iff.mpr member)
      refine ⟨r, ?_, holds.correct compares shaped⟩
      rw [TreeRun.Answers, TreeRun.answer, TreeRun.call, is, Option.map_some, kept,
        Bool.eq_false_iff.mpr absent]
  | present x same old new shaped' =>
      rename_i t' shape' xs ys
      have present := (present_iff compares holds).mpr ⟨x, by simp [old], same⟩
      have sorted := holds.sorted
      rw [old, List.pairwise_append, List.pairwise_cons] at sorted
      obtain ⟨left, ⟨greater, right⟩, across⟩ := sorted
      have others (y : Nat) (member : y ∈ xs ++ ys) : key y ≠ key n := by
        rw [← same]
        rcases List.mem_append.mp member with below | above
        · exact (across y below x List.mem_cons_self).ne
        · exact (greater y above).ne'
      have holds' : Stores key shape' (r.stored.filter fun x => compareTo x n ≠ 0) := by
        refine ⟨?_, ?_⟩
        · rw [new, List.pairwise_append]
          exact ⟨left, right, fun x memX y memY => across x memX y (List.mem_cons_of_mem _ memY)⟩
        · have perm := (old ▸ holds.stored).filter fun x => compareTo x n ≠ 0
          refine (List.Perm.of_eq ?_).trans perm
          have gone : ¬(decide (compareTo x n ≠ 0) = true) := by simp [compares.equal, same]
          rw [List.filter_append, List.filter_cons, if_neg gone, ← List.filter_append, new]
          refine (List.filter_eq_self.mpr fun y member => decide_eq_true ?_).symm
          rw [Ne, compares.equal]
          exact others y member
      refine ⟨⟨t', _⟩, ?_, Stores.correct holds' compares shaped'⟩
      rw [TreeRun.Answers, TreeRun.answer, TreeRun.call, is, present]
      rfl

/-- The links of a stored node that is added again are gone. -/
theorem add_again (compares : Compares key compareTo) (shaped : Shaped r.tree shape)
    (holds : Stores key shape r.stored) (member : n ∈ r.stored) :
    r.call compareTo (.add n) = some (false, ⟨r.tree.reset n, r.stored⟩) := by
  have inside := holds.stored.mem_iff.mpr member
  have present : r.Present compareTo n := (present_iff compares holds).mpr ⟨n, inside, rfl⟩
  have search := holds.search compares n
  have found : (r.stored.find? fun x => compareTo x n = 0).isSome := by
    refine List.find?_isSome.mpr ⟨n, member, ?_⟩
    rw [decide_eq_true_eq, compares.equal]
  have rooted := shaped.rooted
  rw [TreeRun.call, CBtree.add]
  cases root : (r.tree.reset n).pcRoot with
  | none =>
      rw [show r.tree.pcRoot = none from root] at rooted
      have ptr := rooted.ptr_eq
      cases shape with
      | nil => cases inside
      | node => cases ptr
  | some x =>
      rw [show r.tree.pcRoot = some x from root] at rooted
      dsimp only
      rw [addLoop_eq compares [] rooted ?_ holds.enough]
      · cases place : locate key (key n) [] shape with
        | mk path s =>
            rw [place] at search
            cases s with
            | nil =>
                rw [← search] at found
                cases found
            | node d left right =>
                rw [added_node, Option.map_some, Option.map_some, if_pos present]
                rfl
      · intro y _ other side
        rw [reset_links, if_neg fun same => other (congrArg key same)]

/-- The only node has no links to lose. -/
theorem again_correct (compares : Compares key compareTo) (shaped : Shaped r.tree shape)
    (holds : Stores key shape r.stored) (single : r.stored = [n]) :
    TreeRun.Correct compareTo ⟨r.tree.reset n, r.stored⟩ := by
  obtain rfl := inorder_eq_singleton (List.perm_singleton.mp (single ▸ holds.stored))
  obtain ⟨rooted, -, first, last⟩ := shaped
  refine Stores.correct holds compares ⟨⟨rooted.1, ?_, ?_, ?_⟩, ⟨?_, ?_, trivial⟩, first, last⟩
  · exact (reset_parent r.tree n n).trans (if_pos rfl)
  · exact (reset_links r.tree n .left n).trans (if_pos rfl)
  · exact (reset_links r.tree n .right n).trans (if_pos rfl)
  · exact (reset_prev r.tree n n).trans (if_pos rfl)
  · exact (reset_next r.tree n n).trans (if_pos rfl)

theorem step_iff_fits (compares : Compares key compareTo) (correct : r.Correct compareTo)
    (c : TreeCall) : (∃ r', r.Answers compareTo c r' ∧ r'.Correct compareTo) ↔ r.Fits c := by
  obtain ⟨shape, shaped, holds⟩ := holds_of_correct compares correct
  cases c with
  | delete n => exact ⟨fun _ => trivial, fun _ => delete_correct compares shaped holds⟩
  | add n =>
      by_cases member : n ∈ r.stored
      · have again := add_again compares shaped holds member
        constructor
        · rintro ⟨r', answers, correct'⟩ _
          have same := again.symm.trans answers
          obtain rfl := congrArg Prod.snd (Option.some.inj same)
          -- Nothing is threaded before or behind the node now.
          obtain ⟨shape', shaped', holds'⟩ := holds_of_correct compares correct'
          obtain ⟨xs, ys, split⟩ := List.append_of_mem (holds'.stored.mem_iff.mpr member)
          have threaded := shaped'.threaded
          rw [split] at threaded
          obtain ⟨before, behind⟩ := threaded.at_cell
          change (r.tree.reset n).prev n = _ at before
          change (r.tree.reset n).next n = _ at behind
          rw [reset_prev, if_pos rfl] at before
          rw [reset_next, if_pos rfl] at behind
          have noXs : xs = [] := List.getLast?_eq_none_iff.mp before.symm
          have noYs : ys = [] := List.head?_eq_none_iff.mp behind.symm
          rw [← holds'.stored.length_eq, split, noXs, noYs]
          rfl
        · intro fits
          obtain ⟨x, is⟩ := List.length_eq_one_iff.mp (fits member)
          rw [is] at member
          obtain rfl := List.mem_singleton.mp member
          refine ⟨_, ?_, again_correct compares shaped holds is⟩
          have present : r.Present compareTo n :=
            (present_iff compares holds).mpr ⟨n, holds.stored.mem_iff.mpr (by rw [is]; exact member), rfl⟩
          rw [TreeRun.Answers, TreeRun.answer, present]
          exact again
      · exact ⟨fun _ inside => absurd inside member, fun _ => add_correct compares shaped holds member⟩

/-- The tree is right after every run that adds no stored node again, and what a call needs to keep
it so is exactly this. -/
theorem run_correct (compares : Compares key compareTo) {history : List TreeCall}
    (run : Run (Guarded TreeRun.Fits (TreeRun.Steps compareTo)) {} history r) :
    r.Correct compareTo ∧
      ∀ c, (∃ r', r.Answers compareTo c r' ∧ r'.Correct compareTo) ↔ r.Fits c := by
  have holds : Stores key .nil [] := ⟨.nil, .refl _⟩
  have shaped : Shaped {} .nil := ⟨rfl, trivial, rfl, rfl⟩
  have initial : TreeRun.Correct compareTo {} := holds.correct compares shaped
  have correct : r.Correct compareTo := by
    refine run.invariant initial fun s c s' correct step => ?_
    obtain ⟨fits, bRet, call⟩ := step
    obtain ⟨s'', answers, correct'⟩ := (step_iff_fits compares correct c).mpr fits
    obtain ⟨-, rfl⟩ := Prod.mk.inj (Option.some.inj (call.symm.trans answers))
    exact correct'
  exact ⟨correct, step_iff_fits compares correct⟩

/-- The address is the key. -/
def compareAddress (x y : Nat) : Int :=
  y - x

theorem compareAddress_compares : Compares id compareAddress where
  equal x y := by simp only [compareAddress, id]; omega
  greater x y := by simp only [compareAddress, id]; omega

/-- The calls one after another. -/
def calls (history : List TreeCall) : Option TreeRun :=
  history.foldlM (fun r c => if r.Fits c then (r.call compareAddress c).map Prod.snd else none) {}

theorem calls_run (history : List TreeCall) (done : (calls history).isSome) :
    Run (Guarded TreeRun.Fits (TreeRun.Steps compareAddress)) {} history ((calls history).get done) := by
  refine (Run.guarded_of_foldlM TreeRun.Fits (fun r c => (r.call compareAddress c).map Prod.snd)
    history (Option.some_get done).symm).mono fun s c s' ⟨fits, step⟩ => ⟨fits, ?_⟩
  obtain ⟨⟨bRet, r'⟩, call, rfl⟩ := Option.map_eq_some_iff.mp step
  exact ⟨bRet, call⟩

/-- The root goes while it has two children, and comes back. -/
theorem deletedRoot_correct : ∃ r : TreeRun, r.stored = [4, 1, 6, 8, 2] ∧
    r.Correct compareAddress ∧
      ∀ c, (∃ r', r.Answers compareAddress c r' ∧ r'.Correct compareAddress) ↔ r.Fits c :=
  ⟨(calls [.add 4, .add 2, .add 8, .add 6, .delete 4, .add 1, .delete 4, .add 4]).get (by decide),
    by decide, run_correct compareAddress_compares (calls_run _ _)⟩

/-- The third call answers that the node is stored, but node 2 is not found any more. -/
theorem addedAgain_loses : ∃ r : TreeRun,
    Run (TreeRun.Steps compareAddress) {} [.add 1, .add 2, .add 1] r ∧
      r.stored = [2, 1] ∧ r.tree.find compareAddress 2 2 = some none ∧ ¬r.Correct compareAddress := by
  have run : Run (TreeRun.Steps compareAddress) {} [.add 1, .add 2]
      ((calls [.add 1, .add 2]).get (by decide)) := (calls_run _ _).mono fun _ _ _ step => step.2
  refine ⟨_, .next run ⟨false, rfl⟩, by decide, by decide, fun correct => ?_⟩
  exact absurd (correct.finds 2) (by decide)

end Cgsf.Proof.P2P
