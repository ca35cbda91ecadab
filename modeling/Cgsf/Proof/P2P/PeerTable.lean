import Cgsf.Library.Transition
import Cgsf.P2P.PeerTable
import Mathlib.Data.Fintype.Card
import Mathlib.Data.List.Nodup
import Mathlib.Data.List.Pairwise

/-!
# The threads of the peer table

The nodes are shared out between the list and the pool as long as what `ModifyPeer` writes over a
node has the links and the index of that node.
-/

namespace Cgsf.Proof.P2P
open Cgsf.P2P Library

/-! ## Memory -/

namespace PeerMemory

variable {m m' : PeerMemory} {r y : PeerRef} {pos : Option PeerRef}

/-- A field of the nodes that is not written to. -/
theorem edit_field {α : Type} (field : PeerNode → α) {f : PeerNode → PeerNode}
    (keeps : field (f (m r)) = field (m r)) : field ((m.edit r f) y) = field (m y) := by
  rw [PeerMemory.edit]
  split
  · rw [keeps, ‹y = r›]
  · rfl

@[simp] theorem next_setNext : (m.setNext r pos).next y = if y = r then pos else m.next y := by
  simp only [PeerMemory.next, PeerMemory.setNext, PeerMemory.edit]
  split <;> rfl

@[simp] theorem prev_setNext : (m.setNext r pos).prev y = m.prev y :=
  edit_field PeerNode.pcPrev rfl

@[simp] theorem next_setPrev : (m.setPrev r pos).next y = m.next y :=
  edit_field PeerNode.pcNext rfl

@[simp] theorem prev_setPrev : (m.setPrev r pos).prev y = if y = r then pos else m.prev y := by
  simp only [PeerMemory.prev, PeerMemory.setPrev, PeerMemory.edit]
  split <;> rfl

@[simp] theorem next_reset : (m.reset r).next y = if y = r then none else m.next y := by
  rw [PeerMemory.reset, next_setNext, next_setPrev]

@[simp] theorem prev_reset : (m.reset r).prev y = if y = r then none else m.prev y := by
  rw [PeerMemory.reset, prev_setNext, prev_setPrev]

@[simp] theorem next_change {f : CPeerInfoNode → CPeerInfoNode} :
    (m.change r f).next y = m.next y :=
  edit_field PeerNode.pcNext rfl

@[simp] theorem prev_change {f : CPeerInfoNode → CPeerInfoNode} :
    (m.change r f).prev y = m.prev y :=
  edit_field PeerNode.pcPrev rfl

theorem change_apply {f : CPeerInfoNode → CPeerInfoNode} :
    ((m.change r f) y).toCPeerInfoNode =
      if y = r then f (m r).toCPeerInfoNode else (m y).toCPeerInfoNode := by
  simp only [PeerMemory.change, PeerMemory.edit]
  split <;> rfl

/-- Only links outside these nodes differ. -/
structure Relinked (m m' : PeerMemory) (refs : List PeerRef) : Prop where
  data : ∀ y, (m' y).toCPeerInfoNode = (m y).toCPeerInfoNode
  others : ∀ y ∉ refs, m' y = m y

theorem relinked_edit {refs : List PeerRef} {f : PeerNode → PeerNode}
    (keeps : ∀ node, (f node).toCPeerInfoNode = node.toCPeerInfoNode) (member : r ∈ refs) :
    Relinked m (m.edit r f) refs where
  data _ := edit_field PeerNode.toCPeerInfoNode (keeps _)
  others y outside := by
    have other : y ≠ r := fun same => outside (same ▸ member)
    exact if_neg other

theorem relinked_setNext {refs : List PeerRef} (member : r ∈ refs) :
    Relinked m (m.setNext r pos) refs :=
  relinked_edit (fun _ => rfl) member

theorem relinked_setPrev {refs : List PeerRef} (member : r ∈ refs) :
    Relinked m (m.setPrev r pos) refs :=
  relinked_edit (fun _ => rfl) member

theorem Relinked.trans {m'' : PeerMemory} {refs : List PeerRef} (first : Relinked m m' refs)
    (second : Relinked m' m'' refs) : Relinked m m'' refs where
  data y := (second.data y).trans (first.data y)
  others y outside := (second.others y outside).trans (first.others y outside)

theorem relinked_reset {refs : List PeerRef} (member : r ∈ refs) :
    Relinked m (m.reset r) refs :=
  (relinked_setPrev member).trans (relinked_setNext member)

end PeerMemory

/-! ## Lists -/

open PeerMemory

/-- The list has these nodes. -/
structure ListOf (l : CBoList) (m : PeerMemory) (refs : List PeerRef) : Prop where
  threaded : Threaded m.next m.prev none refs none
  head : l.pcBegin = refs.head?
  last : l.pcEnd = refs.getLast?

namespace ListOf

variable {l l' : CBoList} {m m' : PeerMemory} {refs before after : List PeerRef} {r : PeerRef}

theorem congr (list : ListOf l m refs) (same : ∀ y ∈ refs, m' y = m y) : ListOf l m' refs where
  threaded := list.threaded.congr
    (fun y member => congrArg PeerNode.pcNext (same y member))
    (fun y member => congrArg PeerNode.pcPrev (same y member))
  head := list.head
  last := list.last

theorem isEmpty_iff (list : ListOf l m refs) : l.pcBegin = none ∧ l.pcEnd = none ↔ refs = [] := by
  rw [list.head, list.last, List.head?_eq_none_iff, List.getLast?_eq_none_iff, and_self]

theorem add (list : ListOf l m refs) (nodup : (refs ++ [r]).Nodup) :
    ∃ l' m', l.add m r = some (l', m') ∧ ListOf l' m' (refs ++ [r]) ∧
      Relinked m m' (refs ++ [r]) := by
  have self : r ∈ refs ++ [r] := List.mem_append_right refs (List.mem_singleton_self r)
  have fresh (y : PeerRef) (member : y ∈ refs) : y ≠ r := by
    rintro rfl
    exact (List.nodup_append.mp nodup).2.2 y member y (List.mem_singleton_self y) rfl
  rw [CBoList.add]
  by_cases empty : refs = []
  · subst empty
    rw [if_pos (list.isEmpty_iff.mpr rfl)]
    refine ⟨_, _, rfl, ⟨⟨?_, ?_, trivial⟩, rfl, rfl⟩, relinked_reset self⟩ <;> simp
  · rw [if_neg fun both => empty (list.isEmpty_iff.mp both)]
    obtain ⟨z, final⟩ := Option.isSome_iff_exists.mp (List.getLast?_isSome.mpr empty)
    have listed : z ∈ refs := List.mem_of_getLast? final
    have zr := fresh z listed
    rw [list.last, final]
    refine ⟨_, _, rfl, ⟨?_, ?_, ?_⟩, ?_⟩
    · refine Threaded.link ((List.append_nil refs).symm ▸ list.threaded) nodup ?_ ?_ ?_ ?_ ?_ ?_
      · simp [final]
      · simp [zr.symm]
      · simp [final]
      · simp
      · intro y member inner
        rw [List.append_nil] at member
        have yz : y ≠ z := fun same => inner (same ▸ final)
        simp [yz, fresh y member]
      · intro y member _
        rw [List.append_nil] at member
        simp [fresh y member]
    · change l.pcBegin = _
      rw [list.head, List.head?_append_of_ne_nil _ empty]
    · simp
    · exact ((relinked_reset self).trans (relinked_setNext (List.mem_append_left _ listed))).trans
        (relinked_setPrev self)

theorem addAtFirst (list : ListOf l m refs) (nodup : (r :: refs).Nodup) :
    ∃ l' m', l.addAtFirst m r = some (l', m') ∧ ListOf l' m' (r :: refs) ∧
      Relinked m m' (r :: refs) := by
  have self : r ∈ r :: refs := List.mem_cons_self
  have fresh (y : PeerRef) (member : y ∈ refs) : y ≠ r := by
    rintro rfl
    exact (List.nodup_cons.mp nodup).1 member
  rw [CBoList.addAtFirst]
  cases refs with
  | nil =>
      rw [if_pos (list.isEmpty_iff.mpr rfl)]
      refine ⟨_, _, rfl, ⟨⟨?_, ?_, trivial⟩, rfl, rfl⟩, relinked_reset self⟩ <;> simp
  | cons z refs =>
      have zr := fresh z List.mem_cons_self
      rw [if_neg fun both => List.cons_ne_nil z refs (list.isEmpty_iff.mp both)]
      dsimp only
      rw [list.head]
      refine ⟨_, _, rfl, ⟨?_, rfl, ?_⟩, ?_⟩
      · have threaded : Threaded m.next m.prev none ([] ++ z :: refs) none := list.threaded
        refine threaded.link nodup ?_ ?_ ?_ ?_ ?_ ?_
        · simp [zr.symm]
        · simp
        · simp
        · simp
        · intro y member _
          simp [fresh y member]
        · intro y member inner
          have yz : y ≠ z := fun same => inner (same ▸ rfl)
          simp [yz, fresh y member]
      · change l.pcEnd = _
        rw [list.last, List.getLast?_cons_cons]
      · exact ((relinked_reset self).trans (relinked_setNext self)).trans
          (relinked_setPrev (List.mem_cons_of_mem r List.mem_cons_self))

/-- What `DelWithLiveInPtr` makes of memory and of the ends. -/
theorem delWithLiveInPtr_eq (list : ListOf l m (before ++ r :: after))
    (nodup : (before ++ r :: after).Nodup) :
    (∀ y, (l.delWithLiveInPtr m r).2.next y =
      if before.getLast? = some y then after.head? else m.next y) ∧
    (∀ y, (l.delWithLiveInPtr m r).2.prev y =
      if after.head? = some y then before.getLast? else m.prev y) ∧
    Relinked m (l.delWithLiveInPtr m r).2 (before ++ after) ∧
    (l.delWithLiveInPtr m r).1.pcBegin = (before ++ after).head? ∧
    (l.delWithLiveInPtr m r).1.pcEnd = (before ++ after).getLast? := by
  obtain ⟨prev, next⟩ := list.threaded.at_cell
  have head := list.head
  have last := list.last
  rw [CBoList.delWithLiveInPtr, prev, next]
  cases after with
  | nil =>
      cases final : before.getLast? with
      | none =>
          obtain rfl := List.getLast?_eq_none_iff.mp final
          exact ⟨fun _ => rfl, fun _ => rfl, ⟨fun _ => rfl, fun _ _ => rfl⟩, rfl, rfl⟩
      | some z =>
          have listed : z ∈ before := List.mem_of_getLast? final
          have some : before ≠ [] := List.ne_nil_of_mem listed
          refine ⟨fun y => ?_, fun y => ?_, relinked_setNext (List.mem_append_left _ listed), ?_, ?_⟩
          · simp [eq_comm]
          · simp
          · simpa [List.head?_append_of_ne_nil _ some] using head
          · simp [final]
  | cons n after =>
      cases final : before.getLast? with
      | none =>
          obtain rfl := List.getLast?_eq_none_iff.mp final
          refine ⟨fun y => ?_, fun y => ?_, relinked_setPrev List.mem_cons_self, rfl, ?_⟩
          · simp
          · simp [eq_comm]
          · simpa using last
      | some z =>
          have listed : z ∈ before := List.mem_of_getLast? final
          have some : before ≠ [] := List.ne_nil_of_mem listed
          refine ⟨fun y => ?_, fun y => ?_, ?_, ?_, ?_⟩
          · simp [eq_comm]
          · simp [eq_comm]
          · exact (relinked_setPrev (List.mem_append_right _ List.mem_cons_self)).trans
              (relinked_setNext (List.mem_append_left _ listed))
          · simpa [List.head?_append_of_ne_nil _ some] using head
          · simpa using last

theorem delWithLiveInPtr (list : ListOf l m (before ++ r :: after))
    (nodup : (before ++ r :: after).Nodup) :
    ListOf (l.delWithLiveInPtr m r).1 (l.delWithLiveInPtr m r).2 (before ++ after) ∧
      Relinked m (l.delWithLiveInPtr m r).2 (before ++ after) := by
  obtain ⟨next, prev, relinked, head, last⟩ := list.delWithLiveInPtr_eq nodup
  refine ⟨⟨list.threaded.unlink nodup ?_ ?_ ?_ ?_, head, last⟩, relinked⟩
  · intro y final
    rw [next]
    exact if_pos final
  · intro y first
    rw [prev]
    exact if_pos first
  · intro y _ inner
    rw [next]
    exact if_neg inner
  · intro y _ inner
    rw [prev]
    exact if_neg inner

theorem delBeginWithLive (list : ListOf l m (r :: refs)) (nodup : (r :: refs).Nodup) :
    ∃ l' m', l.delBeginWithLive m = some (r, l', m') ∧ ListOf l' m' refs ∧
      Relinked m m' refs := by
  have first : ListOf l m ([] ++ r :: refs) := list
  obtain ⟨after, relinked⟩ := first.delWithLiveInPtr nodup
  refine ⟨_, _, ?_, after, relinked⟩
  rw [CBoList.delBeginWithLive, list.head, List.head?_cons, Option.map_some,
    CBoList.delWithLiveInPtr, list.threaded.1]
  cases m.next r <;> rfl

theorem chained (list : ListOf l m refs) : Chained m.next l.pcBegin refs := by
  rw [list.head]
  exact list.threaded.chained

theorem chained_reverse (list : ListOf l m refs) : Chained m.prev l.pcEnd refs.reverse := by
  rw [list.last, ← List.head?_reverse]
  exact list.threaded.reverse.chained

theorem findLoop_chained {searched : CPeerInfoNode} {n : Nat} {start : Option PeerRef}
    (chained : Chained m.next start refs) (enough : refs.length ≤ n) :
    CBoList.findLoop m searched n start =
      some (refs.find? fun r => (m r).same searched) := by
  induction refs generalizing n start with
  | nil =>
      obtain rfl : start = none := chained
      cases n <;> rfl
  | cons r refs ih =>
      obtain ⟨rfl, rest⟩ := chained
      cases n with
      | zero => exact absurd enough (Nat.not_succ_le_zero _)
      | succ n =>
          rw [CBoList.findLoop, List.find?_cons, ih rest (Nat.le_of_succ_le_succ enough)]
          cases (m r).same searched <;> rfl

theorem length_le (nodup : refs.Nodup) : refs.length ≤ 254 := by
  have few := List.Nodup.length_le_card nodup
  rwa [Fintype.card_fin] at few

theorem find (list : ListOf l m refs) (nodup : refs.Nodup) (searched : CPeerInfoNode) :
    l.find m searched = some (refs.find? fun r => (m r).same searched) :=
  findLoop_chained list.chained (length_le nodup)

theorem visits (list : ListOf l m refs) (nodup : refs.Nodup) : l.visits m = some refs :=
  list.chained.walk (length_le nodup)

end ListOf

/-! ## The table -/

namespace CPeerInfoList

variable {s s' : CPeerInfoList} {listed free hand before after : List PeerRef} {r : PeerRef}

theorem ref_inj {r q : PeerRef} (same : UInt8.ofNat (r.val + 1) = UInt8.ofNat (q.val + 1)) :
    r = q :=
  Fin.ext (Nat.succ.inj (byte_inj (by omega) (by omega) same))

/-- The nodes are in the list, in the pool or in hand. -/
structure Laid (s : CPeerInfoList) (listed free hand : List PeerRef) : Prop where
  list : ListOf s.list s.nodes listed
  pool : ListOf s.cPeerInfoPool s.nodes free
  count : s.ulCount = free.length
  all : (hand ++ (listed ++ free)).Perm (List.finRange 254)
  index : ∀ r, (s.nodes r).byIndex = UInt8.ofNat (r + 1)

/-- What the peers are stays, and so does the array. -/
structure SamePeers (s s' : CPeerInfoList) : Prop where
  data : ∀ y, (s'.nodes y).toCPeerInfoNode = (s.nodes y).toCPeerInfoNode
  apcPeers : s'.apcPeers = s.apcPeers

namespace Laid

theorem nodup (laid : Laid s listed free hand) : (hand ++ (listed ++ free)).Nodup :=
  laid.all.nodup_iff.mpr (List.nodup_finRange 254)

theorem nodup_list (laid : Laid s listed free hand) : listed.Nodup :=
  (List.nodup_append.mp (List.nodup_append.mp laid.nodup).2.1).1

theorem nodup_pool (laid : Laid s listed free hand) : free.Nodup :=
  (List.nodup_append.mp (List.nodup_append.mp laid.nodup).2.1).2.1

theorem apart (laid : Laid s listed free hand) (inList : r ∈ listed) : r ∉ free :=
  fun inPool => (List.nodup_append.mp (List.nodup_append.mp laid.nodup).2.1).2.2 r inList r inPool rfl

theorem inHand (laid : Laid s listed free [r]) : r ∉ listed ∧ r ∉ free := by
  have fresh : r ∉ listed ++ free := (List.nodup_cons.mp laid.nodup).1
  rwa [List.mem_append, not_or] at fresh

theorem index_inj (laid : Laid s listed free hand) {q : PeerRef}
    (same : (s.nodes r).byIndex = (s.nodes q).byIndex) : r = q := by
  rw [laid.index, laid.index] at same
  exact ref_inj same

theorem allocate_nil (laid : Laid s listed [] hand) : s.allocate = some none := by
  rw [CPeerInfoList.allocate, laid.count, List.length_nil, if_pos rfl]

theorem allocate_cons (laid : Laid s listed (r :: free) []) :
    ∃ s', s.allocate = some (some (r, s')) ∧ Laid s' listed free [r] ∧ SamePeers s s' := by
  obtain ⟨pool, nodes, run, holds, relinked⟩ := laid.pool.delBeginWithLive laid.nodup_pool
  have some : s.ulCount ≠ 0 := by
    rw [laid.count]
    exact Nat.succ_ne_zero _
  rw [CPeerInfoList.allocate, if_neg some, run]
  refine ⟨_, rfl, ⟨?_, holds, ?_, ?_, fun y => ?_⟩, relinked.data, rfl⟩
  · refine laid.list.congr fun y member => relinked.others y fun inPool => ?_
    exact laid.apart member (List.mem_cons_of_mem r inPool)
  · change s.ulCount - 1 = free.length
    rw [laid.count]
    rfl
  · have moved : (r :: (listed ++ free)).Perm (listed ++ r :: free) := List.perm_middle.symm
    exact moved.trans laid.all
  · rw [← laid.index]
    exact congrArg CPeerInfoNode.byIndex (relinked.data y)

theorem deallocate (laid : Laid s listed free (r :: hand)) :
    ∃ s', s.deallocate r = some s' ∧ Laid s' listed (r :: free) hand ∧ SamePeers s s' := by
  have fresh : r ∉ hand ++ (listed ++ free) := (List.nodup_cons.mp laid.nodup).1
  rw [List.mem_append, List.mem_append, not_or, not_or] at fresh
  have nodup := List.nodup_cons.mpr ⟨fresh.2.2, laid.nodup_pool⟩
  obtain ⟨pool, nodes, run, holds, relinked⟩ := laid.pool.addAtFirst nodup
  rw [CPeerInfoList.deallocate, run]
  refine ⟨_, rfl, ⟨?_, holds, ?_, ?_, fun y => ?_⟩, relinked.data, rfl⟩
  · refine laid.list.congr fun y member => relinked.others y fun there => ?_
    rcases List.mem_cons.mp there with rfl | inPool
    · exact fresh.2.1 member
    · exact laid.apart member inPool
  · change s.ulCount + 1 = _
    rw [laid.count, List.length_cons]
  · refine List.Perm.trans ?_ laid.all
    rw [← List.append_assoc, List.cons_append, ← List.append_assoc]
    exact List.perm_middle
  · rw [← laid.index]
    exact congrArg CPeerInfoNode.byIndex (relinked.data y)

theorem deallocate_all (laid : Laid s listed free hand) :
    ∃ s', hand.foldlM CPeerInfoList.deallocate s = some s' ∧
      Laid s' listed (hand.reverse ++ free) [] ∧ SamePeers s s' := by
  induction hand generalizing s free with
  | nil => exact ⟨s, rfl, laid, fun _ => rfl, rfl⟩
  | cons r hand ih =>
      obtain ⟨s₁, first, laid, same⟩ := laid.deallocate
      obtain ⟨s₂, rest, laid, same'⟩ := ih laid
      refine ⟨s₂, ?_, ?_, fun y => (same'.data y).trans (same.data y),
        same'.apcPeers.trans same.apcPeers⟩
      · rw [List.foldlM_cons, first]
        exact rest
      · rwa [List.reverse_cons, List.append_assoc]

theorem add (laid : Laid s listed free [r]) (absent : s.apcPeers (s.nodes r).byIndex = none) :
    ∃ s', s.add r = some s' ∧ Laid s' (listed ++ [r]) free [] ∧
      (∀ y, (s'.nodes y).toCPeerInfoNode = (s.nodes y).toCPeerInfoNode) ∧
      s'.apcPeers = Function.update s.apcPeers (s.nodes r).byIndex (some r) := by
  obtain ⟨notListed, notFree⟩ := laid.inHand
  have nodup : (listed ++ [r]).Nodup := by
    rw [← List.concat_eq_append]
    exact List.Nodup.concat notListed laid.nodup_list
  obtain ⟨list, nodes, run, holds, relinked⟩ := laid.list.add nodup
  rw [CPeerInfoList.add, if_neg (not_not.mpr absent), run]
  refine ⟨_, rfl, ⟨holds, ?_, laid.count, ?_, fun y => ?_⟩, relinked.data, rfl⟩
  · refine laid.pool.congr fun y member => relinked.others y fun there => ?_
    rcases List.mem_append.mp there with inList | only
    · exact laid.apart inList member
    · exact notFree (List.mem_singleton.mp only ▸ member)
  · rw [List.nil_append, List.append_assoc]
    exact List.perm_middle.trans laid.all
  · rw [← laid.index]
    exact congrArg CPeerInfoNode.byIndex (relinked.data y)

theorem take (laid : Laid s (before ++ r :: after) free []) {list : CBoList}
    {nodes : PeerMemory} {apcPeers : UInt8 → Option PeerRef} (holds : ListOf list nodes (before ++ after))
    (relinked : Relinked s.nodes nodes (before ++ after)) :
    Laid { s with list, nodes, apcPeers } (before ++ after) free [r] where
  list := holds
  pool := by
    refine laid.pool.congr fun y member => relinked.others y fun there => ?_
    refine laid.apart ?_ member
    rcases List.mem_append.mp there with first | last
    · exact List.mem_append_left _ first
    · exact List.mem_append_right _ (List.mem_cons_of_mem r last)
  count := laid.count
  all := by
    refine List.Perm.trans ?_ laid.all
    rw [List.append_assoc, List.append_assoc]
    change (r :: (before ++ (after ++ free))).Perm (before ++ r :: (after ++ free))
    exact List.perm_middle.symm
  index y := by
    rw [← laid.index]
    exact congrArg CPeerInfoNode.byIndex (relinked.data y)

/-- Data of a node may change, but not its index. -/
theorem change (laid : Laid s listed free hand) {f : CPeerInfoNode → CPeerInfoNode}
    (index : ∀ node, (f node).byIndex = node.byIndex) :
    Laid { s with nodes := s.nodes.change r f } listed free hand where
  list := {
    threaded := laid.list.threaded.congr (fun _ _ => next_change) fun _ _ => prev_change
    head := laid.list.head
    last := laid.list.last }
  pool := {
    threaded := laid.pool.threaded.congr (fun _ _ => next_change) fun _ _ => prev_change
    head := laid.pool.head
    last := laid.pool.last }
  count := laid.count
  all := laid.all
  index y := by
    rw [← laid.index, change_apply]
    split
    · rw [index, ‹y = r›]
    · rfl

theorem change_all {refs : List PeerRef} (laid : Laid s listed free hand)
    {f : CPeerInfoNode → CPeerInfoNode} (index : ∀ node, (f node).byIndex = node.byIndex) :
    Laid { s with nodes := refs.foldl (fun m r => m.change r f) s.nodes } listed free hand := by
  induction refs generalizing s with
  | nil => exact laid
  | cons r refs ih => exact ih (laid.change index)

end Laid

theorem change_all_apply {m : PeerMemory} {refs : List PeerRef}
    {f : CPeerInfoNode → CPeerInfoNode} (nodup : refs.Nodup) (y : PeerRef) :
    (refs.foldl (fun m r => m.change r f) m y).toCPeerInfoNode =
      if y ∈ refs then f (m y).toCPeerInfoNode else (m y).toCPeerInfoNode := by
  induction refs generalizing m with
  | nil => rfl
  | cons r refs ih =>
      obtain ⟨fresh, nodup⟩ := List.nodup_cons.mp nodup
      rw [List.foldl_cons, ih nodup, change_apply]
      by_cases same : y = r
      · subst same
        simp [fresh]
      · simp [same]

/-- The array leads to the listed nodes, and their addresses tell them apart. -/
structure Kept (s : CPeerInfoList) (listed free : List PeerRef) : Prop extends
    Laid s listed free [] where
  peers : ∀ i, s.apcPeers i = listed.find? fun r => (s.nodes r).byIndex = i
  distinct : listed.Pairwise fun r q =>
    CPeerInfoList.Apart (s.nodes r).toCPeerInfoNode (s.nodes q).toCPeerInfoNode

/-- The table as lists. -/
def view (s : CPeerInfoList) (listed free : List PeerRef) : PeerList where
  peers := listed.map fun r => (s.nodes r).toCPeerInfoNode
  pool := free.map fun r => (s.nodes r).toCPeerInfoNode

theorem indices_finRange : (List.finRange 254).map (fun r => UInt8.ofNat (r.val + 1)) =
    (List.range' 1 (puPeersMaxCount - 1)).map UInt8.ofNat := by
  have range : (List.finRange 254).map Fin.val = List.range 254 := List.map_coe_finRange_eq_range
  rw [puPeersMaxCount, List.range'_eq_map_range, ← range, List.map_map, List.map_map]
  refine List.map_congr_left fun r _ => ?_
  rw [Function.comp_apply, Function.comp_apply, Nat.add_comm]

theorem Laid.indices (laid : Laid s listed free []) :
    ((listed ++ free).map fun r => (s.nodes r).byIndex).Perm
      ((List.range' 1 (puPeersMaxCount - 1)).map UInt8.ofNat) := by
  rw [← indices_finRange]
  simp only [laid.index]
  exact laid.all.map _

namespace Kept

theorem integrity (kept : Kept s listed free) : s.Integrity := by
  refine ⟨listed, free, kept.list.chained, kept.list.chained_reverse, kept.pool.chained,
    kept.toLaid.indices, fun i => ?_, kept.distinct⟩
  rw [kept.peers, ← Option.isSome_iff_ne_none, List.find?_isSome]
  simp

/-- The nodes of a table in order are those of the lists that it stands for. -/
theorem find_view (kept : Kept s listed free) (i : UInt8) :
    (s.apcPeers i).map (fun r => (s.nodes r).toCPeerInfoNode) = (view s listed free).find i := by
  rw [kept.peers, view, PeerList.find, List.find?_map]
  rfl

theorem of_same (kept : Kept s listed free) (laid : Laid s' listed hand [])
    (data : ∀ y ∈ listed, (s'.nodes y).remoteL = (s.nodes y).remoteL ∧
      (s'.nodes y).remoteE = (s.nodes y).remoteE) (apcPeers : s'.apcPeers = s.apcPeers) :
    Kept s' listed hand where
  toLaid := laid
  peers i := by
    rw [apcPeers, kept.peers]
    simp only [laid.index, kept.index]
  distinct := by
    refine kept.distinct.imp_of_mem fun {r q} left right apart same => apart ?_
    rw [(data r left).1, (data r left).2, (data q right).1, (data q right).2] at same
    exact same

end Kept

theorem construct_kept (rand : UInt8 → UInt32) :
    ∃ s free, CPeerInfoList.construct rand = some s ∧ Kept s [] free := by
  let start : CPeerInfoList :=
    { nodes := fun r => { byIndex := UInt8.ofNat (r + 1), pktSeq := rand (UInt8.ofNat (r + 1)) } }
  have laid : Laid start [] [] (List.finRange 254) := by
    refine ⟨⟨trivial, rfl, rfl⟩, ⟨trivial, rfl, rfl⟩, rfl, ?_, fun _ => rfl⟩
    rw [List.append_nil, List.append_nil]
  obtain ⟨s, run, laid, same⟩ := laid.deallocate_all
  refine ⟨s, _, run, laid, fun i => ?_, List.Pairwise.nil⟩
  rw [same.apcPeers]
  rfl

/-! ## Adding -/

/-- A node in hand with other addresses than the listed ones becomes a peer. -/
theorem Kept.added (kept : Kept s listed (r :: free)) (laid : Laid s' listed free [r])
    (data : ∀ y, y ≠ r → (s'.nodes y).toCPeerInfoNode = (s.nodes y).toCPeerInfoNode)
    (apcPeers : s'.apcPeers = s.apcPeers)
    (other : ∀ q ∈ listed,
      CPeerInfoList.Apart (s'.nodes q).toCPeerInfoNode (s'.nodes r).toCPeerInfoNode) :
    ∃ s₂, s'.add r = some s₂ ∧ Kept s₂ (listed ++ [r]) free ∧
      ∀ y, (s₂.nodes y).toCPeerInfoNode = (s'.nodes y).toCPeerInfoNode := by
  have notListed := laid.inHand.1
  have ne (y : PeerRef) (member : y ∈ listed) : y ≠ r := fun same => notListed (same ▸ member)
  have absent : s'.apcPeers (s'.nodes r).byIndex = none := by
    rw [apcPeers, kept.peers, List.find?_eq_none]
    intro y member same
    have equal : (s.nodes y).byIndex = (s'.nodes r).byIndex := by simpa using same
    rw [laid.index, ← kept.index] at equal
    exact ne y member (kept.toLaid.index_inj equal)
  obtain ⟨s₂, run, laid₂, data₂, peers⟩ := laid.add absent
  refine ⟨s₂, run, ⟨laid₂, fun i => ?_, ?_⟩, data₂⟩
  · rw [peers, List.find?_append, Function.update_apply, apcPeers, kept.peers]
    simp only [laid₂.index, laid.index, kept.index]
    split_ifs with here
    · have none : (listed.find? fun y : PeerRef => decide (UInt8.ofNat (y.val + 1) = i)) = none := by
        rw [List.find?_eq_none]
        intro y member same
        have equal : UInt8.ofNat (y.val + 1) = i := by simpa using same
        rw [here, ← kept.index, ← kept.index] at equal
        exact ne y member (kept.toLaid.index_inj equal)
      rw [none, here]
      simp
    · have none : ([r].find? fun y : PeerRef => decide (UInt8.ofNat (y.val + 1) = i)) = none := by
        refine List.find?_cons_of_neg ?_
        rw [decide_eq_true_eq]
        exact Ne.symm here
      rw [none, Option.or_none]
  · rw [List.pairwise_append]
    refine ⟨?_, List.pairwise_singleton _ r, fun q member only => ?_⟩
    · refine kept.distinct.imp_of_mem fun {p q} left right apart => ?_
      rwa [data₂, data₂, data p (ne p left), data q (ne q right)]
    · intro inHand
      obtain rfl := List.mem_singleton.mp inHand
      rw [data₂, data₂]
      exact other q member

theorem Kept.prepared (kept : Kept s listed (r :: free)) {f : CPeerInfoNode → CPeerInfoNode}
    (index : ∀ node, (f node).byIndex = node.byIndex) :
    ∃ s', s.allocate = some (some (r, s')) ∧ s'.apcPeers = s.apcPeers ∧
      Laid { s' with nodes := s'.nodes.change r f } listed free [r] ∧
      ((s'.nodes.change r f) r).toCPeerInfoNode = f (s.nodes r).toCPeerInfoNode ∧
      ∀ y, y ≠ r → ((s'.nodes.change r f) y).toCPeerInfoNode = (s.nodes y).toCPeerInfoNode := by
  obtain ⟨s', allocated, laid, same⟩ := kept.toLaid.allocate_cons
  refine ⟨s', allocated, same.apcPeers, laid.change index, ?_, fun y other => ?_⟩
  · rw [change_apply, if_pos rfl, same.data]
  · rw [change_apply, if_neg other, same.data]

theorem tryCheckRelayAblePeer_kept (kept : Kept s listed free) (localKnown : Bool) :
    ∃ s', s.tryCheckRelayAblePeer localKnown = some s' ∧ Kept s' listed free ∧
      view s' listed free = ⟨if localKnown = true then (view s listed free).peers.map (·.incSeq)
        else (view s listed free).peers, (view s listed free).pool⟩ := by
  rw [CPeerInfoList.tryCheckRelayAblePeer]
  cases localKnown with
  | false => exact ⟨s, rfl, kept, rfl⟩
  | true =>
      have nodup := kept.toLaid.nodup_list
      have data (y : PeerRef) := change_all_apply (m := s.nodes) (f := (·.incSeq)) nodup y
      rw [kept.list.visits nodup]
      refine ⟨_, rfl, kept.of_same (kept.toLaid.change_all fun _ => rfl) (fun y _ => ?_) rfl, ?_⟩
      · rw [data]
        split <;> exact ⟨rfl, rfl⟩
      · rw [if_pos rfl]
        refine congrArg₂ PeerList.mk ?_ ?_
        · rw [view, List.map_map]
          refine List.map_congr_left fun y member => (data y).trans (if_pos member)
        · refine List.map_congr_left fun y member => (data y).trans (if_neg fun listed => ?_)
          exact kept.toLaid.apart listed member

/-- `AddPeer` does with the nodes what it does with the lists. -/
theorem addPeer_kept (kept : Kept s listed free) (args : AddPeerArgs) :
    ∃ ok s' listed' free', s.addPeer args = some (ok, s') ∧ Kept s' listed' free' ∧
      (view s listed free).addPeer args = (ok, view s' listed' free') := by
  cases free with
  | nil =>
      refine ⟨false, s, listed, [], ?_, kept, rfl⟩
      rw [CPeerInfoList.addPeer, kept.toLaid.allocate_nil]
      rfl
  | cons r free =>
      let f : CPeerInfoNode → CPeerInfoNode :=
        (·.added args.remoteL args.remoteE args.remoteE2 args.stRelayPeer args.tTime)
      obtain ⟨s', allocated, apcPeers, laid, self, others⟩ := kept.prepared (f := f) fun _ => rfl
      obtain ⟨notListed, notFree⟩ := laid.inHand
      have ne (y : PeerRef) (member : y ∈ listed) : y ≠ r := fun same => notListed (same ▸ member)
      have finds := laid.list.find laid.nodup_list ((s'.nodes.change r f) r).toCPeerInfoNode
      have peers : listed.map (fun y => ((s'.nodes.change r f) y).toCPeerInfoNode) =
          (view s listed (r :: free)).peers :=
        List.map_congr_left fun y member => others y (ne y member)
      have pool : free.map (fun y => ((s'.nodes.change r f) y).toCPeerInfoNode) =
          free.map fun y => (s.nodes y).toCPeerInfoNode :=
        List.map_congr_left fun y member => others y fun same => notFree (same ▸ member)
      have anyone : (view s listed (r :: free)).peers.any
          (·.same (f (s.nodes r).toCPeerInfoNode)) =
          (listed.find? fun q => ((s'.nodes.change r f) q).same
            ((s'.nodes.change r f) r).toCPeerInfoNode).isSome := by
        rw [← peers, List.any_map, List.isSome_find?, self]
        rfl
      have abstract : (view s listed (r :: free)).addPeer args =
          if (view s listed (r :: free)).peers.any (·.same (f (s.nodes r).toCPeerInfoNode)) then
            (false, ⟨if args.localKnown = true then (view s listed (r :: free)).peers.map (·.incSeq)
              else (view s listed (r :: free)).peers, f (s.nodes r).toCPeerInfoNode ::
                free.map fun y => (s.nodes y).toCPeerInfoNode⟩)
          else (true, ⟨(view s listed (r :: free)).peers ++ [f (s.nodes r).toCPeerInfoNode],
            free.map fun y => (s.nodes y).toCPeerInfoNode⟩) := rfl
      rw [CPeerInfoList.addPeer, allocated, Option.bind_some]
      change ∃ ok s₃ listed' free', (CBoList.find _ _ ((s'.nodes.change r f) r).toCPeerInfoNode).bind
        _ = _ ∧ _
      rw [finds, Option.bind_some]
      cases found : listed.find? fun q => ((s'.nodes.change r f) q).same
          ((s'.nodes.change r f) r).toCPeerInfoNode with
      | none =>
          have other : ∀ q ∈ listed, CPeerInfoList.Apart ((s'.nodes.change r f) q).toCPeerInfoNode
              ((s'.nodes.change r f) r).toCPeerInfoNode := by
            intro q member same
            refine List.find?_eq_none.mp found q member ?_
            rw [self] at same ⊢
            exact decide_eq_true ⟨same.1.symm, same.2.symm⟩
          obtain ⟨s₂, run, kept₂, data⟩ := kept.added laid others apcPeers other
          dsimp only
          rw [run]
          refine ⟨_, _, _, _, rfl, kept₂, ?_⟩
          rw [abstract, anyone, found, ← peers, ← pool, ← self, view]
          simp [data]
      | some q =>
          obtain ⟨s₂, run, laid₂, same⟩ := laid.deallocate
          have kept₂ : Kept s₂ listed (r :: free) := by
            refine kept.of_same laid₂ (fun y member => ?_) (same.apcPeers.trans apcPeers)
            rw [same.data, others y (ne y member)]
            exact ⟨rfl, rfl⟩
          obtain ⟨s₃, counted, kept₃, viewed⟩ := tryCheckRelayAblePeer_kept kept₂ args.localKnown
          dsimp only
          rw [run, Option.bind_some, counted]
          refine ⟨_, _, _, _, rfl, kept₃, ?_⟩
          rw [abstract, anyone, found, viewed, ← peers, ← pool, ← self, view]
          simp [same.data]

/-! ## Deleting -/

/-- A listed node goes to the pool, and its entry with it. -/
theorem Kept.removed (kept : Kept s (before ++ r :: after) free)
    (laid : Laid s' (before ++ after) (r :: free) [])
    (data : ∀ y, (s'.nodes y).toCPeerInfoNode = (s.nodes y).toCPeerInfoNode)
    (apcPeers : s'.apcPeers = Function.update s.apcPeers (s.nodes r).byIndex none) :
    Kept s' (before ++ after) (r :: free) where
  toLaid := laid
  peers i := by
    rw [apcPeers, Function.update_apply, kept.peers, List.find?_append, List.find?_append]
    simp only [data]
    split_ifs with here
    · have none : ((before ++ after).find? fun y => decide ((s.nodes y).byIndex = i)) = none := by
        rw [List.find?_eq_none]
        intro y member same
        have equal : (s.nodes y).byIndex = i := by simpa using same
        obtain rfl := kept.toLaid.index_inj (equal.trans here)
        exact (List.nodup_cons.mp (List.nodup_middle.mp kept.toLaid.nodup_list)).1 member
      rw [← List.find?_append, none]
    · have skipped : ((r :: after).find? fun y => decide ((s.nodes y).byIndex = i)) =
          after.find? fun y => decide ((s.nodes y).byIndex = i) := by
        refine List.find?_cons_of_neg ?_
        rw [decide_eq_true_eq]
        exact Ne.symm here
      rw [skipped]
  distinct := by
    simp only [data]
    exact kept.distinct.sublist ((List.sublist_cons_self r after).append_left before)

theorem delete_kept (kept : Kept s listed free) (byIndex : UInt8) :
    ∃ ok s' listed' free', s.delete byIndex = some (ok, s') ∧ Kept s' listed' free' := by
  rw [CPeerInfoList.delete]
  cases found : s.apcPeers byIndex with
  | none => exact ⟨false, s, listed, free, rfl, kept⟩
  | some r =>
      have search := found
      rw [kept.peers] at search
      have index : (s.nodes r).byIndex = byIndex := by simpa using List.find?_some search
      obtain ⟨before, after, rfl⟩ := List.append_of_mem (List.mem_of_find?_eq_some search)
      obtain ⟨holds, relinked⟩ := kept.list.delWithLiveInPtr kept.toLaid.nodup_list
      have taken : Laid { s with list := _, nodes := _ } (before ++ after) free [r] :=
        kept.toLaid.take holds relinked
      obtain ⟨s₂, run, laid, same⟩ := taken.deallocate
      dsimp only
      rw [run]
      refine ⟨true, { s₂ with apcPeers := Function.update s₂.apcPeers byIndex none },
        before ++ after, r :: free, rfl, ?_⟩
      refine kept.removed ⟨laid.list, laid.pool, laid.count, laid.all, laid.index⟩ (fun y => ?_) ?_
      · exact (same.data y).trans (relinked.data y)
      · have array : s₂.apcPeers = s.apcPeers := same.apcPeers
        rw [index, array]

theorem resetLoop_kept (kept : Kept s listed free) {fuel : Nat} (enough : listed.length ≤ fuel) :
    ∃ s' free', s.resetLoop fuel = some s' ∧ Kept s' [] free' := by
  induction listed generalizing s free fuel with
  | nil =>
      have empty : s.list.pcBegin = none := kept.list.head
      refine ⟨s, free, ?_, kept⟩
      cases fuel <;> exact if_pos empty
  | cons r listed ih =>
      cases fuel with
      | zero => exact absurd enough (Nat.not_succ_le_zero _)
      | succ fuel =>
          have some : s.list.pcBegin ≠ none := by
            rw [kept.list.head]
            exact Option.some_ne_none r
          obtain ⟨list, nodes, deleted, holds, relinked⟩ :=
            kept.list.delBeginWithLive kept.toLaid.nodup_list
          have first : Laid s ([] ++ r :: listed) free [] := kept.toLaid
          have taken : Laid { s with
              list, nodes, apcPeers := Function.update s.apcPeers (nodes r).byIndex none }
              listed free [r] := first.take holds relinked
          obtain ⟨s₂, run, laid, same⟩ := taken.deallocate
          have index : (nodes r).byIndex = (s.nodes r).byIndex :=
            congrArg CPeerInfoNode.byIndex (relinked.data r)
          have kept' : Kept s ([] ++ r :: listed) free := kept
          have removed : Kept s₂ listed (r :: free) := by
            refine kept'.removed laid (fun y => (same.data y).trans (relinked.data y)) ?_
            rw [← index]
            exact same.apcPeers
          obtain ⟨s₃, free', rest, last⟩ := ih removed (Nat.le_of_succ_le_succ enough)
          refine ⟨s₃, free', ?_, last⟩
          rw [CPeerInfoList.resetLoop, if_neg some, deleted, Option.bind_some]
          dsimp only
          rw [run, Option.bind_some, rest]

theorem reset_kept (kept : Kept s listed free) :
    ∃ s' free', s.reset = some s' ∧ Kept s' [] free' :=
  resetLoop_kept kept (ListOf.length_le kept.toLaid.nodup_list)

/-! ## Overwriting -/

def overwrite (s : CPeerInfoList) (r : PeerRef) (cell : PeerNode) : CPeerInfoList :=
  { s with nodes := s.nodes.edit r fun _ => cell }

/-- The node has the links and the index of the one that it is written over, and no other peer its
addresses. -/
def Fits (s : CPeerInfoList) (r : PeerRef) (cell : PeerNode) : Prop :=
  cell.pcPrev = (s.nodes r).pcPrev ∧ cell.pcNext = (s.nodes r).pcNext ∧
    cell.byIndex = (s.nodes r).byIndex ∧
    ∀ q ∈ (s.list.visits s.nodes).getD [], q ≠ r →
      CPeerInfoList.Apart cell.toCPeerInfoNode (s.nodes q).toCPeerInfoNode

instance (node other : CPeerInfoNode) : Decidable (CPeerInfoList.Apart node other) :=
  inferInstanceAs (Decidable (¬_))

instance (s : CPeerInfoList) (r : PeerRef) (cell : PeerNode) : Decidable (Fits s r cell) :=
  inferInstanceAs (Decidable (_ ∧ _ ∧ _ ∧ ∀ q ∈ _, q ≠ r → _))

theorem apart_symm {node other : CPeerInfoNode} (apart : CPeerInfoList.Apart node other) :
    CPeerInfoList.Apart other node := fun same => apart ⟨same.1.symm, same.2.symm⟩

section
variable {cell : PeerNode}

theorem overwrite_self : (overwrite s r cell).nodes r = cell := if_pos rfl

theorem overwrite_other {y : PeerRef} (other : y ≠ r) : (overwrite s r cell).nodes y = s.nodes y :=
  if_neg other

theorem overwrite_field {α : Type} (field : PeerNode → α) (same : field cell = field (s.nodes r))
    (y : PeerRef) : field ((overwrite s r cell).nodes y) = field (s.nodes y) :=
  PeerMemory.edit_field (m := s.nodes) (f := fun _ => cell) field same

theorem Kept.overwritten (kept : Kept s listed free) (fits : Fits s r cell) :
    Kept (overwrite s r cell) listed free := by
  obtain ⟨prev, next, index, apart⟩ := fits
  rw [kept.list.visits kept.toLaid.nodup_list, Option.getD_some] at apart
  have nexts (y : PeerRef) : (overwrite s r cell).nodes.next y = s.nodes.next y :=
    overwrite_field PeerNode.pcNext next y
  have prevs (y : PeerRef) : (overwrite s r cell).nodes.prev y = s.nodes.prev y :=
    overwrite_field PeerNode.pcPrev prev y
  have indices (y : PeerRef) : ((overwrite s r cell).nodes y).byIndex = (s.nodes y).byIndex :=
    overwrite_field (·.byIndex) index y
  refine ⟨⟨⟨?_, kept.list.head, kept.list.last⟩, ⟨?_, kept.pool.head, kept.pool.last⟩, kept.count,
    kept.all, fun y => (indices y).trans (kept.index y)⟩, fun i => ?_, ?_⟩
  · exact kept.list.threaded.congr (fun y _ => nexts y) fun y _ => prevs y
  · exact kept.pool.threaded.congr (fun y _ => nexts y) fun y _ => prevs y
  · simp only [indices]
    exact kept.peers i
  · refine (kept.distinct.and kept.toLaid.nodup_list).imp_of_mem fun {p q} left right both => ?_
    by_cases first : p = r
    · subst first
      rw [overwrite_self, overwrite_other both.2.symm]
      exact apart q right both.2.symm
    · rw [overwrite_other first]
      by_cases second : q = r
      · subst second
        rw [overwrite_self]
        exact apart_symm (apart p left first)
      · rw [overwrite_other second]
        exact both.1

theorem perm_of_indices {refs : List PeerRef} (indices :
    (refs.map fun r => (s.nodes r).byIndex).Perm
      ((List.range' 1 (puPeersMaxCount - 1)).map UInt8.ofNat)) :
    refs.Perm (List.finRange 254) := by
  have full : ((List.range' 1 (puPeersMaxCount - 1)).map UInt8.ofNat).Nodup := by
    rw [← indices_finRange]
    exact (List.nodup_finRange 254).map fun r q => ref_inj
  have nodup : refs.Nodup := (indices.nodup_iff.mpr full).of_map
  have length := indices.length_eq
  rw [List.length_map, List.length_map, List.length_range', puPeersMaxCount] at length
  refine (List.subperm_of_subset nodup fun r _ => List.mem_finRange r).perm_of_length_le ?_
  rw [List.length_finRange, length]

/-- The chain that a table in order has after a node was written over is the one before. -/
theorem same_chain {next : PeerRef → Option PeerRef} {start pos : Option PeerRef}
    (nodup : (before ++ r :: after).Nodup) (chained : Chained next start (before ++ r :: after))
    {refs : List PeerRef} (perm : refs.Perm (before ++ r :: after))
    (now : Chained (Function.update next r pos) start refs) :
    refs = before ++ r :: after ∧ pos = next r := by
  have apart := List.nodup_append.mp nodup
  have notBefore (y : PeerRef) (member : y ∈ before) : y ≠ r :=
    apart.2.2 y member r List.mem_cons_self
  obtain ⟨rest, rfl, later, later'⟩ := chained.branch now
    fun y member => Function.update_of_ne (notBefore y member) _ _
  have tails : rest.Perm after := ((List.perm_append_left_iff before).mp perm).cons_inv
  rw [Function.update_self] at later'
  have notRest (y : PeerRef) (member : y ∈ rest) : y ≠ r := by
    rintro rfl
    exact (List.nodup_cons.mp apart.2.1).1 (tails.subset member)
  have old : Chained next pos rest :=
    later'.congr fun y member => (Function.update_of_ne (notRest y member) _ _).symm
  obtain rfl := old.start_eq later tails
  exact ⟨by rw [old.unique later], rfl⟩

/-- The index that was written over is still one of them. -/
theorem Kept.index_of_indices (kept : Kept s (before ++ r :: after) free) (indices :
    ((before ++ r :: after ++ free).map fun y => ((overwrite s r cell).nodes y).byIndex).Perm
      ((List.range' 1 (puPeersMaxCount - 1)).map UInt8.ofNat)) :
    cell.byIndex = (s.nodes r).byIndex := by
  have both := indices.trans kept.toLaid.indices.symm
  have fresh : r ∉ before ++ (after ++ free) := by
    have nodup := kept.toLaid.nodup
    rw [List.nil_append, List.append_assoc, List.cons_append] at nodup
    exact (List.nodup_cons.mp (List.nodup_middle.mp nodup)).1
  have others : (before ++ (after ++ free)).map (fun y => ((overwrite s r cell).nodes y).byIndex) =
      (before ++ (after ++ free)).map fun y => (s.nodes y).byIndex := by
    refine List.map_congr_left fun y member => ?_
    have other : y ≠ r := fun same => fresh (same ▸ member)
    rw [overwrite_other other]
  have moved (index : PeerRef → UInt8) : ((before ++ r :: after ++ free).map index).Perm
      ([index r] ++ (before ++ (after ++ free)).map index) := by
    rw [List.append_assoc, List.cons_append, List.singleton_append, ← List.map_cons]
    exact List.perm_middle.map index
  have heads := ((moved _).symm.trans both).trans (moved _)
  rw [others, List.perm_append_right_iff, List.singleton_perm_singleton, overwrite_self] at heads
  exact heads

/-- A table in order after a node was written over. -/
theorem Kept.fits_of_integrity (kept : Kept s listed free) (member : r ∈ listed)
    (integrity : (overwrite s r cell).Integrity) : Fits s r cell := by
  obtain ⟨listed', free', nexts, prevs, frees, indices, -, apart⟩ := integrity
  have notFree : r ∉ free := kept.toLaid.apart member
  have nextEq : (overwrite s r cell).nodes.next = Function.update s.nodes.next r cell.pcNext := by
    funext y
    by_cases here : y = r
    · subst here
      rw [Function.update_self, PeerMemory.next, overwrite_self]
    · rw [Function.update_of_ne here, PeerMemory.next, overwrite_other here]
      rfl
  have prevEq : (overwrite s r cell).nodes.prev = Function.update s.nodes.prev r cell.pcPrev := by
    funext y
    by_cases here : y = r
    · subst here
      rw [Function.update_self, PeerMemory.prev, overwrite_self]
    · rw [Function.update_of_ne here, PeerMemory.prev, overwrite_other here]
      rfl
  have pool : free' = free := by
    refine frees.unique (kept.pool.chained.congr fun y inPool => ?_)
    rw [nextEq]
    have other : y ≠ r := fun same => notFree (same ▸ inPool)
    exact Function.update_of_ne other _ _
  subst pool
  have perm : listed'.Perm listed := by
    refine (List.perm_append_right_iff free').mp ?_
    exact (perm_of_indices indices).trans kept.all.symm
  obtain ⟨before, after, rfl⟩ := List.append_of_mem member
  rw [nextEq] at nexts
  obtain ⟨rfl, next⟩ := same_chain kept.toLaid.nodup_list kept.list.chained perm nexts
  rw [prevEq] at prevs
  have back := kept.list.chained_reverse
  have nodup := List.nodup_reverse.mpr kept.toLaid.nodup_list
  rw [List.reverse_append, List.reverse_cons, List.append_assoc, List.singleton_append]
    at back prevs nodup
  obtain ⟨-, prev⟩ := same_chain nodup back (List.Perm.refl _) prevs
  refine ⟨prev, next, kept.index_of_indices indices, fun q listed other => ?_⟩
  rw [kept.list.visits kept.toLaid.nodup_list, Option.getD_some] at listed
  have symmetric : Std.Symm fun r' q => CPeerInfoList.Apart
      ((overwrite s r cell).nodes r').toCPeerInfoNode ((overwrite s r cell).nodes q).toCPeerInfoNode :=
    ⟨fun _ _ => apart_symm⟩
  have apart := apart.forall member listed other.symm
  rwa [overwrite_self, overwrite_other other] at apart

theorem Kept.overwritten_iff (kept : Kept s listed free) (member : r ∈ listed) :
    (overwrite s r cell).Integrity ↔ Fits s r cell :=
  ⟨kept.fits_of_integrity member, fun fits => (kept.overwritten fits).integrity⟩

theorem modifyPeer_spec (kept : Kept s listed free) (cell : PeerNode) :
    (∃ r ∈ listed, (s.nodes r).same (CPeerInfoList.searched cell.toCPeerInfoNode) = true ∧
      s.list.find s.nodes (CPeerInfoList.searched cell.toCPeerInfoNode) = some (some r) ∧
      s.modifyPeer cell = some (true, overwrite s r cell)) ∨
    (∀ r ∈ listed, (s.nodes r).same (CPeerInfoList.searched cell.toCPeerInfoNode) = false) ∧
      s.list.find s.nodes (CPeerInfoList.searched cell.toCPeerInfoNode) = some none ∧
      s.modifyPeer cell = some (false, s) := by
  rw [CPeerInfoList.modifyPeer, kept.list.find kept.toLaid.nodup_list]
  cases found : listed.find? fun r =>
      (s.nodes r).same (CPeerInfoList.searched cell.toCPeerInfoNode) with
  | none =>
      refine .inr ⟨fun r member => ?_, rfl, rfl⟩
      simpa using List.find?_eq_none.mp found r member
  | some r =>
      have hit := List.find?_some found
      exact .inl ⟨r, List.mem_of_find?_eq_some found, hit, rfl, rfl⟩

end

/-! ## All of them -/

/-- A listed peer is found by the condition that it has itself. -/
def FindsItself (s : CPeerInfoList) (r : PeerRef) : Prop :=
  s.list.find s.nodes (CPeerInfoList.searched (s.nodes r).toCPeerInfoNode) = some (some r)

instance (s : CPeerInfoList) (r : PeerRef) : Decidable (FindsItself s r) :=
  inferInstanceAs (Decidable (_ = _))

theorem same_self (node : CPeerInfoNode) : node.same (CPeerInfoList.searched node) = true := by
  rw [CPeerInfoNode.same, CPeerInfoList.searched]
  cases node.compCondition <;> simp

theorem Kept.findPeer (kept : Kept s listed free) (member : r ∈ listed) :
    s.findPeer (UInt8.ofNat (r.val + 1)) = some (some (s.nodes r)) := by
  have index := kept.index r
  rw [CPeerInfoList.findPeer, kept.list.find kept.toLaid.nodup_list]
  cases found : listed.find? fun y => (s.nodes y).same { byIndex := UInt8.ofNat (r.val + 1) } with
  | none =>
      have missed := List.find?_eq_none.mp found r member
      exact absurd (decide_eq_true index.symm) missed
  | some y =>
      have hit := List.find?_some found
      have same : UInt8.ofNat (r.val + 1) = (s.nodes y).byIndex := of_decide_eq_true hit
      obtain rfl := kept.toLaid.index_inj (index.trans same)
      rfl

/-- What a round writes. -/
def masked (uiMask : UInt32) (bAndOR : Bool) (cell : PeerNode) : PeerNode :=
  { cell with
    dataType := if bAndOR then cell.dataType &&& uiMask else cell.dataType ||| uiMask }

section
variable (uiMask : UInt32) (bAndOR : Bool)

/-- A round writes the copy of the peer over the one that its condition finds. -/
theorem round_spec (kept : Kept s listed free) (member : r ∈ listed) :
    ∃ q ∈ listed,
      s.list.find s.nodes (CPeerInfoList.searched (s.nodes r).toCPeerInfoNode) = some (some q) ∧
      CPeerInfoList.modifyMultiMedia uiMask bAndOR s (UInt8.ofNat (r.val + 1)) =
        some (overwrite s q (masked uiMask bAndOR (s.nodes r))) := by
  rw [CPeerInfoList.modifyMultiMedia, kept.findPeer member, Option.bind_some]
  obtain ⟨q, listed', -, found, run⟩ | ⟨missed, -⟩ :=
    modifyPeer_spec kept (masked uiMask bAndOR (s.nodes r))
  · exact ⟨q, listed', found, congrArg (Option.map Prod.snd) run⟩
  · have hit := same_self (s.nodes r).toCPeerInfoNode
    exact Bool.noConfusion (hit.symm.trans (missed r member))

theorem Kept.masked (kept : Kept s listed free) (member : r ∈ listed) :
    Kept (overwrite s r (masked uiMask bAndOR (s.nodes r))) listed free := by
  refine kept.overwritten ⟨rfl, rfl, rfl, fun q listed' other => ?_⟩
  rw [kept.list.visits kept.toLaid.nodup_list, Option.getD_some] at listed'
  have symmetric : Std.Symm fun r q => CPeerInfoList.Apart (s.nodes r).toCPeerInfoNode
      (s.nodes q).toCPeerInfoNode := ⟨fun _ _ => apart_symm⟩
  exact kept.distinct.forall member listed' other.symm

/-- The rounds do not change what the conditions look at. -/
theorem findsItself_masked (kept : Kept s listed free) (member : r ∈ listed) (y : PeerRef) :
    FindsItself (overwrite s r (CPeerInfoList.masked uiMask bAndOR (s.nodes r))) y ↔
      FindsItself s y := by
  have kept' := kept.masked uiMask bAndOR member
  have searched : CPeerInfoList.searched
      ((overwrite s r (CPeerInfoList.masked uiMask bAndOR (s.nodes r))).nodes y).toCPeerInfoNode =
      CPeerInfoList.searched (s.nodes y).toCPeerInfoNode := by
    refine overwrite_field (fun cell => CPeerInfoList.searched cell.toCPeerInfoNode) ?_ y
    rfl
  have same (node : CPeerInfoNode) (q : PeerRef) :
      ((overwrite s r (CPeerInfoList.masked uiMask bAndOR (s.nodes r))).nodes q).same node =
        (s.nodes q).same node := by
    refine overwrite_field (fun cell => cell.same node) ?_ q
    rfl
  rw [FindsItself, FindsItself, kept'.list.find kept'.toLaid.nodup_list,
    kept.list.find kept.toLaid.nodup_list, searched]
  simp only [same]

/-- No node has the index. -/
def Missing (s : CPeerInfoList) (byIndex : UInt8) : Prop := ∀ y, (s.nodes y).byIndex ≠ byIndex

theorem Missing.not_integrity {q : PeerRef} (missing : Missing s (UInt8.ofNat (q.val + 1))) :
    ¬s.Integrity := by
  rintro ⟨listed, free, -, -, -, indices, -, -⟩
  have member : UInt8.ofNat (q.val + 1) ∈
      (List.range' 1 (puPeersMaxCount - 1)).map UInt8.ofNat := by
    rw [← indices_finRange]
    exact List.mem_map_of_mem (List.mem_finRange q)
  obtain ⟨y, -, same⟩ := List.mem_map.mp (indices.symm.subset member)
  exact missing y same

theorem Missing.overwrite {byIndex : UInt8} {cell : PeerNode} (missing : Missing s byIndex)
    (q : PeerRef) (other : cell.byIndex ≠ byIndex) : Missing (overwrite s q cell) byIndex := by
  intro z
  by_cases here : z = q
  · subst here
    rw [overwrite_self]
    exact other
  · rw [overwrite_other here]
    exact missing z

theorem findLoop_same {m : PeerMemory} {searched : CPeerInfoNode} {n : Nat}
    {start : Option PeerRef} (found : CBoList.findLoop m searched n start = some (some r)) :
    (m r).same searched = true := by
  induction n generalizing start with
  | zero => cases start <;> cases found
  | succ n ih =>
      cases start with
      | none => cases found
      | some y =>
          rw [CBoList.findLoop] at found
          split at found
          · cases found
            assumption
          · exact ih found

/-- A round gives no node an index that no node has. -/
theorem Missing.round {byIndex i : UInt8} (missing : Missing s byIndex) (noZero : Missing s 0)
    (run : CPeerInfoList.modifyMultiMedia uiMask bAndOR s i = some s') :
    Missing s' byIndex ∧ Missing s' 0 := by
  obtain ⟨found, finds, run⟩ := Option.bind_eq_some_iff.mp run
  obtain ⟨⟨ok, s''⟩, modified, rfl⟩ := Option.map_eq_some_iff.mp run
  obtain ⟨target, search, is⟩ := Option.map_eq_some_iff.mp modified
  cases target with
  | none =>
      obtain rfl := (Prod.mk.inj is).2
      exact ⟨missing, noZero⟩
  | some q =>
      obtain rfl := (Prod.mk.inj is).2
      have same := findLoop_same search
      cases found with
      | none => exact absurd (of_decide_eq_true same).symm (noZero q)
      | some copy =>
          obtain ⟨source, -, copied⟩ := Option.map_eq_some_iff.mp finds
          obtain ⟨y, -, rfl⟩ := Option.map_eq_some_iff.mp copied
          exact ⟨missing.overwrite q (missing y), noZero.overwrite q (noZero y)⟩

theorem Missing.rounds {byIndex : UInt8} {indices : List UInt8} (missing : Missing s byIndex)
    (noZero : Missing s 0)
    (run : indices.foldlM (CPeerInfoList.modifyMultiMedia uiMask bAndOR) s = some s') :
    Missing s' byIndex := by
  induction indices generalizing s with
  | nil =>
      obtain rfl := Option.some.inj run
      exact missing
  | cons i indices ih =>
      rw [List.foldlM_cons] at run
      obtain ⟨s₁, first, rest⟩ := Option.bind_eq_some_iff.mp run
      obtain ⟨missing, noZero⟩ := missing.round uiMask bAndOR noZero first
      exact ih missing noZero rest

theorem Kept.noZero (kept : Kept s listed free) : Missing s 0 := by
  intro y zero
  rw [kept.index] at zero
  exact Nat.succ_ne_zero _ (byte_inj (by omega) (by omega) zero)

theorem rounds_kept (kept : Kept s listed free) {refs : List PeerRef}
    (within : ∀ r ∈ refs, r ∈ listed) (own : ∀ r ∈ refs, FindsItself s r) :
    ∃ s', (refs.map fun r => UInt8.ofNat (r.val + 1)).foldlM
        (CPeerInfoList.modifyMultiMedia uiMask bAndOR) s = some s' ∧ Kept s' listed free := by
  induction refs generalizing s with
  | nil => exact ⟨s, rfl, kept⟩
  | cons r refs ih =>
      obtain ⟨member, inside⟩ := List.forall_mem_cons.mp within
      obtain ⟨itself, others⟩ := List.forall_mem_cons.mp own
      obtain ⟨q, -, found, run⟩ := round_spec uiMask bAndOR kept member
      obtain rfl : q = r := Option.some.inj (Option.some.inj (found.symm.trans itself))
      have own' : ∀ y ∈ refs, FindsItself (overwrite s q
          (CPeerInfoList.masked uiMask bAndOR (s.nodes q))) y :=
        fun y later => (findsItself_masked uiMask bAndOR kept member y).mpr (others y later)
      obtain ⟨s', rest, kept'⟩ := ih (kept.masked uiMask bAndOR member) inside own'
      refine ⟨s', ?_, kept'⟩
      rw [List.map_cons, List.foldlM_cons, run]
      exact rest

/-- A table that is in order after the loop had no peer that did not find itself. -/
theorem rounds_own (kept : Kept s listed free) {refs : List PeerRef}
    (within : ∀ r ∈ refs, r ∈ listed)
    (run : (refs.map fun r => UInt8.ofNat (r.val + 1)).foldlM
      (CPeerInfoList.modifyMultiMedia uiMask bAndOR) s = some s') (integrity : s'.Integrity) :
    ∀ r ∈ refs, FindsItself s r := by
  induction refs generalizing s with
  | nil =>
      intro r member
      cases member
  | cons r refs ih =>
      obtain ⟨member, inside⟩ := List.forall_mem_cons.mp within
      obtain ⟨q, -, found, round⟩ := round_spec uiMask bAndOR kept member
      rw [List.map_cons, List.foldlM_cons, round] at run
      by_cases here : q = r
      · subst here
        rw [List.forall_mem_cons]
        refine ⟨found, fun y later => ?_⟩
        rw [← findsItself_masked uiMask bAndOR kept member y]
        exact ih (kept.masked uiMask bAndOR member) inside run y later
      · have missing : Missing (overwrite s q (CPeerInfoList.masked uiMask bAndOR (s.nodes r)))
            (s.nodes q).byIndex := by
          intro z
          by_cases at_q : z = q
          · subst at_q
            rw [overwrite_self]
            exact fun same => here (kept.toLaid.index_inj same).symm
          · rw [overwrite_other at_q]
            exact fun same => at_q (kept.toLaid.index_inj same)
        have noZero : Missing (overwrite s q (CPeerInfoList.masked uiMask bAndOR (s.nodes r))) 0 :=
          kept.noZero.overwrite q (kept.noZero r)
        have lost := missing.rounds uiMask bAndOR noZero run
        rw [kept.index] at lost
        exact absurd integrity lost.not_integrity

theorem modifyMultiMediaPeers_kept (kept : Kept s listed free)
    (own : ∀ r ∈ listed, FindsItself s r) :
    ∃ ok s', s.modifyMultiMediaPeers uiMask bAndOR = some (ok, s') ∧ Kept s' listed free := by
  rw [CPeerInfoList.modifyMultiMediaPeers, kept.list.visits kept.toLaid.nodup_list,
    Option.bind_some]
  split_ifs
  · exact ⟨_, _, rfl, kept⟩
  · obtain ⟨s', run, kept'⟩ := rounds_kept uiMask bAndOR kept (fun _ member => member) own
    simp only [kept.index, run]
    exact ⟨_, _, rfl, kept'⟩

theorem modifyMultiMediaPeers_own (kept : Kept s listed free) {ok : Bool}
    (run : s.modifyMultiMediaPeers uiMask bAndOR = some (ok, s')) (integrity : s'.Integrity) :
    ∀ r ∈ listed, FindsItself s r := by
  rw [CPeerInfoList.modifyMultiMediaPeers, kept.list.visits kept.toLaid.nodup_list,
    Option.bind_some] at run
  split_ifs at run with empty
  · intro r member
    rw [empty] at member
    cases member
  · obtain ⟨s'', rounds, is⟩ := Option.map_eq_some_iff.mp run
    obtain rfl := (Prod.mk.inj is).2
    simp only [kept.index] at rounds
    exact rounds_own uiMask bAndOR kept (fun _ member => member) rounds integrity

end

end CPeerInfoList

/-! ## Runs -/

namespace PeerTableUse
open CPeerInfoList

variable {s s' : PeerTableUse} {listed free : List PeerRef}

/-- What a caller writes over a peer has the links and the index of that peer, and no other peer's
addresses; and each peer finds itself where all are written over. -/
def Allowed (s : PeerTableUse) : PeerTableEvent → Prop
  | .addPeer _ | .delPeer _ | .resetPeers | .findPeer _ => True
  | .modifyPeer copy edit => ∀ held ∈ s.copies[copy]?,
      ∀ r ∈ (s.list.find s.nodes (CPeerInfoList.searched
        (PeerTableUse.cell held edit).toCPeerInfoNode)).join,
        Fits s.toCPeerInfoList r (PeerTableUse.cell held edit)
  | .modifyMultiMediaPeers .. => ∀ r ∈ (s.list.visits s.nodes).getD [],
      FindsItself s.toCPeerInfoList r

instance (s : PeerTableUse) : (e : PeerTableEvent) → Decidable (Allowed s e)
  | .addPeer _ | .delPeer _ | .resetPeers | .findPeer _ => isTrue trivial
  | .modifyPeer .. => inferInstanceAs (Decidable (∀ held ∈ _, ∀ r ∈ _, Fits ..))
  | .modifyMultiMediaPeers .. => inferInstanceAs (Decidable (∀ r ∈ _, FindsItself ..))

/-- An event leads to a table in order exactly if it is allowed. -/
theorem perform_iff (kept : CPeerInfoList.Kept s.toCPeerInfoList listed free)
    (e : PeerTableEvent) :
    (Allowed s e → ∃ s' listed' free', s.perform e = some s' ∧
      CPeerInfoList.Kept s'.toCPeerInfoList listed' free') ∧
    ((∃ s', s.perform e = some s' ∧ s'.Integrity) → Allowed s e) := by
  cases e with
  | addPeer args =>
      obtain ⟨ok, list, listed', free', run, kept', -⟩ := addPeer_kept kept args
      refine ⟨fun _ => ⟨⟨list, s.copies⟩, listed', free', ?_, kept'⟩, fun _ => trivial⟩
      rw [PeerTableUse.perform, run]
      rfl
  | delPeer byIndex =>
      obtain ⟨ok, list, listed', free', run, kept'⟩ := delete_kept kept byIndex
      refine ⟨fun _ => ⟨⟨list, s.copies⟩, listed', free', ?_, kept'⟩, fun _ => trivial⟩
      rw [PeerTableUse.perform, run]
      rfl
  | resetPeers =>
      obtain ⟨list, free', run, kept'⟩ := reset_kept kept
      refine ⟨fun _ => ⟨⟨list, s.copies⟩, [], free', ?_, kept'⟩, fun _ => trivial⟩
      rw [PeerTableUse.perform, run]
      rfl
  | findPeer byIndex =>
      obtain ⟨found, run⟩ : ∃ found, s.findPeer byIndex = some found := by
        rw [CPeerInfoList.findPeer, kept.list.find kept.toLaid.nodup_list]
        exact ⟨_, rfl⟩
      refine ⟨fun _ => ⟨{ s with copies := s.copies ++ found.toList }, listed, free, ?_, kept⟩,
        fun _ => trivial⟩
      rw [PeerTableUse.perform, run]
      rfl
  | modifyPeer copy edit =>
      rw [PeerTableUse.perform, Allowed]
      cases held : s.copies[copy]? with
      | none => exact ⟨fun _ => ⟨s, listed, free, rfl, kept⟩, fun _ _ none => by cases none⟩
      | some node =>
          dsimp only
          obtain ⟨r, member, -, found, run⟩ | ⟨-, missed, run⟩ :=
            modifyPeer_spec kept (PeerTableUse.cell node edit)
          · rw [run]
            constructor
            · intro allowed
              have fits := allowed node rfl r (by rw [found]; rfl)
              exact ⟨_, listed, free, rfl, kept.overwritten fits⟩
            · rintro ⟨s', performed, integrity⟩ held' is r' found'
              obtain rfl := Option.some.inj is
              obtain rfl := Option.some.inj performed
              rw [found] at found'
              obtain rfl := Option.some.inj found'
              exact kept.fits_of_integrity member integrity
          · rw [run]
            refine ⟨fun _ => ⟨s, listed, free, rfl, kept⟩, fun _ held' is r' found' => ?_⟩
            obtain rfl := Option.some.inj is
            rw [missed] at found'
            cases found'
  | modifyMultiMediaPeers uiMask bAndOR =>
      rw [PeerTableUse.perform, Allowed, kept.list.visits kept.toLaid.nodup_list, Option.getD_some]
      constructor
      · intro own
        obtain ⟨ok, list, run, kept'⟩ := modifyMultiMediaPeers_kept uiMask bAndOR kept own
        refine ⟨⟨list, s.copies⟩, listed, free, ?_, kept'⟩
        rw [run]
        rfl
      · rintro ⟨s', performed, integrity⟩
        obtain ⟨⟨ok, list⟩, run, rfl⟩ := Option.map_eq_some_iff.mp performed
        exact modifyMultiMediaPeers_own uiMask bAndOR kept run integrity

/-- After allowed events the nodes are shared out in order, and after the next one exactly if that is
allowed too. -/
theorem run_integrity {rand : UInt8 → UInt32} {start : CPeerInfoList}
    (made : CPeerInfoList.construct rand = some start) {history : List PeerTableEvent}
    (run : Run (Guarded Allowed fun s e s' => s.perform e = some s') ⟨start, [{}]⟩ history s) :
    s.Integrity ∧ ∀ e, (∃ s', s.perform e = some s' ∧ s'.Integrity) ↔ Allowed s e := by
  obtain ⟨listed, free, kept⟩ : ∃ listed free, CPeerInfoList.Kept s.toCPeerInfoList listed free := by
    refine run.invariant (I := fun s => ∃ listed free, CPeerInfoList.Kept s.toCPeerInfoList listed free)
      ?_ fun s e s' kept action => ?_
    · obtain ⟨s, free, constructed, kept⟩ := construct_kept rand
      obtain rfl := Option.some.inj (constructed.symm.trans made)
      exact ⟨[], free, kept⟩
    · obtain ⟨listed, free, kept⟩ := kept
      obtain ⟨allowed, performed⟩ := action
      obtain ⟨s'', listed', free', performed', kept'⟩ := (perform_iff kept e).1 allowed
      obtain rfl := Option.some.inj (performed.symm.trans performed')
      exact ⟨listed', free', kept'⟩
  refine ⟨kept.integrity, fun e => ?_⟩
  obtain ⟨keeps, needs⟩ := perform_iff kept e
  refine ⟨needs, fun allowed => ?_⟩
  obtain ⟨s', listed', free', performed, kept'⟩ := keeps allowed
  exact ⟨s', performed, kept'.integrity⟩

/-- A peer with these addresses. -/
def peerAt (addr : Nat) : AddPeerArgs where
  remoteL := ⟨addr, 10⟩
  remoteE := ⟨addr, 20⟩
  remoteE2 := ⟨addr, 20⟩
  stRelayPeer := ⟨30, 30⟩
  tTime := 0
  localKnown := true

def modifiedAtOnce : List PeerTableEvent :=
  [.addPeer (peerAt 1), .addPeer (peerAt 2), .addPeer (peerAt 1), .findPeer 254,
    .modifyPeer 1 fun node => { node with dataType := 4 }, .modifyMultiMediaPeers 2 false,
    .delPeer 253]

set_option maxRecDepth 20000 in
theorem modifiedAtOnce_integrity : ∃ start s, CPeerInfoList.construct (fun _ => 0) = some start ∧
    Run (Guarded Allowed fun s e s' => s.perform e = some s') ⟨start, [{}]⟩ modifiedAtOnce s ∧
      (s.apcPeers 254).map (fun r => (s.nodes r).dataType) = some 6 ∧ s.Integrity ∧
      ∀ e, (∃ s', s.perform e = some s' ∧ s'.Integrity) ↔ Allowed s e := by
  obtain ⟨start, free, made, -⟩ := CPeerInfoList.construct_kept fun _ => 0
  let performed (start : CPeerInfoList) := modifiedAtOnce.foldlM (fun (s : PeerTableUse) e =>
    if Allowed s e then s.perform e else none) ⟨start, [{}]⟩
  have types : ((CPeerInfoList.construct fun _ => 0).bind performed).map
      (fun s => (s.apcPeers 254).map fun r => (s.nodes r).dataType) = some (some 6) := by
    decide
  rw [made, Option.bind_some] at types
  obtain ⟨s, result, type⟩ := Option.map_eq_some_iff.mp types
  have run := Run.guarded_of_foldlM Allowed PeerTableUse.perform modifiedAtOnce result
  exact ⟨start, s, made, run, type, run_integrity made run⟩

theorem visits_of_integrity {s : CPeerInfoList} (integrity : s.Integrity) :
    ∃ listed free, s.list.visits s.nodes = some listed ∧
      s.cPeerInfoPool.visits s.nodes = some free ∧ listed.length + free.length = 254 := by
  obtain ⟨listed, free, nexts, -, frees, indices, -⟩ := integrity
  have length := (perm_of_indices indices).length_eq
  rw [List.length_append, List.length_finRange] at length
  exact ⟨listed, free, nexts.walk (by omega), frees.walk (by omega), length⟩

def modifiedLater : List PeerTableEvent :=
  [.addPeer (peerAt 1), .addPeer (peerAt 2), .findPeer 254, .delPeer 253, .modifyPeer 1 id]

set_option maxRecDepth 20000 in
/-- The copy still leads on to a peer that has been deleted since, and from there through the pool. -/
theorem modifiedLater_mixed : ¬ ∀ (rand : UInt8 → UInt32) (start : CPeerInfoList)
    (history : List PeerTableEvent) (s : PeerTableUse),
    CPeerInfoList.construct rand = some start →
    Run (fun s e s' => s.perform e = some s') ⟨start, [{}]⟩ history s → s.Integrity := by
  intro all
  obtain ⟨start, free, made, -⟩ := CPeerInfoList.construct_kept fun _ => 0
  have counts : ((CPeerInfoList.construct fun _ => 0).bind fun start =>
      modifiedLater.foldlM PeerTableUse.perform ⟨start, [{}]⟩).map (fun s =>
        ((s.list.visits s.nodes).map List.length,
          (s.cPeerInfoPool.visits s.nodes).map List.length)) = some (some 254, some 253) := by
    decide
  rw [made, Option.bind_some] at counts
  obtain ⟨s, result, counted⟩ := Option.map_eq_some_iff.mp counts
  obtain ⟨listed, free, walks, frees, length⟩ :=
    visits_of_integrity (all _ start modifiedLater s made (Run.of_foldlM _ _ result))
  rw [walks, frees] at counted
  obtain ⟨inList, inPool⟩ := Prod.mk.inj counted
  have inList : listed.length = 254 := Option.some.inj inList
  have inPool : free.length = 253 := Option.some.inj inPool
  omega

end PeerTableUse

end Cgsf.Proof.P2P
