import Mathlib.Data.List.Nodup
import Std.Data.TreeMap.Lemmas

/-!
# Rosters

A finite map that lists the members of a set, each under its own key, and a list of the same members
in the order in which they came.
-/

namespace Cgsf.Library
open Std

variable {κ β : Type} {cmp : κ → κ → Ordering}

def Lists (m : TreeMap κ β cmp) (M : β → Prop) (key : β → κ) : Prop :=
  ∀ k p, m[k]? = some p ↔ M p ∧ key p = k

namespace Lists

variable {m : TreeMap κ β cmp} {M : β → Prop} {key : β → κ}

theorem congr {M' : β → Prop} {key' : β → κ} (lists : Lists m M key)
    (same : ∀ p, M p ↔ M' p) (keys : ∀ p, M p → key p = key' p) : Lists m M' key' := by
  intro k p
  rw [lists k p, ← same]
  exact and_congr_right fun member => by rw [keys p member]

theorem get (lists : Lists m M key) {p : β} (member : M p) : m[key p]? = some p :=
  (lists _ _).mpr ⟨member, rfl⟩

theorem injective (lists : Lists m M key) {p q : β} (left : M p) (right : M q)
    (same : key p = key q) : p = q :=
  Option.some.inj ((lists.get left).symm.trans (same ▸ lists.get right))

variable [TransCmp cmp]

theorem mem_iff (lists : Lists m M key) (k : κ) : k ∈ m ↔ ∃ p, M p ∧ key p = k := by
  rw [TreeMap.mem_iff_isSome_getElem?, Option.isSome_iff_exists]
  exact exists_congr fun p => lists k p

theorem isEmpty (lists : Lists m M key) (none : ∀ p, ¬ M p) : m.isEmpty := by
  rw [TreeMap.isEmpty_iff_forall_not_mem]
  intro k there
  obtain ⟨p, member, -⟩ := (lists.mem_iff k).mp there
  exact none p member

theorem empty (none : ∀ p, ¬ M p) : Lists (∅ : TreeMap κ β cmp) M key := by
  intro k p
  simp [none p]

variable [LawfulEqCmp cmp]

theorem insert (lists : Lists m M key) {p : β} (fresh : ∀ q, M q → key q ≠ key p) :
    Lists (m.insertIfNew (key p) p) (fun q => M q ∨ q = p) key := by
  have absent : key p ∉ m := by
    rw [lists.mem_iff]
    rintro ⟨q, member, same⟩
    exact fresh q member same
  intro k q
  rw [TreeMap.getElem?_insertIfNew]
  by_cases at_key : key p = k
  · subst at_key
    rw [if_pos ⟨ReflCmp.compare_self, absent⟩, Option.some.injEq]
    constructor
    · rintro rfl
      exact ⟨.inr rfl, rfl⟩
    · rintro ⟨member | rfl, same⟩
      · exact absurd same (fresh q member)
      · rfl
  · rw [if_neg (fun both => at_key (LawfulEqCmp.eq_of_compare both.1)), lists k q]
    constructor
    · exact fun found => ⟨.inl found.1, found.2⟩
    · rintro ⟨member | rfl, same⟩
      · exact ⟨member, same⟩
      · exact absurd same at_key

theorem erase (lists : Lists m M key) {p : β} (member : M p) :
    Lists (m.erase (key p)) (fun q => M q ∧ q ≠ p) key := by
  intro k q
  rw [TreeMap.getElem?_erase]
  by_cases at_key : key p = k
  · subst at_key
    rw [if_pos ReflCmp.compare_self]
    refine ⟨nofun, fun ⟨⟨left, other⟩, same⟩ => ?_⟩
    exact absurd (lists.injective left member same) other
  · rw [if_neg (fun eq => at_key (LawfulEqCmp.eq_of_compare eq)), lists k q]
    constructor
    · rintro ⟨left, same⟩
      refine ⟨⟨left, ?_⟩, same⟩
      rintro rfl
      exact at_key same
    · exact fun ⟨⟨left, _⟩, same⟩ => ⟨left, same⟩

theorem insert_self {m : TreeMap κ κ cmp} {M : κ → Prop} (lists : Lists m M id) (k : κ) :
    Lists (m.insertIfNew k k) (fun j => M j ∨ j = k) id := by
  by_cases present : M k
  · have same (j : κ) : (m.insertIfNew k k)[j]? = m[j]? := by
      rw [TreeMap.getElem?_insertIfNew, if_neg]
      exact fun absent => absent.2 ((lists.mem_iff k).mpr ⟨k, present, rfl⟩)
    intro j q
    rw [same, lists j q]
    exact and_congr_left fun _ => ⟨.inl, fun either => either.elim id fun here => here ▸ present⟩
  · refine lists.insert fun q member same => present ?_
    rw [← show q = k from same]
    exact member

theorem foldl_insert (l : List κ) {m : TreeMap κ κ cmp} {M : κ → Prop} (lists : Lists m M id) :
    Lists (l.foldl (fun m k => m.insertIfNew k k) m) (fun k => M k ∨ k ∈ l) id := by
  induction l generalizing m M with
  | nil => exact lists.congr (fun k => by simp) fun _ _ => rfl
  | cons k l ih =>
      exact (ih (lists.insert_self k)).congr (fun j => by rw [List.mem_cons, or_assoc])
        fun _ _ => rfl

theorem mem_values (lists : Lists m M key) (p : β) : p ∈ m.toList.map (·.2) ↔ M p := by
  rw [List.mem_map]
  constructor
  · rintro ⟨⟨k, q⟩, entry, rfl⟩
    exact ((lists k q).mp (TreeMap.mem_toList_iff_getElem?_eq_some.mp entry)).1
  · exact fun member =>
      ⟨(key p, p), TreeMap.mem_toList_iff_getElem?_eq_some.mpr (lists.get member), rfl⟩

end Lists

structure Roster [DecidableEq β] (l : List β) (m : TreeMap κ β cmp) (M : β → Prop) (key : β → κ) :
    Prop where
  nodup : l.Nodup
  mem : ∀ p, p ∈ l ↔ M p
  lists : Lists m M key

namespace Roster

variable [DecidableEq β] {l : List β} {m : TreeMap κ β cmp} {M : β → Prop} {key : β → κ}

theorem congr {M' : β → Prop} {key' : β → κ} (roster : Roster l m M key)
    (same : ∀ p, M p ↔ M' p) (keys : ∀ p, M p → key p = key' p) : Roster l m M' key' :=
  ⟨roster.nodup, fun p => (roster.mem p).trans (same p), roster.lists.congr same keys⟩

theorem eq_nil (roster : Roster l m M key) (none : ∀ p, ¬ M p) : l = [] :=
  List.eq_nil_iff_forall_not_mem.mpr fun p member => none p ((roster.mem p).mp member)

variable [TransCmp cmp]

theorem empty (none : ∀ p, ¬ M p) : Roster [] (∅ : TreeMap κ β cmp) M key :=
  ⟨List.nodup_nil, fun p => by simp [none p], .empty none⟩

variable [LawfulEqCmp cmp]

theorem enroll (roster : Roster l m M key) {p : β} (new : ¬ M p)
    (fresh : ∀ q, M q → key q ≠ key p) :
    Roster (l ++ [p]) (m.insertIfNew (key p) p) (fun q => M q ∨ q = p) key where
  nodup := by
    have absent : p ∉ l := fun member => new ((roster.mem p).mp member)
    rw [List.nodup_append]
    refine ⟨roster.nodup, List.nodup_singleton p, ?_⟩
    rintro a member b single rfl
    exact absent (List.mem_singleton.mp single ▸ member)
  mem := fun q => by rw [List.mem_append, List.mem_singleton, roster.mem]
  lists := roster.lists.insert fresh

theorem withdraw (roster : Roster l m M key) {p : β} (member : M p) :
    Roster (l.erase p) (m.erase (key p)) (fun q => M q ∧ q ≠ p) key where
  nodup := roster.nodup.erase p
  mem := fun q => by rw [roster.nodup.mem_erase_iff, roster.mem, and_comm]
  lists := roster.lists.erase member

end Roster

end Cgsf.Library
