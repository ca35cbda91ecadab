import Cgsf.CGSFNet.ServiceManager
import Cgsf.Library.Transition
import Mathlib.Data.List.Nodup

/-!
# Every id is bound or idle
-/

namespace Cgsf.Proof.CGSFNet
open Cgsf.CGSFNet Library Std

variable {m : SFIDMap} {p : ServiceRef} {id : Int}

theorem mem_idMap_iff : id ∈ m.idMap ↔ m.get id ≠ none := by
  rw [TreeMap.mem_iff_isSome_getElem?, Option.isSome_iff_ne_none]
  rfl

/-- Ids from one to the last are shared out between the idle queue and the map. -/
structure SharesIds (m : SFIDMap) : Prop where
  nodup : m.idleIdQueue.Nodup
  idle : ∀ id ∈ m.idleIdQueue, m.get id = none
  range : ∀ id, (id ∈ m.idleIdQueue ∨ m.get id ≠ none) ↔ 1 ≤ id ∧ id ≤ m.maxIDCount

namespace SharesIds

theorem valid (shares : SharesIds m) : ∀ id ∈ m.idleIdQueue, id ≠ invalidId := by
  rintro id member rfl
  have inside := (shares.range _).mp (.inl member)
  rw [invalidId] at inside
  omega

theorem isValidId (shares : SharesIds m) (bound : m.get id ≠ none) : m.isValidId id = true := by
  have inside := (shares.range id).mp (.inr bound)
  refine decide_eq_true ⟨?_, inside.1, ?_⟩
  · rw [invalidId]
    omega
  · omega

end SharesIds

theorem get_insert {idleIdQueue : List Int} (free : m.get id = none) (k : Int) :
    ({ m with idleIdQueue, idMap := m.idMap.insertIfNew id p } : SFIDMap).get k =
      if k = id then some p else m.get k := by
  change (m.idMap.insertIfNew id p)[k]? = if k = id then some p else m.idMap[k]?
  have absent : id ∉ m.idMap := fun member => mem_idMap_iff.mp member free
  rw [TreeMap.getElem?_insertIfNew]
  by_cases same : k = id
  · subst same
    rw [if_pos ⟨ReflCmp.compare_self, absent⟩, if_pos rfl]
  · rw [if_neg same, if_neg]
    exact fun both => same (LawfulEqOrd.compare_eq_iff_eq.mp both.1).symm

theorem get_erase {idleIdQueue : List Int} (k : Int) :
    ({ m with idleIdQueue, idMap := m.idMap.erase id } : SFIDMap).get k =
      if k = id then none else m.get k := by
  change (m.idMap.erase id)[k]? = if k = id then none else m.idMap[k]?
  rw [TreeMap.getElem?_erase]
  by_cases same : k = id
  · subst same
    rw [if_pos ReflCmp.compare_self, if_pos rfl]
  · rw [if_neg same, if_neg fun is => same (LawfulEqOrd.compare_eq_iff_eq.mp is).symm]

namespace SharesIds

/-- The first idle id is bound. -/
theorem bind (shares : SharesIds m) {idleIdQueue : List Int}
    (first : m.idleIdQueue = id :: idleIdQueue) (p : ServiceRef) :
    SharesIds { m with idleIdQueue, idMap := m.idMap.insertIfNew id p } := by
  have free := shares.idle id (by rw [first]; exact List.mem_cons_self)
  have nodup := shares.nodup
  rw [first, List.nodup_cons] at nodup
  refine ⟨nodup.2, fun k member => ?_, fun k => ?_⟩
  · rw [get_insert free, if_neg]
    · exact shares.idle k (by rw [first]; exact List.mem_cons_of_mem id member)
    · rintro rfl
      exact nodup.1 member
  · have before := shares.range k
    rw [first, List.mem_cons] at before
    dsimp only
    rw [get_insert free, ← before]
    by_cases same : k = id
    · subst same
      simp
    · simp [same]

theorem unRegister_eq (shares : SharesIds m) (bound : m.get id ≠ none) :
    m.unRegister id =
      { m with idMap := m.idMap.erase id, idleIdQueue := m.idleIdQueue ++ [id] } := by
  rw [SFIDMap.unRegister, if_pos (mem_idMap_iff.mpr bound), if_pos (shares.isValidId bound)]

/-- A bound id goes to the end of the queue. -/
theorem unbind (shares : SharesIds m) (bound : m.get id ≠ none) :
    SharesIds { m with idMap := m.idMap.erase id, idleIdQueue := m.idleIdQueue ++ [id] } := by
  refine ⟨?_, fun k member => ?_, fun k => ?_⟩
  · refine List.nodup_append.mpr ⟨shares.nodup, List.nodup_singleton id, ?_⟩
    rintro k idle k' last rfl
    rw [List.mem_singleton.mp last] at idle
    exact bound (shares.idle id idle)
  · rw [get_erase]
    rw [List.mem_append, List.mem_singleton] at member
    split
    · rfl
    · rename_i other
      exact shares.idle k (member.resolve_right other)
  · have before := shares.range k
    dsimp only
    rw [get_erase, ← before, List.mem_append, List.mem_singleton]
    by_cases same : k = id
    · subst same
      simp [bound]
    · simp [same]

theorem unRegister (shares : SharesIds m) (id : Int) : SharesIds (m.unRegister id) := by
  by_cases bound : m.get id = none
  · rw [SFIDMap.unRegister, if_neg fun member => mem_idMap_iff.mp member bound]
    exact shares
  · rw [shares.unRegister_eq bound]
    exact shares.unbind bound

theorem init (maxIDCount : Nat) : SharesIds (.init maxIDCount) := by
  have nobody (id : Int) : (SFIDMap.init maxIDCount).get id = none := by
    change (∅ : TreeMap Int ServiceRef)[id]? = none
    simp
  refine ⟨(List.nodup_range' ..).map fun _ _ => Int.ofNat.inj, fun id _ => nobody id, fun id => ?_⟩
  rw [nobody]
  simp only [SFIDMap.init, List.mem_map, List.mem_range'_1]
  constructor
  · rintro (⟨k, inside, rfl⟩ | never)
    · simp only [Int.ofNat_eq_natCast]
      omega
    · contradiction
  · intro inside
    exact .inl ⟨id.toNat, by omega, Int.toNat_of_nonneg (by omega)⟩

theorem perm (shares : SharesIds m) : (m.idMap.keys ++ m.idleIdQueue).Perm
    ((List.range' 1 m.maxIDCount).map Int.ofNat) := by
  have distinct : m.idMap.keys.Nodup :=
    TreeMap.distinct_keys.imp fun differ same => differ (by rw [same]; exact ReflCmp.compare_self)
  have apart : (m.idMap.keys ++ m.idleIdQueue).Nodup := by
    refine List.nodup_append.mpr ⟨distinct, shares.nodup, ?_⟩
    rintro k bound k' idle rfl
    exact mem_idMap_iff.mp (TreeMap.mem_keys.mp bound) (shares.idle k idle)
  refine (List.perm_ext_iff_of_nodup apart ?_).mpr fun id => ?_
  · exact (List.nodup_range' ..).map fun _ _ => Int.ofNat.inj
  · rw [List.mem_append, TreeMap.mem_keys, mem_idMap_iff, or_comm, shares.range]
    simp only [List.mem_map, List.mem_range'_1]
    constructor
    · intro inside
      exact ⟨id.toNat, by omega, Int.toNat_of_nonneg (by omega)⟩
    · rintro ⟨k, inside, rfl⟩
      simp only [Int.ofNat_eq_natCast]
      omega

theorem register_cases (shares : SharesIds m) (p : ServiceRef) :
    (m.idleIdQueue = [] ∧ m.register p = (invalidId, m)) ∨
      ∃ id idleIdQueue, m.idleIdQueue = id :: idleIdQueue ∧ m.get id = none ∧ id ≠ invalidId ∧
        m.register p = (id, { m with idleIdQueue, idMap := m.idMap.insertIfNew id p }) := by
  rw [SFIDMap.register]
  cases queue : m.idleIdQueue with
  | nil => exact .inl ⟨rfl, rfl⟩
  | cons id idleIdQueue =>
      have member : id ∈ m.idleIdQueue := by rw [queue]; exact List.mem_cons_self
      exact .inr ⟨id, idleIdQueue, rfl, shares.idle id member, shares.valid id member, rfl⟩

theorem exhausted (shares : SharesIds m) (p : ServiceRef) : (m.register p).1 = invalidId ↔
    ∀ id : Int, 1 ≤ id → id ≤ m.maxIDCount → id ∈ m.idMap := by
  rcases shares.register_cases p with ⟨empty, is⟩ | ⟨id, rest, first, free, valid, is⟩
  · rw [is]
    refine ⟨fun _ id low high => ?_, fun _ => rfl⟩
    have there := (shares.range id).mpr ⟨low, high⟩
    rw [empty] at there
    exact mem_idMap_iff.mpr (there.resolve_left List.not_mem_nil)
  · rw [is]
    refine ⟨fun invalid => absurd invalid valid, fun all => ?_⟩
    have inside := (shares.range id).mp (.inl (by rw [first]; exact List.mem_cons_self))
    exact absurd free (mem_idMap_iff.mp (all id inside.1 inside.2))

end SharesIds

/-- The registrations in force are the map. -/
structure Accounted (pool : IDPool) : Prop where
  shares : SharesIds pool.map
  bound : ∀ p id, (p, id) ∈ pool.registered ↔ pool.map.get id = some p
  distinct : (pool.registered.map (·.2)).Nodup

variable {pool pool' : IDPool}

theorem Accounted.partitioned (accounted : Accounted pool) : pool.Partitioned where
  ids := accounted.shares.perm
  exhausted := accounted.shares.exhausted
  bound := accounted.bound
  distinct := accounted.distinct

theorem register_accounted (accounted : Accounted pool) (p : ServiceRef) :
    Accounted (pool.step (.register p)) := by
  rw [IDPool.step]
  rcases accounted.shares.register_cases p with ⟨_, is⟩ | ⟨id, rest, first, free, valid, is⟩
  · rw [is]
    exact accounted
  · rw [is]
    dsimp only
    rw [if_neg valid]
    refine ⟨accounted.shares.bind first p, fun q k => ?_, ?_⟩
    · dsimp only
      rw [get_insert free, List.mem_append, List.mem_singleton, accounted.bound]
      by_cases same : k = id
      · subst same
        rw [if_pos rfl, free]
        simp [eq_comm]
      · simp [same]
    · rw [List.map_append, List.nodup_append]
      refine ⟨accounted.distinct, List.nodup_singleton id, ?_⟩
      rintro k listed k' last rfl
      obtain ⟨⟨q, k⟩, member, rfl⟩ := List.mem_map.mp listed
      have same : k = id := List.mem_singleton.mp last
      have found := (accounted.bound q k).mp member
      rw [same, free] at found
      contradiction

theorem unRegister_accounted (accounted : Accounted pool) (id : Int) :
    Accounted (pool.step (.unRegister id)) := by
  rw [IDPool.step]
  refine ⟨accounted.shares.unRegister id, fun q k => ?_, ?_⟩
  · rw [List.mem_filter, accounted.bound]
    dsimp only
    by_cases bound : pool.map.get id = none
    · rw [SFIDMap.unRegister, if_neg fun member => mem_idMap_iff.mp member bound]
      refine and_iff_left_of_imp fun found => decide_eq_true ?_
      rintro rfl
      rw [bound] at found
      contradiction
    · rw [accounted.shares.unRegister_eq bound, get_erase]
      by_cases same : k = id <;> simp [same]
  · exact accounted.distinct.sublist (List.filter_sublist.map _)

theorem step_accounted (accounted : Accounted pool) {call : IDCall}
    (step : pool.Steps call pool') : Accounted pool' := by
  rw [← step]
  cases call with
  | register p => exact register_accounted accounted p
  | unRegister id => exact unRegister_accounted accounted id

theorem init_accounted (maxIDCount : Nat) : Accounted (.init maxIDCount) := by
  refine ⟨.init maxIDCount, fun p id => ⟨nofun, fun found => ?_⟩, List.nodup_nil⟩
  change (∅ : TreeMap Int ServiceRef)[id]? = some p at found
  simp at found

theorem step_maxIDCount (pool : IDPool) (call : IDCall) :
    (pool.step call).map.maxIDCount = pool.map.maxIDCount := by
  cases call with
  | register p =>
      simp only [IDPool.step, SFIDMap.register]
      split <;> rfl
  | unRegister id =>
      simp only [IDPool.step, SFIDMap.unRegister]
      split <;> rfl

theorem run_shared {maxIDCount : Nat} {calls : List IDCall}
    (run : Run IDPool.Steps (.init maxIDCount) calls pool) :
    pool.map.maxIDCount = maxIDCount ∧ pool.Partitioned := by
  have size : pool.map.maxIDCount = maxIDCount :=
    run.invariant (I := fun pool => pool.map.maxIDCount = maxIDCount) rfl
      fun pool call _ same step => by rw [← step, step_maxIDCount, same]
  have accounted : Accounted pool :=
    run.invariant (init_accounted maxIDCount) fun _ _ _ accounted step =>
      step_accounted accounted step
  exact ⟨size, accounted.partitioned⟩

/-- One id is given back twice, another was never given. -/
def redundantCalls : List IDCall :=
  [.register 7, .register 8, .unRegister 1, .unRegister 1, .unRegister 5, .register 9]

theorem redundantCalls_shared : ∃ pool : IDPool, pool.registered = [(8, 2), (9, 3)] ∧
    pool.map.idleIdQueue = [1] ∧ pool.Partitioned := by
  have plays : (redundantCalls.foldl IDPool.step (.init 3)).registered = [(8, 2), (9, 3)] ∧
      (redundantCalls.foldl IDPool.step (.init 3)).map.idleIdQueue = [1] := by
    decide
  have run : Run IDPool.Steps (.init 3) redundantCalls (redundantCalls.foldl IDPool.step (.init 3)) :=
    .of_foldl ..
  exact ⟨_, plays.1, plays.2, (run_shared run).2⟩

end Cgsf.Proof.CGSFNet
