import Cgsf.CGSFNet.ProactorService
import Cgsf.Library.Transition
import Mathlib.Data.List.Nodup
import Cgsf.Proof.CGSFNet.IDPool

/-!
# What an action does to a connection

`Effect` lists what can happen to the services, the ids and the queue in one action. In every run an
id is either idle or leads to the one service that holds it.
-/

namespace Cgsf.Proof.CGSFNet
open Cgsf.CGSFNet Cgsf.CGSFNet.Network Std

variable {n n' : Network} {action : Action} {p : ServiceRef}

/-- The service is found under its id. -/
def holding (point : Point) : Bool :=
  point ∈ [Point.registered, .timed, .served, .connected, .received, .reading, .closing]

inductive Local (p : ServiceRef) (service : ProactorService) :
    Action → List Command → ProactorService → Prop where
  | refused {action : Action} (serial : Int) (handle : Bool)
      (early : service.point = .accepted ∨ service.point = .opened) :
      Local p service action [] { service with point := .refused, serial, handle, deleted := true }
  | opened {action : Action} (here : service.point = .accepted) :
      Local p service action [] { service with point := .opened, serviceCloseFlag := false }
  | timed {action : Action} (here : service.point = .registered) :
      Local p service action [] { service with point := .timed, timer := true }
  | served {action : Action} (here : service.point = .timed) :
      Local p service action [] { service with point := .served, sessionService := true }
  | connected (here : service.point = .served) :
      Local p service (.onConnect p) [⟨service.serial, true, p⟩] { service with point := .connected }
  | reads {action : Action} (point : Point)
      (here : service.point = .connected ∨ service.point = .received ∨ service.point = .reading)
      (there : point = .received ∨ point = .reading ∨ point = .closing) :
      Local p service action [] { service with point }
  | disconnected {action : Action} (here : service.point = .unregistered) :
      Local p service action [⟨service.serial, false, p⟩]
        { service with point := .disconnected, handle := false }
  | released {action : Action} (here : service.point = .disconnected) :
      Local p service action [] { service with point := .released, sessionService := false }
  | closed {action : Action} (here : service.point = .released) :
      Local p service action [] { service with point := .closed, serviceCloseFlag := true }
  | deleted (timer : service.timer = true) (flag : service.serviceCloseFlag = true)
      (present : service.deleted = false) :
      Local p service (.handleTimeOut p) [] { service with timer := false, deleted := true }
  | disconnects {action : Action} :
      Local p service action [] { service with handle := false, serviceCloseFlag := true }

inductive Effect (n : Network) : Action → Network → Prop where
  | stays (action : Action) : Effect n action n
  | made : Effect n .accept n.makeHandler
  | moves {action : Action} {commands : List Command} {service : ProactorService} (p : ServiceRef)
      (here : Local p (n.services p) action commands service) (currentSessionCnt : Int) :
      Effect n action { n with
        services := Function.update n.services p service
        queue := n.queue ++ commands, currentSessionCnt }
  | registers {id : Int} {idleIdQueue : List Int} (p : ServiceRef)
      (here : (n.services p).point = .opened) (first : n.manager.idleIdQueue = id :: idleIdQueue) :
      Effect n (.register p) { n with
        manager := { n.manager with idleIdQueue, idMap := n.manager.idMap.insertIfNew id p }
        services := Function.update n.services p
          { n.services p with point := .registered, serial := id } }
  | enters {id : Int} {idleIdQueue : List Int} (p : ServiceRef)
      (here : (n.services p).point = .opened) (first : n.manager.idleIdQueue = id :: idleIdQueue) :
      Effect n (.enter p) { n with
        manager := { n.manager with idleIdQueue, idMap := n.manager.idMap.insertIfNew id p }
        services := Function.update n.services p
          { n.services p with
            point := .served, serial := id, timer := true, sessionService := true } }
  | leaves (p : ServiceRef) (here : (n.services p).point = .closing) :
      Effect n (.unRegister p) { n with
        manager := n.manager.unRegister (n.services p).serial
        services := Function.update n.services p { n.services p with point := .unregistered } }

theorem advance_spec {before : Point} {f : ProactorService → ProactorService}
    (run : n.advance p before f = some n') :
    (n.services p).point = before ∧ n' = n.modify p f := by
  rw [Network.advance] at run
  split at run
  · rename_i here
    exact ⟨here, (Option.some.inj run).symm⟩
  · contradiction

theorem Effect.of_local {service : ProactorService} {commands : List Command}
    (here : Local p (n.services p) action commands service)
    (is : n' = { n with
      services := Function.update n.services p service
      queue := n.queue ++ commands, currentSessionCnt := n'.currentSessionCnt }) :
    Effect n action n' := is ▸ .moves p here n'.currentSessionCnt

theorem Effect.of_quiet {service : ProactorService} (here : Local p (n.services p) action [] service)
    (is : n' = { n with
      services := Function.update n.services p service
      currentSessionCnt := n'.currentSessionCnt }) : Effect n action n' :=
  .of_local here (by rw [is, List.append_nil])

theorem delete_modify (f : ProactorService → ProactorService) :
    (n.modify p f).delete p = { n with
      services := Function.update n.services p { f (n.services p) with deleted := true }
      currentSessionCnt := n.currentSessionCnt - 1 } := by
  simp only [Network.delete, Network.modify, Function.update_self, Function.update_idem]

/-- `Register` for a service that waits for its id. -/
theorem register_cases (valid : ∀ id ∈ n.manager.idleIdQueue, id ≠ invalidId)
    (run : n.register p = some n') : (n.services p).point = .opened ∧
      (n.manager.idleIdQueue = [] ∧ n' = { n with
          services := Function.update n.services p
            { n.services p with
              point := .refused, serial := invalidId, handle := false, deleted := true }
          currentSessionCnt := n.currentSessionCnt - 1 } ∨
        ∃ id idleIdQueue, n.manager.idleIdQueue = id :: idleIdQueue ∧ n' = { n with
          manager := { n.manager with idleIdQueue, idMap := n.manager.idMap.insertIfNew id p }
          services := Function.update n.services p
            { n.services p with point := .registered, serial := id } }) := by
  rw [Network.register, SFIDMap.register] at run
  cases idle : n.manager.idleIdQueue with
  | nil =>
      simp only [idle, if_true] at run
      obtain ⟨m, advanced, rfl⟩ := Option.map_eq_some_iff.mp run
      obtain ⟨here, rfl⟩ := advance_spec advanced
      exact ⟨here, .inl ⟨rfl, delete_modify _⟩⟩
  | cons id idleIdQueue =>
      have other : id ≠ invalidId := valid id (by rw [idle]; exact List.mem_cons_self)
      simp only [idle, if_neg other] at run
      obtain ⟨here, rfl⟩ := advance_spec run
      exact ⟨here, .inr ⟨id, idleIdQueue, rfl, rfl⟩⟩

theorem openStreams_effect {streams : Bool} (run : n.openStreams p streams = some n') :
    Effect n action n' := by
  rw [Network.openStreams] at run
  split at run
  · obtain ⟨m, advanced, rfl⟩ := Option.map_eq_some_iff.mp run
    obtain ⟨here, rfl⟩ := advance_spec advanced
    exact .of_quiet (.refused (n.services p).serial (n.services p).handle (.inl here))
      (delete_modify _)
  · split at run
    · obtain ⟨m, advanced, rfl⟩ := Option.map_eq_some_iff.mp run
      obtain ⟨here, rfl⟩ := advance_spec advanced
      exact .of_quiet (.refused (n.services p).serial false (.inl here)) (delete_modify _)
    · obtain ⟨here, rfl⟩ := advance_spec run
      exact .of_quiet (.opened here) rfl

theorem register_effect (valid : ∀ id ∈ n.manager.idleIdQueue, id ≠ invalidId)
    (run : n.register p = some n') : Effect n (.register p) n' := by
  obtain ⟨here, ⟨-, rfl⟩ | ⟨id, idleIdQueue, first, rfl⟩⟩ := register_cases valid run
  · exact .of_quiet (.refused invalidId false (.inr here)) rfl
  · exact .registers p here first

theorem enter_effect (valid : ∀ id ∈ n.manager.idleIdQueue, id ≠ invalidId)
    (run : n.enter p = some n') : Effect n (.enter p) n' := by
  obtain ⟨m, registered, run⟩ := Option.bind_eq_some_iff.mp run
  obtain ⟨here, ⟨-, rfl⟩ | ⟨id, idleIdQueue, first, rfl⟩⟩ := register_cases valid registered
  · simp only [Function.update_self, reduceCtorEq, if_false] at run
    obtain rfl := Option.some.inj run
    exact .of_quiet (.refused invalidId false (.inr here)) rfl
  · simp only [Function.update_self, if_true] at run
    obtain ⟨timed, timer, created⟩ := Option.bind_eq_some_iff.mp run
    obtain ⟨-, rfl⟩ := advance_spec timer
    obtain ⟨-, rfl⟩ := advance_spec created
    simp only [Network.modify, Function.update_self, Function.update_idem]
    exact .enters p here first

theorem postRecv_effect {posted : Bool} (run : n.postRecv p posted = some n') :
    Effect n action n' := by
  rw [Network.postRecv] at run
  split at run
  · rename_i here
    have at_reads : (n.services p).point = .connected ∨ (n.services p).point = .received ∨
        (n.services p).point = .reading := here.imp_right .inl
    split at run
    · obtain rfl := Option.some.inj run
      exact .of_quiet (.reads .closing at_reads (.inr (.inr rfl))) rfl
    · split at run
      · obtain rfl := Option.some.inj run
        exact .of_quiet (.reads .reading at_reads (.inr (.inl rfl))) rfl
      · contradiction
  · contradiction

theorem handleReadStream_effect {result : ReadResult}
    (run : n.handleReadStream p result = some n') : Effect n action n' := by
  rw [Network.handleReadStream] at run
  split at run
  · contradiction
  · obtain ⟨here, rfl⟩ := advance_spec run
    refine .of_quiet (.reads _ (.inr (.inr here)) ?_) rfl
    split
    · exact .inl rfl
    · exact .inr (.inr rfl)

theorem handleTimeOut_effect (run : n.handleTimeOut p = some n') :
    Effect n (.handleTimeOut p) n' := by
  rw [Network.handleTimeOut] at run
  split at run
  · rename_i due
    split at run
    · rename_i flag
      obtain rfl := Option.some.inj run
      exact .of_quiet (.deleted due.1 flag due.2) (delete_modify _)
    · obtain rfl := Option.some.inj run
      exact .stays _
  · contradiction

theorem disconnect_effect {serial : Int} (run : n.disconnect serial = some n') :
    Effect n action n' := by
  rw [Network.disconnect] at run
  split at run
  · obtain rfl := Option.some.inj run
    exact .stays _
  · split at run
    · contradiction
    · obtain rfl := Option.some.inj run
      exact .of_quiet .disconnects rfl

theorem step_effect (valid : ∀ id ∈ n.manager.idleIdQueue, id ≠ invalidId)
    (step : n.Steps action n') : Effect n action n' := by
  cases action with
  | accept =>
      obtain rfl := Option.some.inj step
      exact .made
  | «open» p streams => exact openStreams_effect step
  | register p => exact register_effect valid step
  | enter p => exact enter_effect valid step
  | registerTimer p =>
      obtain ⟨here, rfl⟩ := advance_spec step
      exact .of_quiet (.timed here) rfl
  | createSessionService p =>
      obtain ⟨here, rfl⟩ := advance_spec step
      exact .of_quiet (.served here) rfl
  | onConnect p =>
      obtain ⟨m, advanced, rfl⟩ := Option.map_eq_some_iff.mp step
      obtain ⟨here, rfl⟩ := advance_spec advanced
      exact .of_local (.connected here) rfl
  | postRecv p posted => exact postRecv_effect step
  | handleReadStream p result => exact handleReadStream_effect step
  | unRegister p =>
      obtain ⟨m, advanced, rfl⟩ := Option.map_eq_some_iff.mp step
      obtain ⟨here, rfl⟩ := advance_spec advanced
      have leaves := Effect.leaves p here
      simp only [Network.modify, Function.update_self]
      exact leaves
  | onDisconnect p =>
      obtain ⟨m, advanced, rfl⟩ := Option.map_eq_some_iff.mp step
      obtain ⟨here, rfl⟩ := advance_spec advanced
      exact .of_local (.disconnected here) rfl
  | deleteSessionService p =>
      obtain ⟨here, rfl⟩ := advance_spec step
      exact .of_quiet (.released here) rfl
  | setCloseFlag p =>
      obtain ⟨here, rfl⟩ := advance_spec step
      exact .of_quiet (.closed here) rfl
  | handleTimeOut p => exact handleTimeOut_effect step
  | disconnect serial => exact disconnect_effect step

/-- Ids from one to the last are shared out between the idle queue and the services. -/
structure Registry (n : Network) : Prop where
  absent : ∀ p, n.made ≤ p → (n.services p).point = .absent
  nodup : n.manager.idleIdQueue.Nodup
  idle : ∀ id ∈ n.manager.idleIdQueue, n.manager.get id = none
  range : ∀ id, (id ∈ n.manager.idleIdQueue ∨ n.manager.get id ≠ none) ↔
    1 ≤ id ∧ id ≤ n.manager.maxIDCount
  bound : ∀ id p, n.manager.get id = some p ↔
    holding (n.services p).point = true ∧ (n.services p).serial = id

theorem Registry.shares (registry : Registry n) : SharesIds n.manager :=
  ⟨registry.nodup, registry.idle, registry.range⟩

theorem Registry.valid (registry : Registry n) : ∀ id ∈ n.manager.idleIdQueue, id ≠ invalidId :=
  registry.shares.valid

theorem makeHandler_services (n : Network) (q : ServiceRef) :
    n.makeHandler.services q = if q = n.made then { point := .accepted } else n.services q := by
  simp only [Network.makeHandler, Network.modify, Function.update_apply]

theorem Registry.made_of_point (registry : Registry n) (here : (n.services p).point ≠ .absent) :
    p < n.made := by
  by_contra beyond
  exact here (registry.absent p (Nat.le_of_not_lt beyond))

theorem Local.frame {service service' : ProactorService} {commands : List Command}
    (moved : Local p service action commands service') :
    holding service'.point = holding service.point ∧
      (holding service.point = true → service'.serial = service.serial) ∧
      (service.point = .absent → service'.point = .absent) := by
  cases moved with
  | refused serial handle early =>
      rcases early with here | here <;> simp [holding, here]
  | opened here | timed here | served here | connected here | disconnected here | released here
  | closed here => simp [holding, here]
  | reads point here there =>
      rcases here with here | here | here <;> rcases there with rfl | rfl | rfl <;>
        simp [holding, here]
  | deleted | disconnects => exact ⟨rfl, fun _ => rfl, id⟩

/-- The ids stay as they are. -/
theorem Registry.of_same (registry : Registry n) (manager : n'.manager = n.manager)
    (absent : ∀ p, n'.made ≤ p → (n'.services p).point = .absent)
    (services : ∀ p, holding (n'.services p).point = holding (n.services p).point ∧
      (holding (n.services p).point = true → (n'.services p).serial = (n.services p).serial)) :
    Registry n' where
  absent := absent
  nodup := by
    rw [manager]
    exact registry.nodup
  idle := by
    rw [manager]
    exact registry.idle
  range := by
    rw [manager]
    exact registry.range
  bound := fun id p => by
    rw [manager, registry.bound, (services p).1]
    refine and_congr_right fun holds => ?_
    rw [(services p).2 holds]

/-- The first idle id goes to a service that has none. -/
theorem Registry.register (registry : Registry n) {id : Int} {idleIdQueue : List Int}
    (here : (n.services p).point = .opened) (first : n.manager.idleIdQueue = id :: idleIdQueue)
    {service : ProactorService} (holds : holding service.point = true) (mine : service.serial = id) :
    Registry { n with
      manager := { n.manager with idleIdQueue, idMap := n.manager.idMap.insertIfNew id p }
      services := Function.update n.services p service } := by
  have free := registry.idle id (by rw [first]; exact List.mem_cons_self)
  have shares := registry.shares.bind first p
  have below := registry.made_of_point (p := p) (by rw [here]; exact nofun)
  refine ⟨fun q beyond => ?_, shares.nodup, shares.idle, shares.range, fun k q => ?_⟩
  · have other : q ≠ p := fun same => absurd (same ▸ beyond) (Nat.not_le_of_lt below)
    dsimp only
    rw [Function.update_of_ne other]
    exact registry.absent q beyond
  · have before := registry.bound k q
    dsimp only
    rw [get_insert free]
    by_cases me : q = p
    · subst me
      rw [Function.update_self, and_iff_right holds, mine]
      have unbound : n.manager.get k ≠ some q := fun found => by
        have holds := (before.mp found).1
        rw [here] at holds
        contradiction
      by_cases same : k = id
      · simp [same]
      · rw [if_neg same]
        exact ⟨fun found => absurd found unbound, fun is => absurd is.symm same⟩
    · rw [Function.update_of_ne me]
      by_cases same : k = id
      · subst same
        rw [if_pos rfl, ← before, free]
        exact ⟨fun is => absurd (Option.some.inj is).symm me, nofun⟩
      · rw [if_neg same]
        exact before

theorem Registry.held (registry : Registry n) (holds : holding (n.services p).point = true) :
    (n.services p).serial ∈ n.manager.idMap ∧
      n.manager.isValidId (n.services p).serial = true := by
  have found := (registry.bound (n.services p).serial p).mpr ⟨holds, rfl⟩
  have bound : n.manager.get (n.services p).serial ≠ none := by
    rw [found]
    exact Option.some_ne_none p
  exact ⟨mem_idMap_iff.mpr bound, registry.shares.isValidId bound⟩

/-- A service that closes gives its id back. -/
theorem Registry.unRegister (registry : Registry n) (here : (n.services p).point = .closing) :
    Registry { n with
      manager := n.manager.unRegister (n.services p).serial
      services := Function.update n.services p { n.services p with point := .unregistered } } ∧
    (n.manager.unRegister (n.services p).serial).idleIdQueue =
      n.manager.idleIdQueue ++ [(n.services p).serial] ∧
    ∀ k, (n.manager.unRegister (n.services p).serial).get k =
      if k = (n.services p).serial then none else n.manager.get k := by
  generalize serial : (n.services p).serial = id
  have found : n.manager.get id = some p := (registry.bound id p).mpr ⟨by rw [here]; rfl, serial⟩
  have bound : n.manager.get id ≠ none := by
    rw [found]
    exact Option.some_ne_none p
  have left := registry.shares.unRegister_eq bound
  have get (k : Int) : (n.manager.unRegister id).get k = if k = id then none else n.manager.get k := by
    rw [left, get_erase]
  have queue : (n.manager.unRegister id).idleIdQueue = n.manager.idleIdQueue ++ [id] := by rw [left]
  have shares := registry.shares.unRegister id
  have below := registry.made_of_point (p := p) (by rw [here]; exact nofun)
  refine ⟨⟨fun q beyond => ?_, shares.nodup, shares.idle, shares.range, fun k q => ?_⟩, queue, get⟩
  · have other : q ≠ p := fun same => absurd (same ▸ beyond) (Nat.not_le_of_lt below)
    dsimp only
    rw [Function.update_of_ne other]
    exact registry.absent q beyond
  · have before := registry.bound k q
    dsimp only
    rw [get]
    by_cases me : q = p
    · subst me
      rw [Function.update_self]
      by_cases same : k = id
      · rw [if_pos same]
        exact ⟨nofun, fun both => nomatch both.1⟩
      · rw [if_neg same]
        refine ⟨fun there => ?_, fun both => nomatch both.1⟩
        exact absurd ((before.mp there).2.symm.trans serial) same
    · rw [Function.update_of_ne me]
      by_cases same : k = id
      · subst same
        rw [if_pos rfl, ← before, found]
        exact ⟨nofun, fun is => absurd (Option.some.inj is).symm me⟩
      · rw [if_neg same]
        exact before

theorem step_registry (registry : Registry n) (step : n.Steps action n') : Registry n' := by
  cases step_effect registry.valid step with
  | stays => exact registry
  | made =>
      have fresh := registry.absent n.made (Nat.le_refl _)
      refine registry.of_same rfl (fun q beyond => ?_) fun q => ?_
      · rw [makeHandler_services, if_neg (Nat.ne_of_gt beyond)]
        exact registry.absent q (Nat.le_of_lt beyond)
      · rw [makeHandler_services]
        split
        · rename_i new
          rw [new, fresh]
          exact ⟨rfl, nofun⟩
        · exact ⟨rfl, fun _ => rfl⟩
  | moves p here =>
      obtain ⟨holds, serial, absent⟩ := here.frame
      refine registry.of_same rfl (fun q beyond => ?_) fun q => ?_
      all_goals
        dsimp only
        by_cases me : q = p
        · subst me
          rw [Function.update_self]
          first | exact absent (registry.absent q beyond) | exact ⟨holds, serial⟩
        · rw [Function.update_of_ne me]
          first | exact registry.absent q beyond | exact ⟨rfl, fun _ => rfl⟩
  | registers p here first => exact registry.register here first rfl rfl
  | enters p here first => exact registry.register here first rfl rfl
  | leaves p here => exact (registry.unRegister here).1

theorem init_registry (maxIDCount : Nat) (maxUserAccept : Int) :
    Registry (Network.init maxIDCount maxUserAccept) where
  absent := fun _ _ => rfl
  nodup := (SharesIds.init maxIDCount).nodup
  idle := (SharesIds.init maxIDCount).idle
  range := (SharesIds.init maxIDCount).range
  bound := fun id p => by
    refine ⟨fun found => ?_, fun both => nomatch both.1⟩
    change (∅ : TreeMap Int ServiceRef)[id]? = some p at found
    simp at found

end Cgsf.Proof.CGSFNet
