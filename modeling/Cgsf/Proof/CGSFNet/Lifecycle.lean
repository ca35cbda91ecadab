import Cgsf.Proof.CGSFNet.Registration

/-!
# The life of a connection

As long as the timer deletes only services that have told the engine, and nobody looks at an id
before its service has a session service, ids and services agree.
-/

namespace Cgsf.Proof.CGSFNet
open Cgsf.CGSFNet Cgsf.CGSFNet.Network Library Std

variable {n n' : Network} {action : Action} {p : ServiceRef}

/-- The DISCONNECT commands of a service. -/
def notices (queue : List Command) (p : ServiceRef) : List Command :=
  queue.filter fun command => command.service = p ∧ command.connects = false

def owed (service : ProactorService) (p : ServiceRef) : List Command :=
  if notified service.point = true then [⟨service.serial, false, p⟩] else []

theorem owed_none {service : ProactorService} (untold : notified service.point = false) :
    owed service p = [] := by
  rw [owed, if_neg]
  rw [untold]
  exact nofun

structure Lively (n : Network) : Prop extends Registry n where
  serves : ∀ p, holding (n.services p).point = true →
    (n.services p).deleted = false ∧ (n.services p).sessionService = true
  gone : ∀ p, (n.services p).deleted = true →
    (n.services p).point = .refused ∨ notified (n.services p).point = true
  told : ∀ p, notices n.queue p = owed (n.services p) p
  inside : ∀ p, given (n.services p).point = true →
    1 ≤ (n.services p).serial ∧ (n.services p).serial ≤ n.manager.maxIDCount

theorem notified_not_holding {point : Point} (told : notified point = true) :
    holding point = false ∧ given point = true := by
  cases point with
  | disconnected | released | closed => exact ⟨rfl, rfl⟩
  | _ => contradiction

theorem Lively.sound (lively : Lively n) : Sound n where
  live := fun id p found => lively.serves p ((lively.bound id p).mp found).1
  returned := fun p deleted here => by
    have told : notified (n.services p).point = true := (lively.gone p deleted).resolve_left
      fun refused => by
        rw [refused] at here
        contradiction
    refine ⟨?_, ?_⟩
    · refine ((lively.range _).mpr (lively.inside p here)).imp_right fun taken => ?_
      obtain ⟨q, found⟩ := Option.ne_none_iff_exists'.mp taken
      refine ⟨q, ?_, found⟩
      rintro rfl
      have holds := ((lively.bound _ q).mp found).1
      rw [(notified_not_holding told).1] at holds
      contradiction
    · have once := lively.told p
      rw [owed, if_pos told] at once
      have same : n.queue.count ⟨(n.services p).serial, false, p⟩ =
          (notices n.queue p).count ⟨(n.services p).serial, false, p⟩ :=
        (List.count_filter (by simp)).symm
      rw [same, once, List.count_singleton_self]

theorem Sound.sendRequest (sound : Sound n) (serial : Int) : n.sendRequest serial = some n := by
  rw [Network.sendRequest]
  cases found : n.manager.get serial with
  | none => rfl
  | some p =>
      obtain ⟨present, served⟩ := sound.live serial p found
      simp only [present, served, Bool.false_eq_true, Bool.true_eq_false, or_self, if_false]

theorem notices_append (queue commands : List Command) (p : ServiceRef) :
    notices (queue ++ commands) p = notices queue p ++ notices commands p :=
  List.filter_append ..

theorem Local.notices_other {service service' : ProactorService} {commands : List Command}
    (moved : Local p service action commands service') {q : ServiceRef} (other : q ≠ p) :
    notices commands q = [] := by
  cases moved with
  | connected | disconnected => simp [notices, Ne.symm other]
  | _ => rfl

/-- What a service that is still found, or that has told the engine, keeps. -/
structure Keeps (n : Network) (p : ServiceRef) (commands : List Command)
    (service : ProactorService) : Prop where
  serves : holding service.point = true →
    service.deleted = false ∧ service.sessionService = true
  gone : service.deleted = true → service.point = .refused ∨ notified service.point = true
  told : notices n.queue p ++ notices commands p = owed service p
  inside : given service.point = true →
    1 ≤ service.serial ∧ service.serial ≤ n.manager.maxIDCount

theorem notices_nil : notices [] p = [] := rfl

theorem notices_connect (serial : Int) : notices [⟨serial, true, p⟩] p = [] := by simp [notices]

theorem notices_disconnect (serial : Int) :
    notices [⟨serial, false, p⟩] p = [⟨serial, false, p⟩] := by simp [notices]

theorem Local.keeps (lively : Lively n) {commands : List Command} {service : ProactorService}
    (careful : n.Careful action) (moved : Local p (n.services p) action commands service) :
    Keeps n p commands service := by
  have serves := lively.serves p
  have gone := lively.gone p
  have inside := lively.inside p
  have untold {service' : ProactorService} (before : notified (n.services p).point = false)
      (after : notified service'.point = false) : notices n.queue p = owed service' p := by
    rw [lively.told p, owed_none before, owed_none after]
  cases moved with
  | refused serial handle early =>
      refine ⟨nofun, fun _ => .inl rfl, ?_, nofun⟩
      rw [notices_nil, List.append_nil]
      rcases early with here | here <;> exact untold (by rw [here]; rfl) rfl
  | opened here =>
      rw [here] at gone
      refine ⟨nofun, fun deleted => (gone deleted).elim nofun nofun, ?_, nofun⟩
      rw [notices_nil, List.append_nil]
      exact untold (by rw [here]; rfl) rfl
  | timed here =>
      rw [here] at serves gone inside
      refine ⟨fun _ => serves rfl, fun deleted => (gone deleted).elim nofun nofun, ?_,
        fun _ => inside rfl⟩
      rw [notices_nil, List.append_nil]
      exact untold (by rw [here]; rfl) rfl
  | served here =>
      rw [here] at serves gone inside
      refine ⟨fun _ => ⟨(serves rfl).1, rfl⟩, fun deleted => (gone deleted).elim nofun nofun, ?_,
        fun _ => inside rfl⟩
      rw [notices_nil, List.append_nil]
      exact untold (by rw [here]; rfl) rfl
  | connected here =>
      rw [here] at serves gone inside
      refine ⟨fun _ => serves rfl, fun deleted => (gone deleted).elim nofun nofun, ?_,
        fun _ => inside rfl⟩
      rw [notices_connect, List.append_nil]
      exact untold (by rw [here]; rfl) rfl
  | reads point here there =>
      rcases here with here | here | here
      all_goals
        rw [here] at serves gone inside
        refine ⟨fun _ => serves rfl, fun deleted => (gone deleted).elim nofun nofun, ?_,
          fun _ => inside rfl⟩
        rw [notices_nil, List.append_nil]
        rcases there with rfl | rfl | rfl <;> exact untold (by rw [here]; rfl) rfl
  | disconnected here =>
      rw [here] at gone inside
      refine ⟨nofun, fun deleted => (gone deleted).elim nofun nofun, ?_, fun _ => inside rfl⟩
      rw [notices_disconnect, lively.told p, owed_none (by rw [here]; rfl)]
      rfl
  | released here =>
      rw [here] at inside
      refine ⟨nofun, fun _ => .inr rfl, ?_, fun _ => inside rfl⟩
      rw [notices_nil, List.append_nil, lively.told p, owed, if_pos (by rw [here]; rfl)]
      rfl
  | closed here =>
      rw [here] at inside
      refine ⟨nofun, fun _ => .inr rfl, ?_, fun _ => inside rfl⟩
      rw [notices_nil, List.append_nil, lively.told p, owed, if_pos (by rw [here]; rfl)]
      rfl
  | deleted timer flag present =>
      have ended : notified (n.services p).point = true := careful flag
      refine ⟨fun holds => ?_, fun _ => .inr ended, ?_, inside⟩
      · have never := (notified_not_holding ended).1
        rw [show holding (n.services p).point = true from holds] at never
        contradiction
      · rw [notices_nil, List.append_nil, lively.told p]
        rfl
  | disconnects =>
      refine ⟨serves, gone, ?_, inside⟩
      rw [notices_nil, List.append_nil, lively.told p]
      rfl

theorem Lively.moves (lively : Lively n) {commands : List Command} {service : ProactorService}
    (careful : n.Careful action) (moved : Local p (n.services p) action commands service)
    (currentSessionCnt : Int) (registry : Registry { n with
      services := Function.update n.services p service
      queue := n.queue ++ commands, currentSessionCnt }) :
    Lively { n with
      services := Function.update n.services p service
      queue := n.queue ++ commands, currentSessionCnt } := by
  have keeps := moved.keeps lively careful
  refine ⟨registry, fun q => ?_, fun q => ?_, fun q => ?_, fun q => ?_⟩
  all_goals
    dsimp only
    by_cases me : q = p
    · subst me
      rw [Function.update_self]
      first
        | exact keeps.serves
        | exact keeps.gone
        | exact keeps.inside
        | rw [notices_append]
          exact keeps.told
    · rw [Function.update_of_ne me]
      first
        | exact lively.serves q
        | exact lively.gone q
        | exact lively.inside q
        | rw [notices_append, moved.notices_other me, List.append_nil]
          exact lively.told q

/-- A service that had no id changes its point. -/
theorem Lively.change (lively : Lively n) {service : ProactorService} (registry : Registry n')
    (services : n'.services = Function.update n.services p service) (queue : n'.queue = n.queue)
    (last : n'.manager.maxIDCount = n.manager.maxIDCount)
    (serves : holding service.point = true →
      service.deleted = false ∧ service.sessionService = true)
    (present : service.deleted = false) (early : notified (n.services p).point = false)
    (untold : notified service.point = false) (inside : given service.point = true →
      1 ≤ service.serial ∧ service.serial ≤ n.manager.maxIDCount) : Lively n' := by
  refine ⟨registry, fun q => ?_, fun q => ?_, fun q => ?_, fun q => ?_⟩
  all_goals
    rw [services]
    by_cases me : q = p
    · subst me
      rw [Function.update_self]
      first
        | exact serves
        | exact fun deleted => absurd deleted (by rw [present]; exact nofun)
        | rw [last]
          exact inside
        | rw [queue, lively.told q, owed_none early, owed_none untold]
    · rw [Function.update_of_ne me]
      first
        | exact lively.serves q
        | exact lively.gone q
        | rw [last]
          exact lively.inside q
        | rw [queue]
          exact lively.told q

theorem Lively.present (lively : Lively n) (early : (n.services p).point ≠ .refused)
    (untold : notified (n.services p).point = false) : (n.services p).deleted = false := by
  rw [Bool.eq_false_iff]
  intro deleted
  rcases lively.gone p deleted with refused | told
  · exact early refused
  · rw [told] at untold
    contradiction

theorem step_lively (lively : Lively n) (careful : n.Careful action) (step : n.Steps action n') :
    Lively n' := by
  have registry := step_registry lively.toRegistry step
  cases step_effect lively.valid step with
  | stays => exact lively
  | made =>
      have fresh := lively.absent n.made (Nat.le_refl _)
      exact lively.change registry rfl rfl rfl (fun never => absurd never Bool.false_ne_true) rfl
        (by rw [fresh]; rfl) rfl fun never => absurd never Bool.false_ne_true
  | moves p here => exact lively.moves careful here _ registry
  | registers p here first =>
      have empty : n.manager.idleIdQueue = [] := careful
      rw [empty] at first
      contradiction
  | enters p here first =>
      have present := lively.present (p := p) (by rw [here]; decide) (by rw [here]; rfl)
      have inside := (lively.range _).mp (.inl (by rw [first]; exact List.mem_cons_self))
      exact lively.change registry rfl rfl rfl (fun _ => ⟨present, rfl⟩) present (by rw [here]; rfl)
        rfl fun _ => inside
  | leaves p here =>
      have holds := lively.serves p (by rw [here]; rfl)
      have last : (n.manager.unRegister (n.services p).serial).maxIDCount = n.manager.maxIDCount := by
        rw [SFIDMap.unRegister]
        split <;> rfl
      exact lively.change registry rfl rfl last (fun never => absurd never Bool.false_ne_true)
        holds.1 (by rw [here]; rfl) rfl fun _ => lively.inside p (by rw [here]; rfl)

/-- Without an id there is neither a session service nor a timer. -/
def Early (n : Network) : Prop :=
  ∀ p, given (n.services p).point = false →
    (n.services p).sessionService = false ∧ (n.services p).timer = false

theorem Local.early {service service' : ProactorService} {commands : List Command}
    (moved : Local p service action commands service')
    (before : given service.point = false → service.sessionService = false ∧ service.timer = false)
    (after : given service'.point = false) :
    service'.sessionService = false ∧ service'.timer = false := by
  cases moved with
  | refused serial handle early =>
      refine before ?_
      rcases early with here | here <;> rw [here] <;> rfl
  | opened here => exact before (by rw [here]; rfl)
  | reads point here there => rcases there with rfl | rfl | rfl <;> contradiction
  | timed | served | connected | disconnected | released | closed => contradiction
  | deleted => exact ⟨(before after).1, rfl⟩
  | disconnects => exact before after

theorem step_early (registry : Registry n) (early : Early n) (step : n.Steps action n') :
    Early n' := by
  intro q
  cases step_effect registry.valid step with
  | stays => exact early q
  | made =>
      rw [makeHandler_services]
      split
      · exact fun _ => ⟨rfl, rfl⟩
      · exact early q
  | moves p here =>
      dsimp only
      by_cases me : q = p
      · subst me
        rw [Function.update_self]
        exact here.early (early q)
      · rw [Function.update_of_ne me]
        exact early q
  | registers p here first | enters p here first | leaves p here =>
      dsimp only
      by_cases me : q = p
      · subst me
        rw [Function.update_self]
        intro never
        contradiction
      · rw [Function.update_of_ne me]
        exact early q

theorem register_unsound (lively : Lively n) (early : Early n) (run : n.register p = some n')
    (sound : Sound n') : n.manager.idleIdQueue = [] := by
  obtain ⟨here, ⟨empty, -⟩ | ⟨id, idleIdQueue, first, rfl⟩⟩ := register_cases lively.valid run
  · exact empty
  · have free := lively.idle id (by rw [first]; exact List.mem_cons_self)
    have served := (sound.live id p (by rw [get_insert free, if_pos rfl])).2
    simp only [Function.update_self] at served
    rw [(early p (by rw [here]; rfl)).1] at served
    contradiction

theorem handleTimeOut_unsound (lively : Lively n) (early : Early n)
    (run : n.handleTimeOut p = some n') (sound : Sound n')
    (flag : (n.services p).serviceCloseFlag = true) : notified (n.services p).point = true := by
  by_contra untold
  rw [Bool.not_eq_true] at untold
  rw [Network.handleTimeOut, if_pos flag] at run
  split at run
  · rename_i due
    rw [delete_modify] at run
    obtain rfl := Option.some.inj run
    have here : given (n.services p).point = true := by
      by_contra never
      rw [(early p (Bool.eq_false_iff.mpr never)).2] at due
      exact absurd due.1 Bool.false_ne_true
    have told := (sound.returned p (by simp only [Function.update_self])
      (by simp only [Function.update_self]; exact here)).2
    simp only [Function.update_self] at told
    have none := lively.told p
    rw [owed_none untold] at none
    have member := List.count_pos_iff.mp (told ▸ Nat.one_pos)
    have listed : (⟨(n.services p).serial, false, p⟩ : Command) ∈ notices n.queue p :=
      List.mem_filter.mpr ⟨member, by simp⟩
    rw [none] at listed
    contradiction
  · contradiction

theorem step_sound_iff (lively : Lively n) (early : Early n) (step : n.Steps action n') :
    Sound n' ↔ n.Careful action := by
  refine ⟨fun sound => ?_, fun careful => (step_lively lively careful step).sound⟩
  cases action with
  | register p => exact register_unsound lively early step sound
  | handleTimeOut p => exact handleTimeOut_unsound lively early step sound
  | _ => trivial

theorem init_lively (maxIDCount : Nat) (maxUserAccept : Int) :
    Lively (Network.init maxIDCount maxUserAccept) :=
  ⟨init_registry maxIDCount maxUserAccept, fun _ => nofun, fun _ => nofun, fun _ => rfl, fun _ => nofun⟩

theorem run_lively {maxIDCount : Nat} {maxUserAccept : Int} {actions : List Action}
    (run : Run (Guarded Network.Careful Network.Steps) (Network.init maxIDCount maxUserAccept)
      actions n) : Lively n ∧ Early n := by
  refine @Run.invariant _ _ _ _ (fun n => Lively n ∧ Early n)
    ⟨init_lively maxIDCount maxUserAccept, fun _ _ => ⟨rfl, rfl⟩⟩ ?_ _ _ run
  rintro n action n' ⟨lively, early⟩ ⟨careful, step⟩
  exact ⟨step_lively lively careful step, step_early lively.toRegistry early step⟩

theorem run_alive {maxIDCount : Nat} {maxUserAccept : Int} {actions : List Action}
    (run : Run (Guarded Network.Careful Network.Steps) (Network.init maxIDCount maxUserAccept)
      actions n) : Sound n ∧ (∀ serial, n.sendRequest serial = some n) ∧
    ∀ action n', n.Steps action n' → (Sound n' ↔ n.Careful action) := by
  obtain ⟨lively, early⟩ := run_lively run
  exact ⟨lively.sound, Sound.sendRequest lively.sound, fun _ _ => step_sound_iff lively early⟩

/-- The logic disconnects a connection whose read has not completed when the timer fires. -/
def timerFirst : List Action :=
  [.accept, .open 0 true, .enter 0, .onConnect 0, .postRecv 0 true, .disconnect 1,
    .handleTimeOut 0]

theorem timerFirst_dangles : ∃ n, Run Network.Steps
    (Network.init maxCgsfConcurrentUser 5000) timerFirst n ∧ n.manager.get 1 = some 0 ∧
    (n.services 0).deleted = true ∧ n.sendRequest 1 = none ∧ ¬ Sound n := by
  have plays : (timerFirst.foldlM Network.step (Network.init maxCgsfConcurrentUser 5000)).map
      (fun n => (n.manager.get 1, (n.services 0).deleted)) = some (some 0, true) := by
    decide
  obtain ⟨n, result, is⟩ := Option.map_eq_some_iff.mp plays
  simp only [Prod.mk.injEq] at is
  refine ⟨n, .of_foldlM _ _ result, is.1, is.2, ?_, fun sound => ?_⟩
  · simp only [Network.sendRequest, is, true_or, if_true]
  · have present := (sound.live 1 0 is.1).1
    rw [is.2] at present
    contradiction

/-- A connection that ends by itself and is deleted, and another one. -/
def twoConnections : List Action :=
  [.accept, .open 0 true, .enter 0, .onConnect 0, .postRecv 0 true, .handleReadStream 0 .empty,
    .unRegister 0, .onDisconnect 0, .deleteSessionService 0, .setCloseFlag 0, .handleTimeOut 0,
    .accept, .open 1 true, .enter 1]

theorem twoConnections_sound : ∃ n, (n.services 0).deleted = true ∧ n.manager.get 2 = some 1 ∧
    Sound n ∧ n.sendRequest 2 = some n := by
  have plays : (twoConnections.foldlM (fun n action => if Careful n action then
      Network.step n action else none) (Network.init maxCgsfConcurrentUser 5000)).map (fun n =>
        ((n.services 0).deleted, n.manager.get 2)) = some (true, some 1) := by
    decide
  obtain ⟨n, result, is⟩ := Option.map_eq_some_iff.mp plays
  simp only [Prod.mk.injEq] at is
  have sound := run_alive (.guarded_of_foldlM Network.Careful _ _ result)
  exact ⟨n, is.1, is.2, sound.1, sound.2.1 2⟩

end Cgsf.Proof.CGSFNet
