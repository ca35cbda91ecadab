import Cgsf.Engine.ServerConnectionManager
import Cgsf.Proof.CGSFNet.Lifecycle

/-!
# What an action of the network does to the connections of connectors

A connection is held from `Register` until the logic has processed its DISCONNECT. Only a service
that asks for its id becomes held.
-/

namespace Cgsf.Proof.Engine.SFServerConnectionManager
open Cgsf.Engine Cgsf.Engine.SFServerConnectionManager Cgsf.CGSFNet Cgsf.Proof.CGSFNet

variable {n n' : Network} {action : Action} {p q : ServiceRef} {processed : Nat}
  {commands : List Command} {service service' : ProactorService}

/-- The service has its id, or has given it back and not said so yet. -/
def entered (point : Point) : Bool := holding point || point = .unregistered

/-- The service has not asked for its id yet. -/
def Young (point : Point) : Prop := point = .accepted ∨ point = .opened

/-- Every service that has ended has said so once, and no other has. -/
def Told (n : Network) : Prop := ∀ p, notices n.queue p = owed (n.services p) p

def heldAt (n : Network) (processed : Nat) (p : ServiceRef) : Bool :=
  entered (n.services p).point || announces (n.queue.drop processed) p

theorem announces_append (before after : List Command) (p : ServiceRef) :
    announces (before ++ after) p = (announces before p || announces after p) := List.any_append ..

theorem announces_iff : announces commands p = true ↔ notices commands p ≠ [] := by
  rw [announces, List.any_eq_true, notices, ne_eq, List.filter_eq_nil_iff]
  push Not
  simp only [decide_eq_true_eq]

theorem announces_of_notices (none : notices commands p = []) : announces commands p = false := by
  rw [Bool.eq_false_iff, ne_eq, announces_iff, none]
  exact not_not.mpr rfl

/-- What an action says is about the service that acts, and that service stays as held as it was. -/
theorem Local.announces (moved : Local p service action commands service') :
    (entered service'.point || SFServerConnectionManager.announces commands p) =
      entered service.point := by
  cases moved with
  | refused serial handle early =>
      rcases early with here | here <;> rw [here] <;> rfl
  | opened here | timed here | served here | released here | closed here =>
      rw [here]
      rfl
  | connected here | disconnected here =>
      rw [here]
      simp [SFServerConnectionManager.announces, entered, holding]
  | reads point here there =>
      rcases here with here | here | here <;> rcases there with rfl | rfl | rfl <;>
        rw [here] <;> rfl
  | deleted | disconnects => exact Bool.or_false _

theorem Local.owed (moved : Local p service action commands service') :
    owed service' p = CGSFNet.owed service p ++ notices commands p := by
  cases moved with
  | refused serial handle early =>
      rcases early with here | here <;> simp [CGSFNet.owed, notified, here, notices_nil]
  | opened here | timed here | served here | released here | closed here =>
      simp [CGSFNet.owed, notified, here, notices_nil]
  | connected here =>
      simp [CGSFNet.owed, notified, here, notices_connect]
  | disconnected here =>
      simp [CGSFNet.owed, notified, here, notices_disconnect]
  | reads point here there =>
      rcases here with here | here | here <;> rcases there with rfl | rfl | rfl <;>
        simp [CGSFNet.owed, notified, here, notices_nil]
  | deleted | disconnects => exact (List.append_nil _).symm

theorem Local.grows (moved : Local p service action commands service')
    (young : Young service'.point) : Young service.point := by
  cases moved with
  | opened here => exact .inl here
  | reads point here there =>
      rcases there with rfl | rfl | rfl <;> rcases young with is | is <;> cases is
  | deleted | disconnects => exact young
  | _ => rcases young with is | is <;> cases is

theorem Local.gone (moved : Local p service action commands service')
    (before : service.deleted = true → service.point = .refused ∨ notified service.point = true)
    (careful : action = .handleTimeOut p → service.serviceCloseFlag = true →
      notified service.point = true)
    (deleted : service'.deleted = true) :
    service'.point = .refused ∨ notified service'.point = true := by
  cases moved with
  | refused => exact .inl rfl
  | disconnected | released | closed => exact .inr rfl
  | opened here | timed here | served here | connected here =>
      rw [here] at before
      rcases before deleted with is | is <;> cases is
  | reads point here there =>
      rcases here with here | here | here
      all_goals
        rw [here] at before
        rcases before deleted with is | is <;> cases is
  | deleted timer flag present => exact .inr (careful rfl flag)
  | disconnects => exact before deleted

theorem step_told (registry : Registry n) (told : Told n) (step : n.Steps action n') : Told n' := by
  intro q
  cases step_effect registry.valid step with
  | stays => exact told q
  | made =>
      rw [makeHandler_services]
      split
      · rename_i new
        subst new
        have absent := registry.absent n.made (Nat.le_refl _)
        have before := told n.made
        rw [owed_none (by rw [absent]; rfl)] at before
        exact before
      · exact told q
  | moves p here =>
      dsimp only
      rw [notices_append, told q]
      by_cases me : q = p
      · subst me
        rw [Function.update_self]
        exact (Local.owed here).symm
      · rw [Function.update_of_ne me, here.notices_other me, List.append_nil]
  | registers p here first | enters p here first | leaves p here =>
      dsimp only
      rw [told q]
      by_cases me : q = p
      · subst me
        rw [Function.update_self, owed_none (by rw [here]; rfl), owed_none rfl]
      · rw [Function.update_of_ne me]

theorem init_told (maxIDCount : Nat) (maxUserAccept : Int) :
    Told (Network.init maxIDCount maxUserAccept) := fun _ => rfl

/-- Only a service that asks for its id becomes held, and none is given up. -/
theorem step_held (registry : Registry n) (inside : processed ≤ n.queue.length)
    (step : n.Steps action n') (q : ServiceRef) :
    heldAt n' processed q = heldAt n processed q ∨
      (n.services q).point = .opened ∧ heldAt n' processed q = true := by
  cases step_effect registry.valid step with
  | stays => exact .inl rfl
  | made =>
      refine .inl ?_
      rw [heldAt, heldAt, makeHandler_services]
      split
      · rename_i new
        rw [new, registry.absent n.made (Nat.le_refl _)]
        rfl
      · rfl
  | moves p here =>
      refine .inl ?_
      simp only [heldAt]
      rw [List.drop_append_of_le_length inside, announces_append]
      by_cases me : q = p
      · subst me
        rw [Function.update_self, Bool.or_comm (announces _ q), ← Bool.or_assoc, Local.announces here]
      · rw [Function.update_of_ne me, announces_of_notices (here.notices_other me), Bool.or_false]
  | registers p here first | enters p here first =>
      by_cases me : q = p
      · subst me
        refine .inr ⟨here, ?_⟩
        simp only [heldAt]
        rw [Function.update_self]
        rfl
      · refine .inl ?_
        simp only [heldAt]
        rw [Function.update_of_ne me]
  | leaves p here =>
      refine .inl ?_
      simp only [heldAt]
      by_cases me : q = p
      · subst me
        rw [Function.update_self, here]
        rfl
      · rw [Function.update_of_ne me]

theorem step_young (registry : Registry n) (step : n.Steps action n') (below : q < n.made)
    (young : Young (n'.services q).point) : Young (n.services q).point := by
  cases step_effect registry.valid step with
  | stays => exact young
  | made =>
      rw [makeHandler_services, if_neg (Nat.ne_of_lt below)] at young
      exact young
  | moves p here =>
      dsimp only at young
      by_cases me : q = p
      · subst me
        rw [Function.update_self] at young
        exact Local.grows here young
      · rwa [Function.update_of_ne me] at young
  | registers p here first | enters p here first | leaves p here =>
      dsimp only at young
      by_cases me : q = p
      · subst me
        rw [Function.update_self] at young
        rcases young with is | is <;> cases is
      · rwa [Function.update_of_ne me] at young

/-- A deleted service has been refused or has said that it ended. -/
theorem step_gone (registry : Registry n) (step : n.Steps action n') (below : q < n.made)
    (before : (n.services q).deleted = true →
      (n.services q).point = .refused ∨ notified (n.services q).point = true)
    (careful : action = .handleTimeOut q → n.Careful action)
    (deleted : (n'.services q).deleted = true) :
    (n'.services q).point = .refused ∨ notified (n'.services q).point = true := by
  cases step_effect registry.valid step with
  | stays => exact before deleted
  | made =>
      rw [makeHandler_services, if_neg (Nat.ne_of_lt below)] at deleted ⊢
      exact before deleted
  | moves p here =>
      dsimp only at deleted ⊢
      by_cases me : q = p
      · subst me
        rw [Function.update_self] at deleted ⊢
        refine Local.gone here before (fun fires => ?_) deleted
        have careful := careful fires
        rw [fires] at careful
        exact careful
      · rw [Function.update_of_ne me] at deleted ⊢
        exact before deleted
  | registers p here first | enters p here first | leaves p here =>
      dsimp only at deleted ⊢
      by_cases me : q = p
      · subst me
        rw [Function.update_self] at deleted
        rw [here] at before
        rcases before deleted with is | is <;> cases is
      · rw [Function.update_of_ne me] at deleted ⊢
        exact before deleted

theorem step_made (registry : Registry n) (step : n.Steps action n') : n.made ≤ n'.made := by
  cases step_effect registry.valid step with
  | made => exact Nat.le_succ _
  | _ => exact Nat.le_refl _

theorem step_queue (registry : Registry n) (step : n.Steps action n') :
    n.queue.length ≤ n'.queue.length := by
  cases step_effect registry.valid step with
  | moves p here =>
      dsimp only
      rw [List.length_append]
      exact Nat.le_add_right ..
  | _ => exact Nat.le_refl _

theorem postRecv_grown {isPosted : Bool} (run : n.postRecv p isPosted = some n') :
    ¬Young (n'.services p).point := by
  rw [Network.postRecv] at run
  split at run
  · split at run
    · obtain rfl := Option.some.inj run
      simp only [Network.modify, Function.update_self, Young, reduceCtorEq, or_self,
        not_false_eq_true]
    · split at run
      · obtain rfl := Option.some.inj run
        simp only [Network.modify, Function.update_self, Young, reduceCtorEq, or_self,
          not_false_eq_true]
      · cases run
  · cases run

end Cgsf.Proof.Engine.SFServerConnectionManager
