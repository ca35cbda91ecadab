import Mathlib.Data.List.Induction

/-!
# Runs of a transition system

A run takes one event after another; the events it took are its history. What holds at the start
and survives every step holds after every run.
-/

namespace Cgsf.Library

variable {S E : Type*}

inductive Run (step : S → E → S → Prop) (start : S) : List E → S → Prop where
  | start : Run step start [] start
  | next {history : List E} {s s' : S} {e : E} (before : Run step start history s)
      (action : step s e s') : Run step start (history ++ [e]) s'

/-- The steps that meet a condition on the state before them. -/
def Guarded (allowed : S → E → Prop) (step : S → E → S → Prop) (s : S) (e : E) (s' : S) : Prop :=
  allowed s e ∧ step s e s'

namespace Run

variable {step : S → E → S → Prop} {start : S}

theorem invariant_history {I : List E → S → Prop} (initial : I [] start)
    (preserved : ∀ history s e s', I history s → step s e s' → I (history ++ [e]) s')
    {history : List E} {s : S} (run : Run step start history s) : I history s := by
  induction run with
  | start => exact initial
  | next _ action ih => exact preserved _ _ _ _ ih action

theorem invariant {I : S → Prop} (initial : I start)
    (preserved : ∀ s e s', I s → step s e s' → I s') {history : List E} {s : S}
    (run : Run step start history s) : I s := by
  induction run with
  | start => exact initial
  | next _ action ih => exact preserved _ _ _ ih action

theorem of_foldlM (f : S → E → Option S) (history : List E) {s s' : S}
    (result : history.foldlM f s = some s') : Run (fun s e s' => f s e = some s') s history s' := by
  induction history using List.reverseRecOn generalizing s' with
  | nil =>
      obtain rfl := Option.some.inj result
      exact .start
  | append_singleton history e ih =>
      rw [List.foldlM_append] at result
      obtain ⟨middle, before, action⟩ := Option.bind_eq_some_iff.mp result
      obtain ⟨last, step, done⟩ := Option.bind_eq_some_iff.mp action
      obtain rfl := Option.some.inj done
      exact .next (ih before) step

/-- Where every event is possible. -/
theorem of_foldl (f : S → E → S) (history : List E) :
    Run (fun s e s' => f s e = s') start history (history.foldl f start) := by
  induction history using List.reverseRecOn with
  | nil => exact .start
  | append_singleton history e ih =>
      rw [List.foldl_append]
      exact .next ih rfl

theorem mono {step step' : S → E → S → Prop} (le : ∀ s e s', step s e s' → step' s e s')
    {history : List E} {s : S} (run : Run step start history s) : Run step' start history s := by
  induction run with
  | start => exact .start
  | next _ action ih => exact .next ih (le _ _ _ action)

/-- The steps have to meet the second relation only where the invariant holds. -/
theorem mono_of_invariant {step step' : S → E → S → Prop} {I : S → Prop} (initial : I start)
    (preserved : ∀ s e s', I s → step s e s' → I s')
    (le : ∀ s e s', I s → step s e s' → step' s e s') {history : List E} {s : S}
    (run : Run step start history s) : Run step' start history s := by
  induction run with
  | start => exact .start
  | next before action ih => exact .next ih (le _ _ _ (before.invariant initial preserved) action)

/-- A run of events that are allowed in every state. -/
theorem guarded {allowed : S → E → Prop} {history : List E} {s : S}
    (run : Run step start history s) (always : ∀ e ∈ history, ∀ s, allowed s e) :
    Run (Guarded allowed step) start history s := by
  induction run with
  | start => exact .start
  | next _ action ih =>
      refine .next (ih fun e member => always e (List.mem_append_left _ member)) ⟨?_, action⟩
      exact always _ (List.mem_append_right _ (List.mem_singleton_self _)) _

/-- A guarded run, computed. -/
theorem guarded_of_foldlM (allowed : S → E → Prop) [∀ s e, Decidable (allowed s e)]
    (f : S → E → Option S) (history : List E) {s s' : S}
    (result : history.foldlM (fun s e => if allowed s e then f s e else none) s = some s') :
    Run (Guarded allowed fun s e s' => f s e = some s') s history s' := by
  refine (of_foldlM _ history result).mono fun s e s' action => ?_
  by_cases meets : allowed s e
  · exact ⟨meets, by rwa [if_pos meets] at action⟩
  · rw [if_neg meets] at action
    cases action

end Run

end Cgsf.Library
