import Cgsf.Library.Transition
import Std.Data.TreeMap.Lemmas

/-!
# Timers of the engine

The proactor schedules under numbers of its own, which it uses again once a timer is gone. The
engine records them under the ids of its callers.
-/

namespace Cgsf.Engine
open Std

/-- Whom a timer calls: the time-out handler with an id, or a service. -/
inductive TimerHandler where
  | timeOut (timerID : Int)
  | service (p : Nat)
  deriving DecidableEq, Repr

/-- Times in milliseconds. Without an interval the timer is gone when it has expired. -/
structure NetworkTimer where
  internalTimerId : Nat
  handler : TimerHandler
  start : Nat
  interval : Nat
  deriving DecidableEq, Repr

/-- The timers that the proactor has scheduled. -/
abbrev ACEEngine := List NetworkTimer

namespace ACEEngine

/-- `scheduled` is what `schedule_timer` answers. -/
def addTimer (network : ACEEngine) (timerID : Int) (startTime period : Nat)
    (scheduled : Option Nat) : ACEEngine :=
  match scheduled with
  | some i => ⟨i, .timeOut timerID, startTime, period⟩ :: network
  | none => network

def isTimeOut (timer : NetworkTimer) : Bool :=
  match timer.handler with
  | .timeOut _ => true
  | .service _ => false

def cancelTimer (network : ACEEngine) (timerID : Int) : Bool × ACEEngine :=
  if timerID < 0 then (true, network.filter fun timer => !isTimeOut timer)
  else
    (network.any fun timer => timer.internalTimerId = timerID,
      network.filter fun timer => timer.internalTimerId ≠ timerID)

end ACEEngine

structure SFEngine where
  network : ACEEngine := []
  mapTimer : TreeMap Int Nat := {}

inductive TimerEvent where
  | addTimer (timerID : Int) (period delay : Nat) (scheduled : Option Nat)
  | cancelTimer (timerID : Int)
  | expire (internalTimerId : Nat)
  | registerTimer (p internalTimerId : Nat)
  | unregisterTimer (p : Nat)
  deriving DecidableEq, Repr

namespace SFEngine

variable (s : SFEngine)

def addTimer (timerID : Int) (period delay : Nat) (scheduled : Option Nat) : Bool × SFEngine :=
  let network := s.network.addTimer timerID delay period scheduled
  match scheduled with
  | some internelTimerId =>
      (true, { network, mapTimer := s.mapTimer.insertIfNew timerID internelTimerId })
  | none => (false, { s with network })

def cancelTimer (timerID : Int) : Bool × SFEngine :=
  if 0 ≤ timerID then
    match s.mapTimer[timerID]? with
    | none => (false, s)
    | some internelTimerId =>
        match s.network.cancelTimer internelTimerId with
        | (true, network) => (true, { network, mapTimer := s.mapTimer.erase timerID })
        | (false, network) => (false, { s with network })
  else
    match s.network.cancelTimer timerID with
    | (true, network) => (true, { network, mapTimer := {} })
    | (false, network) => (false, { s with network })

/-- A number that no timer has. -/
def Unused (i : Nat) : Prop := ∀ timer ∈ s.network, timer.internalTimerId ≠ i

instance (i : Nat) : Decidable (s.Unused i) :=
  inferInstanceAs (Decidable (∀ timer ∈ s.network, timer.internalTimerId ≠ i))

def perform : TimerEvent → Option SFEngine
  | .addTimer timerID period delay scheduled =>
      if ∀ i ∈ scheduled, s.Unused i then (s.addTimer timerID period delay scheduled).2 else none
  | .cancelTimer timerID => some (s.cancelTimer timerID).2
  | .expire i =>
      some { s with
        network := s.network.filter fun timer =>
          ¬ (timer.internalTimerId = i ∧ timer.interval = 0) }
  | .registerTimer p i =>
      if s.Unused i then some { s with network := ⟨i, .service p, 0, 5000⟩ :: s.network } else none
  | .unregisterTimer p =>
      some { s with network := s.network.filter fun timer => timer.handler ≠ .service p }

/-- The timer is recorded under its own id and under no other. -/
def Recorded (timer : NetworkTimer) (timerID : Int) : Prop :=
  ∀ k, s.mapTimer[k]? = some timer.internalTimerId ↔ k = timerID

def TimersRecorded : Prop :=
  ∀ timer ∈ s.network, ∀ timerID, timer.handler = .timeOut timerID → s.Recorded timer timerID

/-- `CancelTimer` does not answer `true` while a timer with the id goes on. -/
def CancelsTimers : Prop :=
  ∀ timerID, (s.cancelTimer timerID).1 = true →
    ∀ timer ∈ (s.cancelTimer timerID).2.network, timer.handler ≠ .timeOut timerID

/-- A new timer finds its number recorded under its id if anything is, and under no other. -/
def NewlyRecorded : TimerEvent → Prop
  | .addTimer timerID _ _ (some i) => ∀ entry ∈ s.mapTimer.toList, entry.1 = timerID ↔ entry.2 = i
  | _ => True

instance : (event : TimerEvent) → Decidable (s.NewlyRecorded event)
  | .addTimer timerID _ _ (some i) => inferInstanceAs
      (Decidable (∀ entry ∈ s.mapTimer.toList, entry.1 = timerID ↔ entry.2 = i))
  | .addTimer _ _ _ none | .cancelTimer _ | .expire _ | .registerTimer _ _ | .unregisterTimer _ =>
      isTrue trivial

end SFEngine

end Cgsf.Engine
