import Cgsf.Engine.Timers
import Mathlib.Data.List.Nodup

/-!
# Cancelling timers
-/

namespace Cgsf.Proof.Engine
open Std Cgsf.Library Cgsf.Engine

namespace SFEngine

variable {s s' : SFEngine}

/-- No two timers have one number, and each of the engine's is recorded. -/
structure Kept (s : SFEngine) : Prop where
  unique : (s.network.map (·.internalTimerId)).Nodup
  recorded : s.TimersRecorded

/-! ## Fewer timers -/

theorem Kept.filter (kept : Kept s) (p : NetworkTimer → Bool) :
    Kept { s with network := s.network.filter p } where
  unique := kept.unique.sublist (List.filter_sublist.map _)
  recorded timer member := kept.recorded timer (List.mem_filter.mp member).1

/-- A record whose number no timer of another id has can go. -/
theorem Kept.erase (kept : Kept s) (timerID : Int)
    (gone : ∀ timer ∈ s.network, timer.handler ≠ .timeOut timerID) :
    Kept { s with mapTimer := s.mapTimer.erase timerID } where
  unique := kept.unique
  recorded := by
    intro timer member own called k
    have other : timerID ≠ own := by
      rintro rfl
      exact gone timer member called
    have before := kept.recorded timer member own called k
    rw [TreeMap.getElem?_erase]
    split_ifs with at_key
    · obtain rfl := LawfulEqCmp.eq_of_compare at_key
      constructor
      · intro found
        cases found
      · intro same
        exact absurd same other
    · exact before

/-! ## More timers -/

theorem Kept.unique_cons (kept : Kept s) {timer : NetworkTimer}
    (fresh : s.Unused timer.internalTimerId) :
    ((timer :: s.network).map (·.internalTimerId)).Nodup := by
  rw [List.map_cons, List.nodup_cons]
  refine ⟨?_, kept.unique⟩
  rw [List.mem_map]
  rintro ⟨old, member, same⟩
  exact fresh old member same

theorem Kept.service (kept : Kept s) {p i : Nat} (fresh : s.Unused i) :
    Kept { s with network := ⟨i, .service p, 0, 5000⟩ :: s.network } where
  unique := kept.unique_cons fresh
  recorded := by
    intro timer member own called
    rcases List.mem_cons.mp member with rfl | old
    · cases called
    · exact kept.recorded timer old own called

variable {timerID : Int} {period delay i : Nat}

theorem getElem?_insertIfNew_of_new
    (newly : s.NewlyRecorded (.addTimer timerID period delay (some i))) (k : Int) :
    (s.mapTimer.insertIfNew timerID i)[k]? = some i ↔ k = timerID := by
  have entry (j : Nat) (found : s.mapTimer[k]? = some j) : k = timerID ↔ j = i :=
    newly (k, j) (TreeMap.mem_toList_iff_getElem?_eq_some.mpr found)
  rw [TreeMap.getElem?_insertIfNew]
  split_ifs with inserted
  · obtain rfl := LawfulEqCmp.eq_of_compare inserted.1
    exact ⟨fun _ => rfl, fun _ => rfl⟩
  · constructor
    · intro found
      exact (entry i found).mpr rfl
    · rintro rfl
      have present : k ∈ s.mapTimer := by
        by_contra absent
        exact inserted ⟨ReflCmp.compare_self, absent⟩
      obtain ⟨j, found⟩ := Option.isSome_iff_exists.mp
        (TreeMap.mem_iff_isSome_getElem?.mp present)
      rw [found, (entry j found).mp rfl]

theorem getElem?_insertIfNew_of_old {j : Nat} (other : j ≠ i) (k : Int) :
    (s.mapTimer.insertIfNew timerID i)[k]? = some j ↔ s.mapTimer[k]? = some j := by
  rw [TreeMap.getElem?_insertIfNew]
  split_ifs with inserted
  · obtain rfl := LawfulEqCmp.eq_of_compare inserted.1
    rw [TreeMap.getElem?_eq_none inserted.2]
    constructor
    · intro found
      exact absurd (Option.some.inj found).symm other
    · intro found
      cases found
  · rfl

theorem Kept.addTimer (kept : Kept s) (fresh : s.Unused i)
    (newly : s.NewlyRecorded (.addTimer timerID period delay (some i))) :
    Kept (s.addTimer timerID period delay (some i)).2 where
  unique := kept.unique_cons fresh
  recorded := by
    intro timer member own called k
    rcases List.mem_cons.mp member with rfl | old
    · obtain rfl := TimerHandler.timeOut.inj called
      exact getElem?_insertIfNew_of_new newly k
    · rw [← kept.recorded timer old own called k]
      exact getElem?_insertIfNew_of_old (fresh timer old) k

/-- The new timer is only recorded as it should be if it meets the condition. -/
theorem newlyRecorded_of_recorded
    (recorded : (s.addTimer timerID period delay (some i)).2.TimersRecorded) :
    s.NewlyRecorded (.addTimer timerID period delay (some i)) := by
  have own := recorded ⟨i, .timeOut timerID, delay, period⟩ (List.mem_cons_self ..) timerID rfl
  have kept (k : Int) (j : Nat) (found : s.mapTimer[k]? = some j) :
      (s.mapTimer.insertIfNew timerID i)[k]? = some j := by
    rw [TreeMap.getElem?_insertIfNew, if_neg]
    · exact found
    · rintro ⟨same, absent⟩
      obtain rfl := LawfulEqCmp.eq_of_compare same
      rw [TreeMap.getElem?_eq_none absent] at found
      cases found
  rintro ⟨k, j⟩ entry
  have found := TreeMap.mem_toList_iff_getElem?_eq_some.mp entry
  have after := kept k j found
  constructor
  · intro same
    have there := (own k).mpr same
    exact Option.some.inj (after.symm.trans there)
  · intro same
    exact (own k).mp (after.trans (congrArg some same))

/-! ## Cancelled timers -/

theorem cancelTimer_all (negative : timerID < 0) :
    s.cancelTimer timerID =
      (true, { network := s.network.filter fun timer => !ACEEngine.isTimeOut timer }) := by
  rw [SFEngine.cancelTimer, if_neg (Int.not_le.mpr negative)]
  simp only [ACEEngine.cancelTimer, if_pos negative]

theorem cancelTimer_unknown (positive : 0 ≤ timerID) (unknown : s.mapTimer[timerID]? = none) :
    s.cancelTimer timerID = (false, s) := by
  simp only [SFEngine.cancelTimer, if_pos positive, unknown]

/-- A record leads to the timer with its number, or to none. -/
theorem cancelTimer_known (positive : 0 ≤ timerID) (known : s.mapTimer[timerID]? = some i) :
    s.cancelTimer timerID =
      (s.network.any fun timer => timer.internalTimerId = i,
        { network := s.network.filter fun timer => timer.internalTimerId ≠ i
          mapTimer := if s.network.any fun timer => timer.internalTimerId = i then
            s.mapTimer.erase timerID else s.mapTimer }) := by
  have number : ¬ (i : Int) < 0 := by omega
  simp only [SFEngine.cancelTimer, if_pos positive, known, ACEEngine.cancelTimer, if_neg number,
    Int.natCast_inj, ne_eq]
  cases s.network.any fun timer => timer.internalTimerId = i <;> rfl

theorem Kept.handler_ne (kept : Kept s) (known : s.mapTimer[timerID]? = some i) :
    ∀ timer ∈ s.network.filter (fun timer => timer.internalTimerId ≠ i),
      timer.handler ≠ .timeOut timerID := by
  intro timer member called
  obtain ⟨old, other⟩ := List.mem_filter.mp member
  have own := (kept.recorded timer old timerID called timerID).mpr rfl
  exact of_decide_eq_true other (Option.some.inj (own.symm.trans known))

theorem Kept.cancelTimer (kept : Kept s) (timerID : Int) : Kept (s.cancelTimer timerID).2 := by
  by_cases positive : 0 ≤ timerID
  · cases known : s.mapTimer[timerID]? with
    | none =>
        rw [cancelTimer_unknown positive known]
        exact kept
    | some i =>
        have fewer := kept.filter fun timer => timer.internalTimerId ≠ i
        rw [cancelTimer_known positive known]
        split_ifs with found
        · exact fewer.erase timerID (kept.handler_ne known)
        · exact fewer
  · rw [cancelTimer_all (Int.not_le.mp positive)]
    refine ⟨(kept.filter _).unique, ?_⟩
    intro timer member own called
    have service := (List.mem_filter.mp member).2
    rw [ACEEngine.isTimeOut, called] at service
    cases service

theorem Kept.cancelsTimers (kept : Kept s) : s.CancelsTimers := by
  intro timerID cancelled timer member
  by_cases positive : 0 ≤ timerID
  · cases known : s.mapTimer[timerID]? with
    | none =>
        rw [cancelTimer_unknown positive known] at cancelled
        cases cancelled
    | some i =>
        rw [cancelTimer_known positive known] at member
        exact kept.handler_ne known timer member
  · rw [cancelTimer_all (Int.not_le.mp positive)] at member
    intro called
    have service := (List.mem_filter.mp member).2
    rw [ACEEngine.isTimeOut, called] at service
    cases service

/-! ## Runs -/

theorem Kept.step {event : TimerEvent} (kept : Kept s) (newly : s.NewlyRecorded event)
    (action : s.perform event = some s') : Kept s' := by
  cases event with
  | addTimer timerID period delay scheduled =>
      cases scheduled with
      | none =>
          rw [SFEngine.perform] at action
          obtain ⟨-, done⟩ := Option.ite_none_right_eq_some.mp action
          obtain rfl := Option.some.inj done
          exact kept
      | some i =>
          obtain ⟨fresh, done⟩ := Option.ite_none_right_eq_some.mp action
          obtain rfl := Option.some.inj done
          exact kept.addTimer (fresh i rfl) newly
  | cancelTimer timerID =>
      obtain rfl := Option.some.inj action
      exact kept.cancelTimer timerID
  | expire i =>
      obtain rfl := Option.some.inj action
      exact kept.filter _
  | registerTimer p i =>
      obtain ⟨fresh, done⟩ := Option.ite_none_right_eq_some.mp action
      obtain rfl := Option.some.inj done
      exact kept.service fresh
  | unregisterTimer p =>
      obtain rfl := Option.some.inj action
      exact kept.filter _

theorem kept_initial : Kept {} where
  unique := List.nodup_nil
  recorded _ member := absurd member List.not_mem_nil

theorem run_kept {history : List TimerEvent}
    (run : Run (Guarded SFEngine.NewlyRecorded fun s event s' => s.perform event = some s') {}
      history s) : Kept s :=
  run.invariant kept_initial fun _ _ _ kept action => kept.step action.1 action.2

/-- Where every new timer can be recorded, each is under its id and no other, and goes when the id
is cancelled. The next timer that is added is so exactly if it can be recorded. -/
theorem run_timersRecorded {history : List TimerEvent}
    (run : Run (Guarded SFEngine.NewlyRecorded fun s event s' => s.perform event = some s') {}
      history s) :
    s.TimersRecorded ∧ s.CancelsTimers ∧
      ∀ timerID period delay i, s.Unused i →
        ((s.addTimer timerID period delay (some i)).2.TimersRecorded ↔
          s.NewlyRecorded (.addTimer timerID period delay (some i))) := by
  have kept := run_kept run
  refine ⟨kept.recorded, kept.cancelsTimers, ?_⟩
  intro timerID period delay i fresh
  constructor
  · exact newlyRecorded_of_recorded
  · intro newly
    exact (kept.addTimer fresh newly).recorded

/-- One timer is cancelled and another expires, and the numbers of both are used again. -/
def usedAgain : List TimerEvent :=
  [.addTimer 100 1000 500 (some 1), .addTimer 0 0 500 (some 2), .cancelTimer 100,
    .registerTimer 5 1, .addTimer 7 300 0 (some 3), .expire 2, .addTimer 0 1000 500 (some 2)]

theorem usedAgain_recorded :
    ∃ s, Run (Guarded SFEngine.NewlyRecorded fun s event s' => s.perform event = some s') {}
        usedAgain s ∧
      s.network.length = 3 ∧ s.TimersRecorded ∧ s.CancelsTimers := by
  let performed := usedAgain.foldlM (fun (s : SFEngine) event =>
    if s.NewlyRecorded event then s.perform event else none) {}
  have timers : performed.map (·.network.length) = some 3 := by decide
  obtain ⟨s, result, length⟩ := Option.map_eq_some_iff.mp timers
  have run := Run.guarded_of_foldlM SFEngine.NewlyRecorded SFEngine.perform usedAgain result
  obtain ⟨recorded, cancels, -⟩ := run_timersRecorded run
  exact ⟨s, run, length, recorded, cancels⟩

/-- One id for two timers. -/
def addedTwice : SFEngine :=
  (((({} : SFEngine).addTimer 1 1000 500 (some 1)).2).addTimer 1 1000 500 (some 2)).2

/-- The second timer goes on after `CancelTimer`, and no record leads to it. -/
theorem addedTwice_goesOn :
    (addedTwice.cancelTimer 1).1 = true ∧
      ⟨2, .timeOut 1, 500, 1000⟩ ∈ (addedTwice.cancelTimer 1).2.network ∧
      ∀ k : Int, addedTwice.mapTimer[k]? ≠ some 2 := by
  refine ⟨by decide, by decide, ?_⟩
  intro k found
  have others : ∀ entry ∈ addedTwice.mapTimer.toList, entry.2 ≠ 2 := by decide
  exact others (k, 2) (TreeMap.mem_toList_iff_getElem?_eq_some.mpr found) rfl

end SFEngine

end Cgsf.Proof.Engine
