import Cgsf.ASIONet.ServerSession
import Mathlib.Data.List.Nodup

/-!
# The send queue of a session

`PostSend` does not clear `m_bCompletedWrite` when it starts a write, and `handle_write` clears it
before it calls `PostSend` for the next buffer. The queue works as long as there is never more than
one buffer in it.
-/

namespace Cgsf.Proof.ASIONet.Session
open Cgsf.ASIONet Library Cgsf.ASIONet.Session

structure Orderly (s : Session) : Prop where
  alone : s.outstanding.length ≤ 1
  order : s.started.map Write.buffer <+: s.posted
  once : s.posted.Nodup
  whole : ∀ write ∈ s.started, write.size = write.buffer.data.length
  own : ∀ pair ∈ s.deleted, pair.1 = pair.2
  busy : s.sendDataQueue ≠ [] → s.outstanding ≠ []

/-- A buffer is posted only when none is queued. -/
def PostsAlone (s : Session) : SendEvent → Prop
  | .post _ => s.sendDataQueue = []
  | .complete _ => True

instance (s : Session) : (e : SendEvent) → Decidable (PostsAlone s e)
  | .post _ => inferInstanceAs (Decidable (_ = _))
  | .complete _ => isTrue trivial

/-- The queue is what is outstanding. -/
inductive Sends (s : Session) : Prop where
  | nothing (queue : s.sendDataQueue = []) (sizes : s.sendDataSizeQueue = [])
      (outstanding : s.outstanding = [])
  | one (b : Buffer) (queue : s.sendDataQueue = [b]) (sizes : s.sendDataSizeQueue = [b.data.length])
      (outstanding : s.outstanding = [⟨b, b.data.length⟩])

structure Quiet (s : Session) : Prop where
  completed : s.bCompletedWrite = true
  sends : Sends s
  started : s.started = s.posted.map fun b => ⟨b, b.data.length⟩
  addresses : s.posted.map Buffer.address = List.range s.copies
  own : ∀ pair ∈ s.deleted, pair.1 = pair.2

theorem quiet_new : Quiet {} := ⟨rfl, .nothing rfl rfl rfl, rfl, rfl, nofun⟩

theorem Quiet.orderly {s : Session} (quiet : Quiet s) : Orderly s := by
  have once : s.posted.Nodup := by
    refine List.Nodup.of_map Buffer.address ?_
    rw [quiet.addresses]
    exact List.nodup_range
  have order : s.started.map Write.buffer = s.posted := by
    rw [quiet.started, List.map_map]
    exact List.map_id _
  refine ⟨?_, ⟨[], by rw [order, List.append_nil]⟩, once, ?_, quiet.own, ?_⟩
  · cases quiet.sends with
    | nothing queue sizes outstanding =>
        rw [outstanding]
        exact Nat.zero_le 1
    | one b queue sizes outstanding =>
        rw [outstanding]
        exact Nat.le_refl 1
  · intro write member
    rw [quiet.started] at member
    obtain ⟨b, -, rfl⟩ := List.mem_map.mp member
    rfl
  · intro some
    cases quiet.sends with
    | nothing queue sizes outstanding => exact absurd queue some
    | one b queue sizes outstanding =>
        rw [outstanding]
        exact List.cons_ne_nil _ _

theorem Quiet.post {s : Session} (quiet : Quiet s) (pData : List UInt8)
    (alone : s.sendDataQueue = []) : Quiet (s.postSend (.copy pData)) := by
  have completed := quiet.completed
  have posting : s.postSend (.copy pData) = { s with
      copies := s.copies + 1
      posted := s.posted ++ [⟨s.copies, pData⟩]
      sendDataQueue := [⟨s.copies, pData⟩]
      sendDataSizeQueue := [pData.length]
      outstanding := [⟨⟨s.copies, pData⟩, pData.length⟩]
      started := s.started ++ [⟨⟨s.copies, pData⟩, pData.length⟩] } := by
    cases quiet.sends with
    | nothing queue sizes outstanding =>
        simp [postSend, completed, asyncWrite, queue, sizes, outstanding]
    | one b queue sizes outstanding => simp [queue] at alone
  rw [posting]
  refine ⟨completed, .one ⟨s.copies, pData⟩ rfl rfl rfl, ?_, ?_, quiet.own⟩
  · simp [quiet.started]
  · simp [quiet.addresses, List.range_succ]

theorem Quiet.complete {s s' : Session} (quiet : Quiet s) (k : Nat)
    (action : s.step (.complete k) = some s') : Quiet s' := by
  cases quiet.sends with
  | nothing queue sizes outstanding => simp [step, outstanding] at action
  | one b queue sizes outstanding =>
      cases k with
      | succ k => simp [step, outstanding] at action
      | zero =>
          obtain rfl : { s with
              outstanding := []
              sendDataQueue := []
              sendDataSizeQueue := []
              deleted := s.deleted ++ [(b, b)]
              bCompletedWrite := true } = s' := by
            simpa [step, outstanding, handleWrite, queue, sizes] using action
          refine ⟨rfl, .nothing rfl rfl rfl, quiet.started, quiet.addresses, ?_⟩
          intro pair member
          rcases List.mem_append.mp member with before | last
          · exact quiet.own pair before
          · rw [List.mem_singleton.mp last]

/-- In a quiet session a step keeps the queue in order exactly if it posts to an empty queue. -/
theorem step_orderly_iff {s s' : Session} {e : SendEvent} (quiet : Quiet s)
    (action : s.step e = some s') : Orderly s' ↔ PostsAlone s e := by
  cases e with
  | complete k => exact iff_of_true (quiet.complete k action).orderly trivial
  | post pData =>
      obtain rfl := Option.some.inj action
      refine ⟨fun orderly => ?_, fun alone => (quiet.post pData alone).orderly⟩
      cases quiet.sends with
      | nothing queue sizes outstanding => exact queue
      | one b queue sizes outstanding =>
          have two := orderly.alone
          simp [postSend, quiet.completed, asyncWrite, outstanding] at two

/-- In every run in which each buffer is posted to an empty queue, the queue stays in order. -/
theorem run_orderly {history : List SendEvent} {s : Session}
    (run : Run (Guarded PostsAlone fun s e s' => s.step e = some s') {} history s) :
    Orderly s := by
  refine (run.invariant quiet_new fun s e s' quiet action => ?_).orderly
  obtain ⟨alone, action⟩ := action
  cases e with
  | complete k => exact quiet.complete k action
  | post pData =>
      obtain rfl := Option.some.inj action
      exact quiet.post pData alone

theorem two_lines_orderly :
    ∃ s : Session, s.started.length = 2 ∧ Orderly s := by
  obtain ⟨s, result⟩ : ∃ s, [SendEvent.post [1], .complete 0, .post [2]].foldlM
      (fun s e => if PostsAlone s e then s.step e else none) ({} : Session) = some s := ⟨_, rfl⟩
  refine ⟨s, ?_, run_orderly (Run.guarded_of_foldlM PostsAlone step _ result)⟩
  obtain rfl := Option.some.inj result
  decide

/-- The third line is left in the queue: its post finds a write outstanding, and the handler of that
write clears the flag before it asks for the next one. -/
theorem third_line_stuck :
    ¬ ∀ (history : List SendEvent) (s : Session),
      Run (fun s e s' => s.step e = some s') ({} : Session) history s → Orderly s := by
  intro all
  let history : List SendEvent :=
    [.post [1], .post [2], .complete 0, .post [3], .complete 0]
  obtain ⟨s, result⟩ : ∃ s, history.foldlM step ({} : Session) = some s := ⟨_, rfl⟩
  have orderly := all history s (.of_foldlM step history result)
  obtain rfl := Option.some.inj result
  exact orderly.busy (by decide) rfl

/-- Outstanding writes never outnumber the queued buffers, so that the handler of a write always
finds a buffer to delete. -/
structure Covered (s : Session) : Prop where
  sizes : s.sendDataSizeQueue.length = s.sendDataQueue.length
  writes : s.outstanding.length ≤ s.sendDataQueue.length

theorem covered_postSend {s : Session} (covered : Covered s) (pData : List UInt8) :
    Covered (s.postSend (.copy pData)) := by
  have sizes := covered.sizes
  have writes := covered.writes
  rw [postSend]
  split
  · constructor
    · simp [sizes]
    · simp only [List.length_append]
      omega
  · constructor
    · simp [asyncWrite, sizes]
    · simp only [asyncWrite, List.length_append, List.length_singleton]
      omega

theorem covered_handleWrite {s : Session} (sizes : s.sendDataSizeQueue.length =
    s.sendDataQueue.length) (writes : s.outstanding.length < s.sendDataQueue.length)
    (written : Buffer) : ∃ s', s.handleWrite written = some s' ∧ Covered s' := by
  rw [handleWrite]
  match s.sendDataQueue, s.sendDataSizeQueue, sizes, writes with
  | [front], [_], sizes, writes =>
      refine ⟨_, rfl, rfl, ?_⟩
      simpa using writes
  | front :: pData :: queue, _ :: nSize :: sizes', sizes, writes =>
      refine ⟨_, rfl, ?_, ?_⟩
      · simpa [postSend] using sizes
      · simp only [postSend, List.length_cons] at writes ⊢
        exact Nat.le_of_lt_succ writes

/-- In every run the handler of an outstanding write finds its buffer. -/
theorem run_handles {history : List SendEvent} {s : Session}
    (run : Run (fun s e s' => s.step e = some s') {} history s) (k : Nat)
    (outstanding : k < s.outstanding.length) : ∃ s', s.step (.complete k) = some s' := by
  have step_covered (s : Session) (covered : Covered s) (k : Nat)
      (outstanding : k < s.outstanding.length) :
      ∃ s', s.step (.complete k) = some s' ∧ Covered s' := by
    rw [step, List.getElem?_eq_getElem outstanding]
    have writes := covered.writes
    refine covered_handleWrite (s := { s with outstanding := s.outstanding.eraseIdx k })
      covered.sizes ?_ _
    change (s.outstanding.eraseIdx k).length < s.sendDataQueue.length
    rw [List.length_eraseIdx_of_lt outstanding]
    omega
  have covered : Covered s := by
    refine run.invariant ⟨rfl, Nat.le_refl 0⟩ fun s e s' covered action => ?_
    cases e with
    | post pData =>
        obtain rfl := Option.some.inj action
        exact covered_postSend covered pData
    | complete k =>
        by_cases some : k < s.outstanding.length
        · obtain ⟨next, action', covered'⟩ := step_covered s covered k some
          obtain rfl := Option.some.inj (action'.symm.trans action)
          exact covered'
        · simp [step, List.getElem?_eq_none (Nat.not_lt.mp some)] at action
  obtain ⟨s', action, -⟩ := step_covered s covered k outstanding
  exact ⟨s', action⟩

end Cgsf.Proof.ASIONet.Session
