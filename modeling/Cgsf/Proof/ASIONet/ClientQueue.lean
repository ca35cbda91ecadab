import Cgsf.ASIONet.ASIOClient
import Mathlib.Data.List.Nodup

/-!
# One write at a time

The front of the queue is being written, or a handler has it in hands. What lies behind it waits and
is not empty.
-/

namespace Cgsf.Proof.ASIONet.ASIOClient
open Cgsf.ASIONet Cgsf.ASIONet.ASIOClient Library

variable {s s' : ASIOClient} {event : ClientEvent}

def written (b : Buffer) : Write := ⟨b, b.data.length⟩

theorem map_written_buffer (buffers : List Buffer) :
    (buffers.map written).map Write.buffer = buffers := by
  rw [List.map_map]
  exact List.map_id _

/-- Who has the front of the queue. -/
inductive Front (s : ASIOClient) : Prop where
  | nothing (queue : s.sendDataQueue = []) (sizes : s.sendDataSizeQueue = [])
      (outstanding : s.outstanding = []) (handlers : s.handlers = [])
      (started : s.started = s.posted.map written)
  | writing (b : Buffer) (rest : List Buffer) (queue : s.sendDataQueue = b :: rest)
      (sizes : s.sendDataSizeQueue = (b :: rest).map (·.data.length))
      (outstanding : s.outstanding = [written b]) (handlers : s.handlers = [])
      (started : s.started ++ rest.map written = s.posted.map written)
      (content : ∀ b ∈ rest, b.data ≠ [])
  | handed (b : Buffer) (rest : List Buffer) (queue : s.sendDataQueue = b :: rest)
      (sizes : s.sendDataSizeQueue = (b :: rest).map (·.data.length))
      (outstanding : s.outstanding = []) (handlers : s.handlers = [written b])
      (started : s.started ++ (b :: rest).map written = s.posted.map written)
      (content : ∀ b ∈ rest, b.data ≠ [])

structure Sending (s : ASIOClient) : Prop where
  front : Front s
  addresses : s.posted.map Buffer.address = List.range s.copies
  own : ∀ pair ∈ s.deleted, pair.1 = pair.2

theorem sending_new : Sending {} := ⟨.nothing rfl rfl rfl rfl rfl, rfl, nofun⟩

/-- The first buffer of the queue is written by the thread that posts it. -/
theorem postSend_empty (pData : List UInt8) (queue : s.sendDataQueue = [])
    (sizes : s.sendDataSizeQueue = []) (outstanding : s.outstanding = []) :
    s.postSend (.copy pData) = { s with
      copies := s.copies + 1
      posted := s.posted ++ [⟨s.copies, pData⟩]
      sendDataQueue := [⟨s.copies, pData⟩]
      sendDataSizeQueue := [pData.length]
      outstanding := [written ⟨s.copies, pData⟩]
      started := s.started ++ [written ⟨s.copies, pData⟩] } := by
  simp [postSend, asyncWrite, queue, sizes, outstanding, written]

theorem postSend_queued (pData : List UInt8) {b : Buffer} {rest : List Buffer}
    (queue : s.sendDataQueue = b :: rest)
    (sizes : s.sendDataSizeQueue = (b :: rest).map (·.data.length)) :
    s.postSend (.copy pData) = { s with
      copies := s.copies + 1
      posted := s.posted ++ [⟨s.copies, pData⟩]
      sendDataQueue := b :: (rest ++ [⟨s.copies, pData⟩])
      sendDataSizeQueue := (b :: (rest ++ [⟨s.copies, pData⟩])).map (·.data.length) } := by
  have long : ¬rest.length + 1 + 1 < 2 := by omega
  simp [postSend, queue, sizes, long]

theorem Sending.post (sending : Sending s) (pData : List UInt8)
    (content : s.PostsContent (.post pData)) : Sending (s.postSend (.copy pData)) := by
  have addresses : (s.posted ++ [(⟨s.copies, pData⟩ : Buffer)]).map Buffer.address =
      List.range (s.copies + 1) := by
    rw [List.map_append, sending.addresses, List.range_succ]
    rfl
  have filled {b : Buffer} {rest : List Buffer} (queue : s.sendDataQueue = b :: rest)
      (before : ∀ b ∈ rest, b.data ≠ []) : ∀ b ∈ rest ++ [⟨s.copies, pData⟩], b.data ≠ [] := by
    intro c member
    rcases List.mem_append.mp member with old | new
    · exact before c old
    · rw [List.mem_singleton.mp new]
      intro empty
      have none := content empty
      rw [queue] at none
      cases none
  have later {rest : List Buffer} (started : s.started ++ rest.map written = s.posted.map written) :
      s.started ++ (rest ++ [(⟨s.copies, pData⟩ : Buffer)]).map written =
        (s.posted ++ [(⟨s.copies, pData⟩ : Buffer)]).map written := by
    rw [List.map_append, List.map_append, ← List.append_assoc, started]
  cases sending.front with
  | nothing queue sizes outstanding handlers started =>
      rw [postSend_empty pData queue sizes outstanding]
      refine ⟨.writing ⟨s.copies, pData⟩ [] rfl rfl rfl handlers ?_ ?_, addresses, sending.own⟩
      · rw [List.map_nil, List.append_nil, List.map_append, started]
        rfl
      · exact fun b member => absurd member List.not_mem_nil
  | writing b rest queue sizes outstanding handlers started before =>
      rw [postSend_queued pData queue sizes]
      exact ⟨.writing b _ rfl rfl outstanding handlers (later started) (filled queue before),
        addresses, sending.own⟩
  | handed b rest queue sizes outstanding handlers started before =>
      rw [postSend_queued pData queue sizes]
      exact ⟨.handed b _ rfl rfl outstanding handlers (later started) (filled queue before),
        addresses, sending.own⟩

/-- A write completes: the queue gets shorter, and the handler takes the next buffer. -/
theorem complete_spec {b : Buffer} {rest : List Buffer}
    (queue : s.sendDataQueue = b :: rest)
    (sizes : s.sendDataSizeQueue = (b :: rest).map (·.data.length))
    (outstanding : s.outstanding = [written b]) (content : ∀ b ∈ rest, b.data ≠ []) :
    s.step (.complete 0) = some { s with
      sendDataQueue := rest
      sendDataSizeQueue := rest.map (·.data.length)
      outstanding := []
      handlers := s.handlers ++ (rest.take 1).map written
      deleted := s.deleted ++ [(b, b)] } := by
  simp only [step, outstanding, List.getElem?_cons_zero, List.eraseIdx_zero, List.tail_cons,
    handleWrite, queue, sizes, List.map_cons]
  cases rest with
  | nil => simp [written]
  | cons c rest =>
      have some : c.data.length ≠ 0 := fun none =>
        content c List.mem_cons_self (List.length_eq_zero_iff.mp none)
      simp [some, written]

theorem Sending.complete (sending : Sending s) (k : Nat)
    (action : s.step (.complete k) = some s') : Sending s' := by
  cases sending.front with
  | nothing queue sizes outstanding handlers started => simp [step, outstanding] at action
  | handed b rest queue sizes outstanding handlers started content =>
      simp [step, outstanding] at action
  | writing b rest queue sizes outstanding handlers started content =>
      cases k with
      | succ k => simp [step, outstanding] at action
      | zero =>
          rw [complete_spec queue sizes outstanding content] at action
          obtain rfl := Option.some.inj action
          refine ⟨?_, sending.addresses, fun pair member => ?_⟩
          · cases rest with
            | nil =>
                refine .nothing rfl rfl rfl ?_ ?_
                · exact (List.append_nil _).trans handlers
                · rw [List.map_nil, List.append_nil] at started
                  exact started
            | cons c rest =>
                refine .handed c rest rfl rfl rfl ?_ started fun d member => ?_
                · simp only [handlers, List.nil_append]
                  rfl
                · exact content d (List.mem_cons_of_mem c member)
          · rcases List.mem_append.mp member with before | last
            · exact sending.own pair before
            · rw [List.mem_singleton.mp last]

/-- The handler starts the write of what it has in hands. -/
theorem resume_spec {b : Buffer} (handlers : s.handlers = [written b])
    (outstanding : s.outstanding = []) : s.step (.resume 0) = some { s with
      handlers := []
      outstanding := [written b]
      started := s.started ++ [written b] } := by
  simp [step, handlers, postSend, asyncWrite, outstanding, written]

theorem Sending.resume (sending : Sending s) (k : Nat)
    (action : s.step (.resume k) = some s') : Sending s' := by
  cases sending.front with
  | nothing queue sizes outstanding handlers started => simp [step, handlers] at action
  | writing b rest queue sizes outstanding handlers started content =>
      simp [step, handlers] at action
  | handed b rest queue sizes outstanding handlers started content =>
      cases k with
      | succ k => simp [step, handlers] at action
      | zero =>
          rw [resume_spec handlers outstanding] at action
          obtain rfl := Option.some.inj action
          refine ⟨.writing b rest queue sizes rfl rfl ?_ content, sending.addresses, sending.own⟩
          rw [List.append_assoc, ← started]
          rfl

theorem step_sending (sending : Sending s) (content : s.PostsContent event)
    (action : s.step event = some s') : Sending s' := by
  cases event with
  | post pData =>
      obtain rfl := Option.some.inj action
      exact sending.post pData content
  | complete k => exact sending.complete k action
  | resume k => exact sending.resume k action

theorem Sending.orderly (sending : Sending s) : s.Orderly := by
  have once : s.posted.Nodup := by
    refine List.Nodup.of_map Buffer.address ?_
    rw [sending.addresses]
    exact List.nodup_range
  have whole {rest : List Buffer} (started : s.started ++ rest.map written = s.posted.map written) :
      ∀ write ∈ s.started, write.size = write.buffer.data.length := by
    intro write member
    have there : write ∈ s.posted.map written := started ▸ List.mem_append_left _ member
    obtain ⟨b, -, rfl⟩ := List.mem_map.mp there
    rfl
  have order {rest : List Buffer} (started : s.started ++ rest.map written = s.posted.map written) :
      s.started.map Write.buffer ++ rest = s.posted := by
    have buffers := congrArg (List.map Write.buffer) started
    rwa [List.map_append, map_written_buffer, map_written_buffer] at buffers
  cases sending.front with
  | nothing queue sizes outstanding handlers started =>
      have all : s.started ++ [].map written = s.posted.map written := by
        rw [List.map_nil, List.append_nil, started]
      refine ⟨?_, ⟨[], order all⟩, once, whole all, sending.own, fun _ some => absurd queue some,
        fun _ => ?_, fun some => absurd queue some⟩
      · rw [outstanding]
        exact Nat.zero_le 1
      · rw [← order all, List.append_nil]
  | writing b rest queue sizes outstanding handlers started content =>
      refine ⟨?_, ⟨rest, order started⟩, once, whole started, sending.own, fun _ _ => ?_,
        fun none => ?_, fun _ => ⟨.complete 0, _, .inl rfl,
          complete_spec queue sizes outstanding content, ?_⟩⟩
      · rw [outstanding]
        exact Nat.le_refl 1
      · rw [outstanding]
        exact List.cons_ne_nil _ _
      · rw [queue] at none
        cases none
      · simp only [ASIOClient.rank, queue, handlers, List.length_cons, List.nil_append, List.length_map,
          List.length_nil]
        have one := List.length_take_le 1 rest
        omega
  | handed b rest queue sizes outstanding handlers started content =>
      refine ⟨?_, ⟨b :: rest, order started⟩, once, whole started, sending.own, fun none => ?_,
        fun none => ?_, fun _ => ⟨.resume 0, _, .inr rfl, resume_spec handlers outstanding, ?_⟩⟩
      · rw [outstanding]
        exact Nat.zero_le 1
      · rw [handlers] at none
        cases none
      · rw [queue] at none
        cases none
      · simp only [ASIOClient.rank, handlers, List.length_nil, List.length_singleton]
        exact Nat.lt_succ_self _

/-- Where an empty buffer is posted only to an empty queue, every buffer is written, one after the
other. -/
theorem run_singleWriter {history : List ClientEvent}
    (run : Run (Guarded PostsContent fun s event s' => s.step event = some s') {} history s) :
    s.Orderly :=
  Sending.orderly (run.invariant sending_new fun _ _ _ sending action =>
    step_sending sending action.1 action.2)

/-- A third buffer is posted while the handler of the first has the second one in hands. -/
theorem betweenSections_orderly : ∃ s : ASIOClient, s.started.length = 3 ∧ s.Orderly := by
  obtain ⟨s, result⟩ : ∃ s, [ClientEvent.post [], .post [2], .complete 0, .post [3], .resume 0,
      .complete 0, .resume 0].foldlM
        (fun s event => if PostsContent s event then s.step event else none)
        ({} : ASIOClient) = some s := ⟨_, rfl⟩
  refine ⟨s, ?_, run_singleWriter (Run.guarded_of_foldlM PostsContent step _ result)⟩
  obtain rfl := Option.some.inj result
  decide

/-- The handler finds an empty buffer and starts no write, and no later post does. -/
theorem emptyBuffer_stuck :
    ¬∀ (history : List ClientEvent) (s : ASIOClient),
      Run (fun s event s' => s.step event = some s') {} history s → s.Orderly := by
  intro all
  let history : List ClientEvent := [.post [1], .post [], .complete 0, .post [3]]
  obtain ⟨s, result⟩ : ∃ s, history.foldlM step {} = some s := ⟨_, rfl⟩
  have orderly := all history s (.of_foldlM step history result)
  obtain rfl := Option.some.inj result
  exact orderly.busy (by decide) (by decide) rfl

end Cgsf.Proof.ASIONet.ASIOClient
