import Cgsf.Proof.RPC.CPstream
import Cgsf.RPC.Transport
import Mathlib.Data.List.Nodup

/-!
# Replies and the calls that they go back to

Requests, replies and results are queues, so that the replies arrive in the order of the calls. An
invocation takes whatever is at the front of the queue of results: its own reply if it is the one
that has been waiting longest, and the reply to another call otherwise.
-/

namespace Cgsf.Proof.RPC.Network
open Cgsf.RPC Library Cgsf.RPC.Network Cgsf.RPC.CPstream Cgsf.Proof.RPC.CPstream

variable {σ : Type} {serviceDef : ServiceDefinition σ} {n n' : Network σ}

/-- The reply of a call that ended with these results. -/
def replyOf (methodId : Int32) (results : Bytes) : Bytes :=
  saveInt rpcOk ++ saveInt methodId ++ results

structure Matched (n : Network σ) : Prop where
  own : ∀ completion ∈ n.completions, completion.consumed = completion.call
  results : ∀ completion ∈ n.completions, ∀ results, completion.returned = .ok results →
    ⟨completion.call, replyOf completion.methodId results⟩ ∈ n.computed
  once : (n.computed.map Packet.call).Nodup

/-- A reply is taken by the invocation that has been waiting longest. -/
def InTurn (n : Network σ) : NetworkEvent σ → Prop
  | .getRPCResult thread =>
      n.queue = [] ∨ n.invocations.head?.map Invocation.thread = some thread
  | _ => True

instance (n : Network σ) : (e : NetworkEvent σ) → Decidable (InTurn n e)
  | .getRPCResult _ => inferInstanceAs (Decidable (_ ∨ _))
  | .send .. | .processRPCService | .serviceChange _ | .update => isTrue trivial

structure InOrder (n : Network σ) : Prop where
  sent : n.computed.map Packet.call ++ n.requests.map Packet.call = List.range n.calls
  waiting : n.completions.map Completion.call ++ n.invocations.map Invocation.call = List.range n.calls
  taken : ∃ taken, n.computed = taken ++ (n.queue ++ n.replies) ∧
    taken.map Packet.call = n.completions.map Completion.call
  own : ∀ completion ∈ n.completions, completion.consumed = completion.call
  results : ∀ completion ∈ n.completions, ∀ results, completion.returned = .ok results →
    ⟨completion.call, replyOf completion.methodId results⟩ ∈ n.computed

theorem inOrder_start (service : σ) : InOrder ({ service } : Network σ) :=
  ⟨rfl, rfl, ⟨[], rfl, rfl⟩, nofun, nofun⟩

theorem InOrder.matched (inOrder : InOrder n) : Matched n := by
  refine ⟨inOrder.own, inOrder.results, ?_⟩
  have range : (List.range n.calls).Nodup := List.nodup_range
  rw [← inOrder.sent] at range
  exact List.Nodup.of_append_left range

theorem InOrder.nodup (inOrder : InOrder n) : (n.invocations.map Invocation.call).Nodup := by
  have range : (List.range n.calls).Nodup := List.nodup_range
  rw [← inOrder.waiting] at range
  exact List.Nodup.of_append_right range

/-- The first reply goes back to the call that has been waiting longest. -/
theorem InOrder.front (inOrder : InOrder n) {packet : Packet} {queue : List Packet}
    {invocation : Invocation} {invocations : List Invocation} (some : n.queue = packet :: queue)
    (longest : n.invocations = invocation :: invocations) : packet.call = invocation.call := by
  obtain ⟨taken, computed, calls⟩ := inOrder.taken
  have same := inOrder.sent.trans inOrder.waiting.symm
  rw [computed, List.map_append, calls, List.append_assoc] at same
  have rest := List.append_cancel_left same
  rw [some, longest] at rest
  exact (List.cons.inj rest).1

theorem receive_ok {methodId : Int32} {recvBuf results : Bytes}
    (received : Proxy.receive methodId recvBuf = some (.ok results)) :
    recvBuf = replyOf methodId results := by
  obtain ⟨⟨ret, ia⟩, loaded, received⟩ := Option.bind_eq_some_iff.mp received
  by_cases ok : ret = rpcOk
  · obtain ⟨⟨resMethodId, ia'⟩, loaded', received⟩ := Option.bind_eq_some_iff.mp
      (show (loadInt ia).bind _ = some (Except.ok results) by simpa [ok] using received)
    by_cases same : methodId = resMethodId
    · obtain rfl : ia' = results := by simpa [same] using received
      rw [eq_of_loadInt loaded, eq_of_loadInt loaded', ok, ← same, replyOf, List.append_assoc]
    · simp [same] at received
  · simp [ok] at received

theorem InOrder.send (inOrder : InOrder n) {thread : Nat} {svrName : Bytes} {methodId : Int32}
    {args : Bytes} (action : n.send thread svrName methodId args = some n') : InOrder n' := by
  rw [Network.send] at action
  split at action
  · cases action
  · obtain rfl := Option.some.inj action
    constructor
    · rw [List.map_append, ← List.append_assoc, inOrder.sent, List.range_succ]
      rfl
    · rw [List.map_append, ← List.append_assoc, inOrder.waiting, List.range_succ]
      rfl
    · exact inOrder.taken
    · exact inOrder.own
    · exact inOrder.results

theorem InOrder.processRPCService (inOrder : InOrder n)
    (action : n.processRPCService serviceDef = some n') : InOrder n' := by
  rw [Network.processRPCService] at action
  split at action
  · cases action
  next packet requests some =>
    obtain ⟨⟨reply, service⟩, -, rfl⟩ := Option.map_eq_some_iff.mp action
    have sent := inOrder.sent
    rw [some] at sent
    obtain ⟨taken, computed, calls⟩ := inOrder.taken
    constructor
    · simpa using sent
    · exact inOrder.waiting
    · exact ⟨taken, by simp [computed], calls⟩
    · exact inOrder.own
    · intro completion member results returned
      exact List.mem_append_left _ (inOrder.results completion member results returned)

theorem InOrder.update (inOrder : InOrder n) (action : n.update = some n') : InOrder n' := by
  rw [Network.update] at action
  split at action
  · cases action
  next packet replies some =>
    obtain rfl := Option.some.inj action
    obtain ⟨taken, computed, calls⟩ := inOrder.taken
    exact ⟨inOrder.sent, inOrder.waiting, ⟨taken, by simp [computed, some], calls⟩, inOrder.own,
      inOrder.results⟩

/-- The longest waiting invocation takes its own reply. -/
theorem InOrder.getRPCResult (inOrder : InOrder n) {thread : Nat}
    (inTurn : InTurn n (.getRPCResult thread)) (action : n.getRPCResult thread = some n') :
    InOrder n' := by
  rw [Network.getRPCResult] at action
  split at action
  · cases action
  · obtain rfl := Option.some.inj action
    exact inOrder
  next invocation packet queue found some =>
    rcases inTurn with none | turn
    · simp [none] at some
    cases longest : n.invocations with
    | nil => simp [longest] at turn
    | cons first invocations =>
        have here : first.thread = thread := by simpa [longest] using turn
        obtain rfl : first = invocation := by simpa [longest, here] using found
        have call := inOrder.front some longest
        obtain ⟨returned, received, rfl⟩ := Option.map_eq_some_iff.mp action
        obtain ⟨taken, computed, calls⟩ := inOrder.taken
        rw [some] at computed
        have waiting := inOrder.waiting
        rw [longest] at waiting
        constructor
        · exact inOrder.sent
        · simpa [longest, here] using waiting
        · exact ⟨taken ++ [packet], by simp [computed], by simp [calls, call]⟩
        · intro completion member
          rcases List.mem_append.mp member with before | last
          · exact inOrder.own completion before
          · rw [List.mem_singleton.mp last]
            exact call
        · intro completion member results returned'
          rcases List.mem_append.mp member with before | last
          · exact inOrder.results completion before results returned'
          · obtain rfl := List.mem_singleton.mp last
            obtain rfl : returned = .ok results := returned'
            have reply : packet = ⟨first.call, replyOf first.methodId results⟩ := by
              rw [← call, ← receive_ok received]
            change _ ∈ n.computed
            rw [← reply, computed]
            simp

theorem InOrder.step (inOrder : InOrder n) {e : NetworkEvent σ} (inTurn : InTurn n e)
    (action : n.step serviceDef e = some n') : InOrder n' := by
  cases e with
  | send thread svrName methodId args => exact inOrder.send action
  | processRPCService => exact inOrder.processRPCService action
  | serviceChange service =>
      obtain rfl := Option.some.inj action
      exact ⟨inOrder.sent, inOrder.waiting, inOrder.taken, inOrder.own, inOrder.results⟩
  | update => exact inOrder.update action
  | getRPCResult thread => exact inOrder.getRPCResult inTurn action

/-- An invocation that is not the longest waiting one takes the reply to another call. -/
theorem step_matched_iff (inOrder : InOrder n) {e : NetworkEvent σ}
    (action : n.step serviceDef e = some n') : Matched n' ↔ InTurn n e := by
  refine ⟨fun matched => ?_, fun inTurn => (inOrder.step inTurn action).matched⟩
  cases e with
  | send thread svrName methodId args => trivial
  | processRPCService => trivial
  | serviceChange service => trivial
  | update => trivial
  | getRPCResult thread =>
      change n.getRPCResult thread = some n' at action
      rw [Network.getRPCResult] at action
      split at action
      · cases action
      next none => exact .inl none
      next invocation packet queue found some =>
        obtain ⟨returned, received, rfl⟩ := Option.map_eq_some_iff.mp action
        refine .inr ?_
        cases longest : n.invocations with
        | nil => simp [longest] at found
        | cons first invocations =>
            have own : packet.call = invocation.call := matched.own
              ⟨invocation.call, invocation.methodId, packet.call, returned⟩ (by simp)
            have nodup := inOrder.nodup
            have member := List.mem_of_find?_eq_some found
            rw [longest] at nodup member
            rw [inOrder.front some longest] at own
            obtain rfl : first = invocation :=
              List.inj_on_of_nodup_map nodup (by simp) member own
            simpa using List.find?_some found

/-- In every run in which replies are taken in turn, every invocation gets its own reply. -/
theorem run_matched {service : σ} {history : List (NetworkEvent σ)}
    (run : Run (Guarded InTurn fun n e n' => n.step serviceDef e = some n') { service } history n) :
    Matched n :=
  (run.invariant (inOrder_start service) fun _ _ _ inOrder action =>
    inOrder.step action.1 action.2).matched

def echoService : ServiceDefinition Unit :=
  { serviceName := [69], methodReg := [fun _ iar => some (iar, ())] }

/-- Two threads call, and each takes its reply in turn. -/
theorem two_calls_matched :
    ∃ n : Network Unit, n.completions.map Completion.returned = [.ok [1], .ok [2]] ∧ Matched n := by
  obtain ⟨n, result⟩ : ∃ n, [NetworkEvent.send 1 [69] 0 [1], .send 2 [69] 0 [2],
      .processRPCService, .processRPCService, .update, .update, .getRPCResult 1,
      .getRPCResult 2].foldlM (fun n e => if InTurn n e then n.step echoService e else none)
        ({ service := () } : Network Unit) = some n := ⟨_, rfl⟩
  refine ⟨n, ?_, run_matched (Run.guarded_of_foldlM InTurn (Network.step echoService) _ result)⟩
  obtain rfl := Option.some.inj result
  rfl

/-- The thread that called second polls first: it returns the results of the other call. -/
theorem second_thread_polls_first :
    ¬ ∀ (serviceDef : ServiceDefinition Unit) (history : List (NetworkEvent Unit))
      (n : Network Unit), Run (fun n e n' => n.step serviceDef e = some n') { service := () }
        history n → Matched n := by
  intro all
  let history : List (NetworkEvent Unit) :=
    [.send 1 [69] 0 [1], .send 2 [69] 0 [2], .processRPCService, .update, .getRPCResult 2]
  obtain ⟨n, result⟩ : ∃ n, history.foldlM (Network.step echoService) { service := () } = some n :=
    ⟨_, rfl⟩
  have matched := all echoService history n (.of_foldlM _ history result)
  obtain rfl := Option.some.inj result
  exact absurd (matched.own _ (List.mem_singleton_self _)) (by decide)

/-- Calls are made one after the other. -/
def Alone (n : Network σ) : NetworkEvent σ → Prop
  | .send .. => n.invocations = []
  | _ => True

/-- With at most one invocation waiting, whoever takes a reply is the longest waiting one. -/
theorem inTurn_of_single (single : n.invocations.length ≤ 1) {e : NetworkEvent σ}
    (action : n.step serviceDef e = some n') : InTurn n e := by
  cases e with
  | send thread svrName methodId args => trivial
  | processRPCService => trivial
  | serviceChange service => trivial
  | update => trivial
  | getRPCResult thread =>
      change n.getRPCResult thread = some n' at action
      rw [Network.getRPCResult] at action
      match waiting : n.invocations with
      | [] => simp [waiting] at action
      | [invocation] =>
          by_cases here : invocation.thread = thread
          · exact .inr (by simp [waiting, here])
          · simp [waiting, here] at action
      | _ :: _ :: _ => simp [waiting] at single

theorem single_step (single : n.invocations.length ≤ 1) {e : NetworkEvent σ} (alone : Alone n e)
    (action : n.step serviceDef e = some n') : n'.invocations.length ≤ 1 := by
  cases e with
  | send thread svrName methodId args =>
      change n.send thread svrName methodId args = some n' at action
      rw [Network.send] at action
      split at action
      · cases action
      · obtain rfl := Option.some.inj action
        have none : n.invocations = [] := alone
        simp [none]
  | processRPCService =>
      change n.processRPCService serviceDef = some n' at action
      rw [Network.processRPCService] at action
      split at action
      · cases action
      · obtain ⟨-, -, rfl⟩ := Option.map_eq_some_iff.mp action
        exact single
  | serviceChange service =>
      obtain rfl := Option.some.inj action
      exact single
  | update =>
      change n.update = some n' at action
      rw [Network.update] at action
      split at action
      · cases action
      · obtain rfl := Option.some.inj action
        exact single
  | getRPCResult thread =>
      change n.getRPCResult thread = some n' at action
      rw [Network.getRPCResult] at action
      split at action
      · cases action
      · obtain rfl := Option.some.inj action
        exact single
      · obtain ⟨-, -, rfl⟩ := Option.map_eq_some_iff.mp action
        exact (List.length_eraseP_le).trans single

/-- With one call at a time every invocation gets its own reply. -/
theorem run_matched_of_alone {service : σ} {history : List (NetworkEvent σ)}
    (run : Run (Guarded Alone fun n e n' => n.step serviceDef e = some n') { service } history n) :
    Matched n := by
  have keeps (s : Network σ) (e : NetworkEvent σ) (s' : Network σ)
      (before : InOrder s ∧ s.invocations.length ≤ 1)
      (action : Guarded Alone (fun n e n' => n.step serviceDef e = some n') s e s') :
      InOrder s' ∧ s'.invocations.length ≤ 1 :=
    ⟨before.1.step (inTurn_of_single before.2 action.2) action.2,
      single_step before.2 action.1 action.2⟩
  exact (run.invariant ⟨inOrder_start service, Nat.zero_le 1⟩ keeps).1.matched

end Cgsf.Proof.RPC.Network
