import Cgsf.Library.Transition
import Cgsf.P2P.UdpCommClient
import Mathlib.Data.List.Perm.Basic

/-!
# Every send node has its place

What was sent, what is being sent and what waits in the queue are the packets in the order they were
pushed. Only an error that `IdleWrite` gets takes a node out of all places.
-/

namespace Cgsf.Proof.P2P.CUdpCommClient
open Cgsf.P2P Cgsf.P2P.CUdpCommClient Library

variable {s s' : CUdpCommClient} {event : UdpEvent} {a : Nat} {node : CUdpPacketNode}

theorem hand_sending {drain : Drain} : (Phase.sending drain a).hand = [a] := rfl

/-- The nodes whose packets are still to be sent. -/
def ahead (s : CUdpCommClient) : List Nat := s.phase.hand ++ s.sndPktList

def line (s : CUdpCommClient) : List CUdpPacketNode := s.sent ++ (ahead s).filterMap s.nodes

structure Holds (s : CUdpCommClient) : Prop where
  owned : Owned s.nodes s.places
  filed : ∀ node ∈ line s, s.pushed[node.push]? = some node
  order : ((line s).map (·.push)).Pairwise (· < ·)

theorem holds_new (maxSndPktLen : Nat) (connectFlag : Bool) :
    Holds { maxSndPktLen, connectFlag } where
  owned := ⟨List.nodup_nil, fun a => by simp [places, Phase.hand]⟩
  filed := fun node there => absurd there List.not_mem_nil
  order := List.Pairwise.nil

theorem Holds.conserved (holds : Holds s) : s.Conserved := by
  have part : s.sent.Sublist (line s) := List.sublist_append_left _ _
  refine ⟨holds.owned, fun node there => holds.filed node (part.subset there), ?_⟩
  exact holds.order.sublist (part.map _)

theorem ahead_subset : ahead s ⊆ s.places := by
  intro b there
  simp only [ahead, places, List.mem_append] at there ⊢
  rcases there with hand | list
  · exact .inl (.inr hand)
  · exact .inl (.inl (.inl list))

/-! ## Nodes that move -/

theorem Holds.move (holds : Holds s) (nodes : s'.nodes = s.nodes) (pushed : s'.pushed = s.pushed)
    (count : ∀ b, s'.places.count b = s.places.count b) (less : (line s').Sublist (line s)) :
    Holds s' where
  owned := by
    rw [nodes]
    exact holds.owned.perm (List.perm_iff_count.mpr fun b => (count b).symm)
  filed := fun node there => by
    rw [pushed]
    exact holds.filed node (less.subset there)
  order := holds.order.sublist (less.map _)

theorem filterMap_update (away : a ∉ ahead s) :
    (ahead s).filterMap (Function.update s.nodes a (some node)) = (ahead s).filterMap s.nodes := by
  apply List.filterMap_congr
  intro b there
  have other : b ≠ a := fun same => away (same ▸ there)
  exact Function.update_of_ne other _ _

theorem line_update (away : a ∉ ahead s) (nodes : s'.nodes = Function.update s.nodes a (some node))
    (sent : s'.sent = s.sent) (same : ahead s' = ahead s) : line s' = line s := by
  rw [line, line, sent, same, nodes, filterMap_update away]

/-- A node that was ahead of nothing goes to the end of the queue with a packet of its own. -/
theorem Holds.queue (holds : Holds s) (node : CUdpPacketNode) (away : a ∉ ahead s)
    (nodes : s'.nodes = Function.update s.nodes a (some node))
    (number : node.push = s.pushed.length) (pushed : s'.pushed = s.pushed ++ [node])
    (sent : s'.sent = s.sent) (last : ahead s' = ahead s ++ [a]) (owned : Owned s'.nodes s'.places) : Holds s' := by
  have longer : line s' = line s ++ [node] := by
    rw [line, line, sent, last, nodes, List.filterMap_append, filterMap_update away]
    simp
  have earlier : ∀ old ∈ line s, old.push < s.pushed.length := by
    intro old there
    exact (List.getElem?_eq_some_iff.mp (holds.filed old there)).1
  refine ⟨owned, fun old there => ?_, ?_⟩
  · rw [longer, List.mem_append] at there
    rw [pushed]
    rcases there with before | new
    · rw [List.getElem?_append_left (earlier old before)]
      exact holds.filed old before
    · rw [List.mem_singleton.mp new, number]
      exact List.getElem?_concat_length
  · rw [longer, List.map_append]
    refine List.pairwise_append.mpr ⟨holds.order, List.pairwise_singleton _ _, ?_⟩
    intro n there m new
    obtain ⟨old, before, rfl⟩ := List.mem_map.mp there
    rw [List.map_singleton, List.mem_singleton] at new
    rw [new, number]
    exact earlier old before

/-! ## Pushes -/

theorem new_some (run : s.new a node = some s') :
    s.nodes a = none ∧ s' = { s with nodes := Function.update s.nodes a (some node) } := by
  rw [CUdpCommClient.new] at run
  split at run
  · rename_i free
    exact ⟨free, (Option.some.inj run).symm⟩
  · contradiction

theorem beginPush_holds (holds : Holds s) {ulLen : Nat} {stRemote : SockAddr}
    {pbyBuff : List UInt8} {address : Nat}
    (run : s.beginPush ulLen stRemote pbyBuff address = some s') : Holds s' := by
  rw [beginPush] at run
  split at run
  · obtain rfl := Option.some.inj run
    exact holds
  · obtain ⟨⟨pcPktNode, middle⟩, taken, rfl⟩ := Option.map_eq_some_iff.mp run
    rw [allocate] at taken
    split at taken
    · rename_i pcNode pool full
      cases taken
      refine holds.move rfl rfl (fun b => ?_) (List.Sublist.refl _)
      simp only [places, full, List.map_append, List.map_cons, List.map_nil, List.count_append,
        List.count_cons, List.count_nil]
      omega
    · obtain ⟨made, new, same⟩ := Option.map_eq_some_iff.mp taken
      cases same
      obtain ⟨free, rfl⟩ := new_some new
      have away : address ∉ ahead s := fun there =>
        holds.owned.not_mem free (ahead_subset there)
      have unchanged : line { s with
          nodes := Function.update s.nodes address (some {})
          pushing := s.pushing ++ [⟨address, stRemote, pbyBuff⟩] } = line s :=
        line_update away rfl rfl rfl
      refine ⟨(holds.owned.new free {}).perm (List.perm_iff_count.mpr fun b => ?_), ?_, ?_⟩
      · simp only [places, List.map_append, List.map_cons, List.map_nil, List.count_append,
          List.count_cons, List.count_nil]
        omega
      · rw [unchanged]
        exact holds.filed
      · rw [unchanged]
        exact holds.order

theorem add_some (run : s.add a = some s') : s' = { s with
    sndPktList := s.sndPktList ++ [a]
    pushed := s.pushed ++ (s.nodes a).toList
    wrEvent := s.wrEvent || (s.connectFlag && !s.wouldBlock) } := by
  rw [add] at run
  split at run
  · contradiction
  · exact (Option.some.inj run).symm

theorem Holds.apart (holds : Holds s) (there : a ∈ s.pushing.map (·.pcPktNode)) : a ∉ ahead s := by
  have disjoint := (List.nodup_append.mp holds.owned.nodup).2.2
  intro here
  refine disjoint a ?_ a there rfl
  rw [ahead, List.mem_append] at here
  rcases here with hand | list
  · exact List.mem_append_right _ hand
  · exact List.mem_append_left _ (List.mem_append_left _ list)

theorem fill_holds (holds : Holds s) {k : Nat} {memory : Bool} (run : s.fill k memory = some s') :
    Holds s' := by
  rw [fill] at run
  split at run
  · contradiction
  · rename_i call found
    obtain ⟨inside, rfl⟩ := List.getElem?_eq_some_iff.mp found
    -- the call leaves its place among those that have a node in hand
    have leaves := ((List.getElem_cons_eraseIdx_perm inside).map (·.pcPktNode)).symm
    rw [List.map_cons] at leaves
    have counted : ∀ b, (s.pushing.map (·.pcPktNode)).count b =
        (s.pushing[k].pcPktNode :: (s.pushing.eraseIdx k).map (·.pcPktNode)).count b :=
      fun b => leaves.count_eq b
    have there : s.pushing[k].pcPktNode ∈ s.pushing.map (·.pcPktNode) :=
      List.mem_map_of_mem (List.getElem_mem inside)
    dsimp only at run
    split at run
    · obtain rfl := add_some run
      refine holds.queue ⟨_, _, s.pushed.length⟩ (holds.apart there) rfl rfl ?_ rfl ?_ ?_
      · simp [init]
      · simp [ahead, init]
      · refine (holds.owned.write (List.mem_append_right _ there) _).perm
          (List.perm_iff_count.mpr fun b => ?_)
        have count := counted b
        simp only [places, init, List.count_append, List.count_cons, List.count_nil] at count ⊢
        omega
    · obtain rfl := Option.some.inj run
      refine holds.move rfl rfl (fun b => ?_) (List.Sublist.refl _)
      have count := counted b
      simp only [places, deallocate, List.count_append, List.count_cons] at count ⊢
      omega

theorem pushNode_holds (holds : Holds s) {stRemote : SockAddr} {pbyBuff : List UInt8}
    {address : Nat} (run : s.pushNode stRemote pbyBuff address = some s') : Holds s' := by
  rw [pushNode] at run
  split at run
  · obtain rfl := Option.some.inj run
    exact holds
  · obtain ⟨made, new, added⟩ := Option.bind_eq_some_iff.mp run
    obtain ⟨free, rfl⟩ := new_some new
    obtain rfl := add_some added
    refine holds.queue ⟨_, _, s.pushed.length⟩
      (fun there => holds.owned.not_mem free (ahead_subset there)) rfl rfl ?_ rfl ?_ ?_
    · simp
    · simp [ahead]
    · refine (holds.owned.new free _).perm (List.perm_iff_count.mpr fun b => ?_)
      simp only [places, List.count_append, List.count_cons, List.count_nil]
      omega

/-! ## Reset and the loops -/

theorem resetNext_holds (holds : Holds s) : Holds s.resetNext := by
  rw [resetNext]
  split
  · exact holds.move rfl rfl (fun b => rfl) (List.Sublist.refl _)
  · rename_i pcPktNode list queued
    refine holds.move rfl rfl (fun b => ?_) ?_
    · simp only [places, deallocate, queued, List.count_append, List.count_cons]
      omega
    · simp only [line, ahead, deallocate, queued]
      refine List.Sublist.append_left (List.Sublist.filterMap _ ?_) _
      exact List.Sublist.append_left (List.sublist_cons_self _ _) _

theorem Holds.goOn (holds : Holds s) {phase : Phase} (hand : s.phase.hand = [])
    (hand' : phase.hand = []) (wouldBlock wrEvent : Bool) :
    Holds { s with phase, wouldBlock, wrEvent } := by
  refine holds.move rfl rfl (fun b => ?_) ?_
  · simp only [places, hand, hand']
  · simp only [line, ahead, hand, hand']
    exact List.Sublist.refl _

theorem next_holds (holds : Holds s) {drain : Drain} (hand : s.phase.hand = [])
    (run : s.next drain = some s') : Holds s' := by
  rw [next] at run
  split at run
  · contradiction
  · split at run
    · obtain rfl := Option.some.inj run
      exact holds.goOn hand rfl s.wouldBlock s.wrEvent
    · rename_i pcPktNode list queued
      obtain rfl := Option.some.inj run
      refine holds.move rfl rfl (fun b => ?_) ?_
      · simp only [places, hand, queued, hand_sending, List.count_append, List.count_cons,
          List.count_nil]
        omega
      · simp only [line, ahead, hand, queued, hand_sending, List.nil_append, List.singleton_append]
        exact List.Sublist.refl _

/-! ## What follows `sendto` -/

theorem pooled_holds (holds : Holds s) {drain : Drain} (hand : s.phase = .sending drain a)
    (sent : List CUdpPacketNode) (errorCode : Nat)
    (less : (sent ++ s.sndPktList.filterMap s.nodes).Sublist (line s)) :
    Holds ({ s with sent, errorCode, phase := .loop drain }.deallocate a) := by
  refine holds.move rfl rfl (fun b => ?_) less
  simp only [places, hand, hand_sending, deallocate, List.count_append, List.count_cons,
    List.count_nil]
  rw [show (Phase.loop drain).hand = [] from rfl, List.count_nil]
  omega

/-- Which error there is, and which loop meets it. -/
theorem sendto_holds (holds : Holds s) {drain : Drain} (hand : s.phase = .sending drain a)
    {error : Option Nat} (run : s.sendto drain a error = some s')
    (sends : s.IdleSends (.sendto error)) :
    Holds s' ∧ s.Returned s' (.sendto error) := by
  have here : a ∈ s.places := ahead_subset (by simp [ahead, hand, hand_sending])
  obtain ⟨node, alive⟩ := holds.owned.alive here
  have split : line s = s.sent ++ node :: s.sndPktList.filterMap s.nodes := by
    simp [line, ahead, hand, hand_sending, alive]
  rw [Returned, hand, hand_sending]
  cases error with
  | none =>
      obtain rfl := Option.some.inj run
      refine ⟨pooled_holds holds hand _ s.errorCode ?_, ?_⟩
      · rw [split, alive, Option.toList_some, List.append_assoc]
        exact List.Sublist.refl _
      · rw [if_neg (by simp)]
        exact ⟨rfl, rfl⟩
  | some error =>
      simp only [CUdpCommClient.sendto] at run
      split at run
      · rename_i blocks
        split at run
        · contradiction
        · obtain rfl := Option.some.inj run
          refine ⟨holds.move rfl rfl (fun b => ?_) ?_, ?_⟩
          · simp only [places, hand, hand_sending, List.count_append, List.count_cons,
              List.count_nil]
            rw [show Phase.blocked.hand = [] from rfl, List.count_nil]
            omega
          · rw [line, ahead, line, ahead, hand]
            exact List.Sublist.refl _
          · rw [if_pos (congrArg some blocks)]
            exact ⟨rfl, rfl⟩
      · rename_i other
        cases drain with
        | handleWrite =>
            obtain rfl := Option.some.inj run
            refine ⟨pooled_holds holds hand s.sent error ?_, ?_⟩
            · rw [split]
              exact List.Sublist.append_left (List.sublist_cons_self _ _) _
            · rw [if_neg (fun same => other (Option.some.inj same))]
              exact ⟨rfl, rfl⟩
        | idleWrite =>
            refine absurd ⟨?_, ?_⟩ sends
            · rw [hand]
              rfl
            · exact decide_eq_true other

/-- After any other error `IdleWrite` has no place for its node. -/
theorem idle_drops (holds : Holds s) (drops : ¬s.IdleSends event)
    (action : s.step event = some s') : ¬s'.Conserved := by
  obtain ⟨idle, fails⟩ := not_not.mp drops
  cases event with
  | sendto error =>
      cases error with
      | none => cases fails
      | some error =>
          have other : error ≠ wsaEWouldBlock := of_decide_eq_true fails
          cases hand : s.phase with
          | sending drain a =>
              cases drain with
              | handleWrite =>
                  rw [hand] at idle
                  cases idle
              | idleWrite =>
                  simp only [step, hand, CUdpCommClient.sendto, if_neg other] at action
                  obtain rfl := Option.some.inj action
                  intro conserved
                  have here : a ∈ s.places := ahead_subset (by simp [ahead, hand, hand_sending])
                  have still := (conserved.owned.held a).mp ((holds.owned.held a).mpr here)
                  have twice := List.nodup_iff_count_le_one.mp holds.owned.nodup a
                  have counted := List.one_le_count_iff.mpr still
                  simp only [places, hand, hand_sending, List.count_append, List.count_cons,
                    List.count_nil, beq_self_eq_true, if_true] at twice counted
                  rw [show Phase.waiting.hand = [] from rfl, List.count_nil] at counted
                  omega
          | waiting | loop drain | blocked =>
              rw [hand] at idle
              cases idle
  | _ => cases fails

theorem step_holds (holds : Holds s) (sends : s.IdleSends event)
    (action : s.step event = some s') : Holds s' ∧ s.Returned s' event := by
  cases event with
  | push | pushParts => exact ⟨beginPush_holds holds action, trivial⟩
  | pushNode => exact ⟨pushNode_holds holds action, trivial⟩
  | fill => exact ⟨fill_holds holds action, trivial⟩
  | reset =>
      rw [step] at action
      split at action
      · contradiction
      · obtain rfl := Option.some.inj action
        exact ⟨holds.move rfl rfl (fun b => rfl) (List.Sublist.refl _), trivial⟩
  | resetNext =>
      rw [step] at action
      split at action
      · obtain rfl := Option.some.inj action
        exact ⟨resetNext_holds holds, trivial⟩
      · contradiction
  | sockEvent =>
      rw [step] at action
      split at action
      · rename_i waiting
        obtain rfl := Option.some.inj action
        exact ⟨holds.goOn (by rw [waiting]; rfl) rfl false s.wrEvent, trivial⟩
      · contradiction
  | wrEvent =>
      rw [step] at action
      split at action
      · rename_i waiting
        obtain rfl := Option.some.inj action
        exact ⟨holds.goOn (by rw [waiting.1]; rfl) rfl false false, trivial⟩
      · contradiction
  | timeout =>
      rw [step] at action
      split at action
      · rename_i waiting
        obtain rfl := Option.some.inj action
        rw [idleWrite]
        split
        · exact ⟨holds, trivial⟩
        · exact ⟨holds.goOn (by rw [waiting]; rfl) rfl s.wouldBlock s.wrEvent, trivial⟩
      · contradiction
  | next =>
      cases phase : s.phase with
      | loop drain =>
          simp only [step, phase] at action
          exact ⟨next_holds holds (by rw [phase]; rfl) action, trivial⟩
      | waiting | sending drain a | blocked => simp [step, phase] at action
  | sendto error =>
      cases phase : s.phase with
      | sending drain a =>
          simp only [step, phase] at action
          exact sendto_holds holds phase action sends
      | waiting | loop drain | blocked => simp [step, phase] at action
  | noteBlocked =>
      cases phase : s.phase with
      | blocked =>
          simp only [step, phase, Option.some.injEq] at action
          subst action
          exact ⟨holds.goOn (by rw [phase]; rfl) rfl true s.wrEvent, trivial⟩
      | waiting | loop drain | sending drain a => simp [step, phase] at action

/-- Where `IdleWrite` has met no other error, the next step keeps every node in its place if and
only if it is no such error either. -/
theorem run_nodesConserved {maxSndPktLen : Nat} {connectFlag : Bool} {history : List UdpEvent}
    (run : Run (Guarded IdleSends fun s event s' => s.step event = some s')
      { maxSndPktLen, connectFlag } history s) :
    s.Conserved ∧ ∀ event s', s.step event = some s' →
      (s'.Conserved ∧ s.Returned s' event ↔ s.IdleSends event) := by
  have holds : Holds s := run.invariant (holds_new maxSndPktLen connectFlag)
    fun _ _ _ before action => (step_holds before action.1 action.2).1
  refine ⟨holds.conserved, fun event s' action => ⟨fun after => ?_, fun sends => ?_⟩⟩
  · by_contra drops
    exact idle_drops holds drops action after.1
  · obtain ⟨kept, returned⟩ := step_holds holds sends action
    exact ⟨kept.conserved, returned⟩

/-- The first packet meets a full socket and is sent later, the second cannot be sent, the third is
pushed meanwhile and goes out with a node of the pool, and the node of the fourth is the caller's.
-/
theorem blockedOnce_conserved : ∃ s : CUdpCommClient, s.sent.map (·.pbyBuff) = [[1], [3]] ∧
    s.places = [12, 10, 11] ∧ s.Conserved ∧ ∀ event s', s.step event = some s' →
      (s'.Conserved ∧ s.Returned s' event ↔ s.IdleSends event) := by
  let history : List UdpEvent := [.push ⟨1, 2⟩ [1] 10, .push ⟨1, 2⟩ [2] 11, .fill 0 true,
    .fill 0 true, .sockEvent, .next, .sendto (some wsaEWouldBlock), .noteBlocked, .timeout,
    .sockEvent, .next, .sendto none, .next, .push ⟨1, 2⟩ [3] 12, .fill 0 true,
    .pushNode ⟨1, 2⟩ [4] 12, .sendto (some 10051), .next, .sendto none, .next, .sendto (some 10051),
    .next, .timeout, .next]
  let performed := history.foldlM
    (fun s event => if CUdpCommClient.IdleSends s event then s.step event else none)
    ({ maxSndPktLen := 1024, connectFlag := true } : CUdpCommClient)
  have computed : performed.map (fun s => (s.sent.map (·.pbyBuff), s.places)) =
      some ([[1], [3]], [12, 10, 11]) := by decide
  obtain ⟨s, result, same⟩ := Option.map_eq_some_iff.mp computed
  obtain ⟨sent, places⟩ := Prod.mk.inj same
  exact ⟨s, sent, places, run_nodesConserved (Run.guarded_of_foldlM IdleSends step history result)⟩

/-- A packet that `IdleWrite` cannot send. -/
theorem idleError_leaks :
    ¬∀ (maxSndPktLen : Nat) (connectFlag : Bool) (history : List UdpEvent) (s : CUdpCommClient),
      Run (fun s event s' => s.step event = some s') { maxSndPktLen, connectFlag } history s →
        s.Conserved := by
  intro all
  let history : List UdpEvent :=
    [.push ⟨1, 2⟩ [1] 10, .fill 0 true, .timeout, .next, .sendto (some 10051)]
  let performed := history.foldlM step { maxSndPktLen := 1024, connectFlag := true }
  have computed : performed.map (fun s => ((s.nodes 10).isSome, s.places)) = some (true, []) := by
    decide
  obtain ⟨s, result, same⟩ := Option.map_eq_some_iff.mp computed
  obtain ⟨alive, nowhere⟩ := Prod.mk.inj same
  have conserved := all 1024 true history s (Run.of_foldlM step history result)
  have here := (conserved.owned.held 10).mp (Option.isSome_iff_ne_none.mp alive)
  rw [nowhere] at here
  exact List.not_mem_nil here

end Cgsf.Proof.P2P.CUdpCommClient
