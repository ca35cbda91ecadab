import Cgsf.DatabaseLayer.SFDBManager
import Mathlib.Algebra.Ring.Nat

/-!
# No database request is lost or done twice

Every step takes a request, a worker or a message from one place and puts it into another.
-/

namespace Cgsf.Proof.DatabaseLayer
open Cgsf.DatabaseLayer Library

section Places

variable {α : Type*} {f : α → List Nat} {xs : List α} {x y : α} {i r : Nat}

theorem sum_map_set {g : α → Nat} (holder : xs[i]? = some x) :
    ((xs.set i y).map g).sum + g x = (xs.map g).sum + g y := by
  induction xs generalizing i with
  | nil => simp at holder
  | cons z xs ih =>
      cases i with
      | zero =>
          obtain rfl : z = x := by simpa using holder
          simp only [List.set_cons_zero, List.map_cons, List.sum_cons]
          omega
      | succ i =>
          have rest := ih (i := i) (by simpa using holder)
          simp only [List.set_cons_succ, List.map_cons, List.sum_cons]
          omega

theorem count_flatMap_set (holder : xs[i]? = some x) :
    ((xs.set i y).flatMap f).count r + (f x).count r = (xs.flatMap f).count r + (f y).count r := by
  rw [List.count_flatMap, List.count_flatMap]
  exact sum_map_set holder

theorem modify_eq_set {g : α → α} (holder : xs[i]? = some x) : xs.modify i g = xs.set i (g x) := by
  obtain ⟨inside, rfl⟩ := List.getElem?_eq_some_iff.mp holder
  apply List.ext_getElem? fun j => ?_
  rw [List.getElem?_modify, List.getElem?_set]
  by_cases same : i = j
  · subst same
    simp [inside]
  · simp [same]

end Places

/-- What each step does, and when. -/
inductive Effect (m : SFDBManager) : DBStep → SFDBManager → Prop where
  | sendDBRequest {thread : Nat} {message : BasePacket}
      (sender : m.senders[thread]? = some .idle) :
      Effect m (.sendDBRequest thread message) { m with
        senders := m.senders.set thread (.sized message m.reqQueue.length) }
  | new {thread : Nat} {message : BasePacket}
      (sender : m.senders[thread]? = some (.sized message 0)) :
      Effect m (.getDBReq thread) { m with
        newRequests := m.newRequests + 1
        senders := m.senders.set thread (.holding message m.newRequests) }
  | pop {thread size request : Nat} {message : BasePacket} {reqQueue : List Nat} (nonzero : size ≠ 0)
      (sender : m.senders[thread]? = some (.sized message size))
      (front : m.reqQueue = request :: reqQueue) :
      Effect m (.getDBReq thread) { m with
        reqQueue, senders := m.senders.set thread (.holding message request) }
  | refuse {thread size : Nat} {message : BasePacket} (nonzero : size ≠ 0)
      (sender : m.senders[thread]? = some (.sized message size)) (empty : m.reqQueue = []) :
      Effect m (.getDBReq thread) { m with
        senders := m.senders.set thread .idle, refused := message :: m.refused }
  | perform {thread request : Nat} {message : BasePacket}
      (sender : m.senders[thread]? = some (.holding message request)) :
      Effect m (.perform thread) { m with
        requests := m.edit request ({ · with message := some message })
        queue := m.queue ++ [request]
        senders := m.senders.set thread .idle
        accepted := message :: m.accepted }
  | dequeue {request : Nat} {queue : List Nat} (svc : m.svc = .waiting)
      (front : m.queue = request :: queue) :
      Effect m .dequeue { m with queue, svc := .dequeued request }
  | chooseDBWorker {request worker : Nat} {queueWorkers : List Nat} (svc : m.svc = .dequeued request)
      (lock : m.workersLock = none) (front : m.queueWorkers = worker :: queueWorkers) :
      Effect m .chooseDBWorker { m with queueWorkers, svc := .chosen request worker }
  | dispatch {request worker : Nat} (svc : m.svc = .chosen request worker) :
      Effect m .dispatch { m with
        requests := m.edit request ({ · with owner := some worker })
        workers := m.workers.modify worker fun w => { w with queue := w.queue ++ [request] }
        svc := .waiting }
  | workerDequeue {worker request : Nat} {queue : List Nat}
      (here : m.workers[worker]? = some { queue := request :: queue, svc := .waiting }) :
      Effect m (.workerDequeue worker) { m with
        workers := m.workers.set worker { queue, svc := .dequeued request } }
  | call {worker request : Nat} {queue : List Nat}
      (here : m.workers[worker]? = some { queue, svc := .dequeued request }) :
      Effect m (.call worker) { m with
        executed := ⟨worker, (m.requests request).owner, (m.requests request).message⟩ :: m.executed
        requests := m.edit request ({ · with message := none })
        workers := m.workers.set worker { queue, svc := .called request } }
  | returnWorker {worker request : Nat} {queue : List Nat}
      (here : m.workers[worker]? = some { queue, svc := .called request })
      (lock : m.workersLock = none) :
      Effect m (.returnWorker worker) { m with
        workersLock := some worker
        queueWorkers := m.queueWorkers ++ [worker]
        workers := m.workers.set worker { queue, svc := .returning request } }
  | returnRequest {worker request : Nat} {queue : List Nat}
      (here : m.workers[worker]? = some { queue, svc := .returning request }) :
      Effect m (.returnRequest worker) { m with
        workersLock := none
        reqQueue := m.reqQueue ++ [request]
        workers := m.workers.set worker { queue, svc := .waiting } }

variable {m m' : SFDBManager} {r w : Nat} {e : DBStep}

theorem steps_iff : m.Steps e m' ↔ Effect m e m' := by
  constructor
  · intro step
    cases e <;> simp only [SFDBManager.Steps, SFDBManager.step] at step
    case sendDBRequest thread message =>
      unfold SFDBManager.sendDBRequest at step
      split at step
      · cases step
        exact .sendDBRequest ‹_›
      · contradiction
    case getDBReq thread =>
      unfold SFDBManager.getDBReq at step
      split at step
      · split at step
        · subst_vars
          cases step
          exact .new ‹_›
        · split at step <;> cases step
          · exact .pop ‹_› ‹_› ‹_›
          · exact .refuse ‹_› ‹_› ‹_›
      · contradiction
    case perform thread =>
      unfold SFDBManager.perform at step
      split at step
      · cases step
        exact .perform ‹_›
      · contradiction
    case dequeue =>
      unfold SFDBManager.dequeue at step
      split at step
      · cases step
        exact .dequeue ‹_› ‹_›
      · contradiction
    case chooseDBWorker =>
      unfold SFDBManager.chooseDBWorker at step
      split at step
      · cases step
        exact .chooseDBWorker ‹_› ‹_› ‹_›
      · contradiction
    case dispatch =>
      unfold SFDBManager.dispatch at step
      split at step
      · cases step
        exact .dispatch ‹_›
      · contradiction
    case workerDequeue worker =>
      unfold SFDBManager.workerDequeue at step
      split at step
      · cases step
        exact .workerDequeue ‹_›
      · contradiction
    case call worker =>
      unfold SFDBManager.call at step
      split at step
      · cases step
        exact .call ‹_›
      · contradiction
    case returnWorker worker =>
      unfold SFDBManager.returnWorker at step
      split at step
      · cases step
        exact .returnWorker ‹_› ‹_›
      · contradiction
    case returnRequest worker =>
      unfold SFDBManager.returnRequest at step
      split at step
      · cases step
        exact .returnRequest ‹_›
      · contradiction
  · intro effect
    cases effect <;> simp [SFDBManager.Steps, SFDBManager.step, SFDBManager.sendDBRequest,
      SFDBManager.getDBReq, SFDBManager.perform, SFDBManager.dequeue, SFDBManager.chooseDBWorker,
      SFDBManager.dispatch, SFDBManager.workerDequeue, SFDBManager.call, SFDBManager.returnWorker,
      SFDBManager.returnRequest, *]

/-- Every request that was made is in one place. -/
def Placed (m : SFDBManager) : Prop :=
  ∀ r, m.reqQueue.count r + m.queue.count r + m.hands.count r = if r < m.newRequests then 1 else 0

/-- Every worker is idle or has one request. -/
structure Employed (m : SFDBManager) : Prop where
  once : ∀ w, m.queueWorkers.count w + m.executing w = if w < m.workers.length then 1 else 0
  lock : ∀ w, m.workersLock = some w ↔
    ∃ queue request, m.workers[w]? = some { queue, svc := .returning request }

theorem Employed.chosen (employed : Employed m) (svc : m.svc = .chosen r w) :
    ∃ worker, m.workers[w]? = some worker := by
  have once := employed.once w
  unfold SFDBManager.executing at once
  simp only [svc, Dispatch.executing, if_true] at once
  by_contra none
  have missing : ¬w < m.workers.length := fun inside => none ⟨_, List.getElem?_eq_getElem inside⟩
  rw [if_neg missing] at once
  omega

theorem step_placed (placed : Placed m) (employed : Employed m) (effect : Effect m e m') :
    Placed m' := by
  intro r
  have before := placed r
  unfold SFDBManager.hands at before ⊢
  simp only [List.count_append] at before ⊢
  cases effect with
  | @sendDBRequest thread message sender =>
      have moved := count_flatMap_set (f := Sender.hands) (r := r)
        (y := .sized message m.reqQueue.length) sender
      simp only [Sender.hands, List.count_nil] at moved ⊢
      omega
  | @new thread message sender =>
      have moved := count_flatMap_set (f := Sender.hands) (r := r)
        (y := .holding message m.newRequests) sender
      simp only [Sender.hands, List.count_nil, List.count_singleton, beq_iff_eq] at moved ⊢
      grind
  | @pop thread size request message reqQueue nonzero sender front =>
      have moved := count_flatMap_set (f := Sender.hands) (r := r) (y := .holding message request)
        sender
      rw [front] at before
      simp only [Sender.hands, List.count_nil, List.count_cons] at moved before ⊢
      omega
  | refuse nonzero sender empty =>
      have moved := count_flatMap_set (f := Sender.hands) (r := r) (y := .idle) sender
      simp only [Sender.hands, List.count_nil] at moved ⊢
      omega
  | perform sender =>
      have moved := count_flatMap_set (f := Sender.hands) (r := r) (y := .idle) sender
      simp only [Sender.hands, List.count_nil, List.count_append] at moved ⊢
      omega
  | dequeue svc front =>
      rw [front, svc] at before
      simp only [Dispatch.hands, List.count_nil, List.count_cons] at before ⊢
      omega
  | chooseDBWorker svc lock front =>
      rw [svc] at before
      exact before
  | @dispatch request _ svc =>
      obtain ⟨worker, here⟩ := employed.chosen svc
      have moved := count_flatMap_set (f := SFDBWorker.hands) (r := r)
        (y := { worker with queue := worker.queue ++ [request] }) here
      rw [svc] at before
      simp only [modify_eq_set here, SFDBWorker.hands, Dispatch.hands, List.count_nil, List.count_append] at before moved ⊢
      omega
  | @workerDequeue _ request queue here =>
      have moved := count_flatMap_set (f := SFDBWorker.hands) (r := r)
        (y := { queue, svc := .dequeued request }) here
      simp only [SFDBWorker.hands, WorkerPoint.hands, List.count_nil, List.count_append, List.count_cons] at moved ⊢
      omega
  | @call _ request queue here =>
      have moved := count_flatMap_set (f := SFDBWorker.hands) (r := r)
        (y := { queue, svc := .called request }) here
      simp only [SFDBWorker.hands, WorkerPoint.hands, List.count_append] at moved ⊢
      omega
  | @returnWorker _ request queue here lock =>
      have moved := count_flatMap_set (f := SFDBWorker.hands) (r := r)
        (y := { queue, svc := .returning request }) here
      simp only [SFDBWorker.hands, WorkerPoint.hands, List.count_append] at moved ⊢
      omega
  | @returnRequest _ request queue here =>
      have moved := count_flatMap_set (f := SFDBWorker.hands) (r := r)
        (y := { queue, svc := .waiting }) here
      simp only [SFDBWorker.hands, WorkerPoint.hands, List.count_nil, List.count_append] at moved ⊢
      omega

/-- One worker changes what it does. -/
theorem once_set {v : Nat} {old new : SFDBWorker} (employed : Employed m)
    (here : m.workers[v]? = some old) (workers : m'.workers = m.workers.set v new)
    (turns : ∀ w, m'.queueWorkers.count w + m'.svc.executing w + (if v = w then new.executing else 0) =
      m.queueWorkers.count w + m.svc.executing w + if v = w then old.executing else 0) (w : Nat) :
    m'.queueWorkers.count w + m'.executing w = if w < m'.workers.length then 1 else 0 := by
  have once := employed.once w
  have turns := turns w
  obtain ⟨inside, -⟩ := List.getElem?_eq_some_iff.mp here
  unfold SFDBManager.executing at once ⊢
  rw [workers, List.length_set, List.getElem?_set]
  by_cases same : v = w
  · subst same
    simp only [here, inside, if_true] at once turns ⊢
    omega
  · simp only [same, if_false] at turns ⊢
    omega

theorem step_once (employed : Employed m) (effect : Effect m e m') (w : Nat) :
    m'.queueWorkers.count w + m'.executing w = if w < m'.workers.length then 1 else 0 := by
  have before := employed.once w
  cases effect with
  | dequeue svc front =>
      unfold SFDBManager.executing at before ⊢
      rw [svc] at before
      exact before
  | chooseDBWorker svc lock front =>
      unfold SFDBManager.executing at before ⊢
      rw [svc, front, List.count_cons] at before
      simp only [beq_iff_eq, Dispatch.executing] at before ⊢
      omega
  | @dispatch request v svc =>
      obtain ⟨worker, here⟩ := employed.chosen svc
      refine once_set employed here (modify_eq_set here) (fun w => ?_) w
      have grows : ({ worker with queue := worker.queue ++ [request] } : SFDBWorker).executing =
          worker.executing + 1 := by
        obtain ⟨queue, point⟩ := worker
        cases point <;> simp [SFDBWorker.executing]
      rw [grows, svc]
      simp only [Dispatch.executing]
      split <;> omega
  | workerDequeue here =>
      refine once_set employed here rfl (fun w => ?_) w
      simp only [SFDBWorker.executing, List.length_cons]
  | call here =>
      refine once_set employed here rfl (fun w => ?_) w
      simp only [SFDBWorker.executing]
  | returnWorker here lock =>
      refine once_set employed here rfl (fun w => ?_) w
      simp only [SFDBWorker.executing, List.count_append, List.count_singleton, beq_iff_eq]
      split <;> omega
  | returnRequest here =>
      refine once_set employed here rfl (fun w => ?_) w
      simp only [SFDBWorker.executing]
  | _ => exact before

/-- A worker that is not between the two pushes before and after. -/
theorem lock_set {v : Nat} {old new : SFDBWorker} (employed : Employed m)
    (here : m.workers[v]? = some old) (lock : m'.workersLock = m.workersLock)
    (workers : m'.workers = m.workers.set v new)
    (outside : ∀ request, old.svc ≠ .returning request)
    (outside' : ∀ request, new.svc ≠ .returning request) (w : Nat) :
    m'.workersLock = some w ↔
      ∃ queue request, m'.workers[w]? = some { queue, svc := .returning request } := by
  obtain ⟨inside, -⟩ := List.getElem?_eq_some_iff.mp here
  rw [lock, employed.lock w, workers, List.getElem?_set]
  by_cases same : v = w
  · subst same
    simp only [here, inside, if_true, Option.some.injEq]
    constructor
    · rintro ⟨queue, request, is⟩
      exact absurd (congrArg SFDBWorker.svc is) (outside request)
    · rintro ⟨queue, request, is⟩
      exact absurd (congrArg SFDBWorker.svc is) (outside' request)
  · simp only [same, if_false]

theorem step_lock (employed : Employed m) (effect : Effect m e m') (w : Nat) :
    m'.workersLock = some w ↔
      ∃ queue request, m'.workers[w]? = some { queue, svc := .returning request } := by
  cases effect with
  | @dispatch request v svc =>
      obtain ⟨worker, here⟩ := employed.chosen svc
      have before := employed.lock w
      simp only [modify_eq_set here, List.getElem?_set]
      rw [before]
      by_cases same : v = w
      · subst same
        obtain ⟨inside, -⟩ := List.getElem?_eq_some_iff.mp here
        obtain ⟨queue, point⟩ := worker
        simp only [here, inside, if_true, Option.some.injEq, SFDBWorker.mk.injEq]
        simp
      · simp only [same, if_false]
  | workerDequeue here =>
      refine lock_set employed here ?_ rfl ?_ ?_ w
      · rfl
      · simp
      · simp
  | call here =>
      refine lock_set employed here ?_ rfl ?_ ?_ w
      · rfl
      · simp
      · simp
  | @returnWorker v request queue here lock =>
      obtain ⟨inside, -⟩ := List.getElem?_eq_some_iff.mp here
      have before := employed.lock w
      rw [lock] at before
      simp only [List.getElem?_set, Option.some.injEq]
      by_cases same : v = w
      · simp [same] at inside ⊢
        exact inside
      · simp only [same, if_false, false_iff]
        exact fun returning => absurd (before.mpr returning) (by simp)
  | @returnRequest v request queue here =>
      obtain ⟨inside, -⟩ := List.getElem?_eq_some_iff.mp here
      have holds := (employed.lock v).mpr ⟨queue, request, here⟩
      have before := employed.lock w
      rw [holds] at before
      simp only [List.getElem?_set]
      by_cases same : v = w
      · simp [same]
      · simp only [same, if_false, Option.some.injEq] at before ⊢
        simp only [← before]
        simp
  | _ => exact employed.lock w

theorem step_employed (employed : Employed m) (effect : Effect m e m') : Employed m' :=
  ⟨step_once employed effect, step_lock employed effect⟩

/-! ## Messages -/

/-- Every accepted message was executed once or is in a request. -/
def Messages (m : SFDBManager) : Prop :=
  (m.executed.map (·.message) ++ m.ahead.map fun r => (m.requests r).message).Perm
    (m.accepted.map some)

/-- A request that a worker has is its own, and so was what it has executed. -/
structure Owned (m : SFDBManager) : Prop where
  executed : ∀ e ∈ m.executed, e.database = some e.worker
  ahead : ∀ (w : Nat) (worker : SFDBWorker), m.workers[w]? = some worker → ∀ r ∈ worker.ahead,
    (m.requests r).owner = some w

theorem count_ahead_le (worker : SFDBWorker) : worker.ahead.count r ≤ worker.hands.count r := by
  obtain ⟨queue, point⟩ := worker
  cases point <;>
    simp only [SFDBWorker.ahead, SFDBWorker.hands, WorkerPoint.hands, List.count_append,
      List.count_cons, List.count_nil] <;> omega

theorem count_flatMap_ahead_le (workers : List SFDBWorker) :
    (workers.flatMap SFDBWorker.ahead).count r ≤ (workers.flatMap SFDBWorker.hands).count r := by
  induction workers with
  | nil => simp
  | cons worker workers ih =>
      have first := count_ahead_le (r := r) worker
      simp only [List.flatMap_cons, List.count_append]
      omega

theorem Placed.not_ahead (placed : Placed m)
    (elsewhere : 0 < m.reqQueue.count r + (m.senders.flatMap Sender.hands).count r) :
    r ∉ m.ahead := by
  have once := placed r
  have below := count_flatMap_ahead_le (r := r) m.workers
  unfold SFDBManager.hands at once
  rw [← List.count_eq_zero]
  unfold SFDBManager.ahead
  simp only [List.count_append] at once ⊢
  split at once <;> omega

theorem Placed.ahead_le (placed : Placed m) (r : Nat) : m.ahead.count r ≤ 1 := by
  have once := placed r
  have below := count_flatMap_ahead_le (r := r) m.workers
  unfold SFDBManager.hands at once
  unfold SFDBManager.ahead
  simp only [List.count_append] at once ⊢
  split at once <;> omega

theorem map_edit {f : SFDBRequest → SFDBRequest} {xs : List Nat} (fresh : r ∉ xs) :
    (xs.map fun x => (m.edit r f x).message) = xs.map fun x => (m.requests x).message := by
  apply List.map_congr_left
  intro x member
  unfold SFDBManager.edit
  rw [if_neg]
  rintro rfl
  exact fresh member

theorem mem_flatMap_of_getElem? {α : Type*} {f : α → List Nat} {xs : List α} {x : α} {i : Nat}
    (here : xs[i]? = some x) (member : r ∈ f x) : r ∈ xs.flatMap f :=
  List.mem_flatMap.mpr ⟨x, List.mem_of_getElem? here, member⟩

theorem messages_quiet (messages : Messages m) (ahead : m'.ahead.Perm m.ahead)
    (same : ∀ r, (m'.requests r).message = (m.requests r).message)
    (executed : m'.executed = m.executed) (accepted : m'.accepted = m.accepted) : Messages m' := by
  unfold Messages at messages ⊢
  simp only [same, executed, accepted]
  exact ((ahead.map _).append_left _).trans messages

theorem ahead_set {v : Nat} {old new : SFDBWorker} (here : m.workers[v]? = some old)
    (workers : m'.workers = m.workers.set v new) (queue : m'.queue = m.queue) (svc : m'.svc = m.svc)
    (same : new.ahead = old.ahead) : m'.ahead.Perm m.ahead := by
  rw [List.perm_iff_count]
  intro r
  have moved := count_flatMap_set (f := SFDBWorker.ahead) (r := r) (y := new) here
  unfold SFDBManager.ahead
  rw [workers, queue, svc]
  rw [same] at moved
  simp only [List.count_append]
  omega

theorem step_messages (messages : Messages m) (placed : Placed m) (employed : Employed m)
    (effect : Effect m e m') : Messages m' := by
  cases effect with
  | @perform thread request message sender =>
      have held : request ∈ m.senders.flatMap Sender.hands :=
        mem_flatMap_of_getElem? sender List.mem_cons_self
      have fresh : request ∉ m.ahead :=
        placed.not_ahead (Nat.add_pos_right _ (List.count_pos_iff.mpr held))
      have more : (m.queue ++ [request] ++ m.svc.hands ++ m.workers.flatMap SFDBWorker.ahead).Perm
          (request :: m.ahead) := by
        rw [List.perm_iff_count]
        intro r
        unfold SFDBManager.ahead
        simp only [List.count_append, List.count_cons, List.count_nil]
        omega
      have attached : (m.edit request ({ · with message := some message }) request).message =
          some message := by
        unfold SFDBManager.edit
        rw [if_pos rfl]
      unfold Messages at messages ⊢
      refine ((more.map _).append_left _).trans ?_
      simp only [List.map_cons, attached, map_edit fresh]
      exact List.perm_middle.trans (messages.cons _)
  | dequeue svc front =>
      refine messages_quiet messages ?_ (fun _ => rfl) rfl rfl
      unfold SFDBManager.ahead
      rw [svc, front, List.perm_iff_count]
      intro r
      simp only [Dispatch.hands, List.count_append, List.count_cons, List.count_nil]
      omega
  | chooseDBWorker svc lock front =>
      refine messages_quiet messages ?_ (fun _ => rfl) rfl rfl
      unfold SFDBManager.ahead
      rw [svc]
      exact .refl _
  | @dispatch request v svc =>
      obtain ⟨worker, here⟩ := employed.chosen svc
      refine messages_quiet messages ?_ (fun r => ?_) rfl rfl
      · have grows : ({ worker with queue := worker.queue ++ [request] } : SFDBWorker).ahead =
            worker.ahead ++ [request] := by
          obtain ⟨queue, point⟩ := worker
          cases point <;> simp [SFDBWorker.ahead]
        unfold SFDBManager.ahead
        rw [svc, modify_eq_set here, List.perm_iff_count]
        intro r
        have moved := count_flatMap_set (f := SFDBWorker.ahead) (r := r)
          (y := { worker with queue := worker.queue ++ [request] }) here
        rw [grows] at moved
        simp only [Dispatch.hands, List.count_append, List.count_nil] at moved ⊢
        omega
      · unfold SFDBManager.edit
        simp only
        split <;> simp_all
  | workerDequeue here =>
      refine messages_quiet messages (ahead_set here rfl rfl rfl ?_) (fun _ => rfl) rfl rfl
      rfl
  | @call v request queue here =>
      have fewer : m.ahead.Perm (request :: (m.queue ++ m.svc.hands ++
          (m.workers.set v { queue, svc := .called request }).flatMap SFDBWorker.ahead)) := by
        rw [List.perm_iff_count]
        intro r
        have moved := count_flatMap_set (f := SFDBWorker.ahead) (r := r)
          (y := { queue, svc := .called request }) here
        unfold SFDBManager.ahead
        simp only [SFDBWorker.ahead, List.count_append, List.count_cons] at moved ⊢
        omega
      have fresh : request ∉ m.queue ++ m.svc.hands ++
          (m.workers.set v { queue, svc := .called request }).flatMap SFDBWorker.ahead := by
        have once := placed.ahead_le request
        rw [fewer.count_eq, List.count_cons_self] at once
        rw [← List.count_eq_zero]
        omega
      unfold Messages at messages ⊢
      refine List.Perm.trans ?_ (((fewer.map _).symm.append_left _).trans messages)
      unfold SFDBManager.ahead
      simp only [List.map_cons, map_edit fresh, List.cons_append]
      exact List.perm_middle.symm
  | returnWorker here lock =>
      refine messages_quiet messages (ahead_set here rfl rfl rfl ?_) (fun _ => rfl) rfl rfl
      rfl
  | returnRequest here =>
      refine messages_quiet messages (ahead_set here rfl rfl rfl ?_) (fun _ => rfl) rfl rfl
      rfl
  | _ => exact messages

/-- A worker that has nothing new ahead of it. -/
theorem owned_set {v : Nat} {old new : SFDBWorker} (owned : Owned m)
    (here : m.workers[v]? = some old) (workers : m'.workers = m.workers.set v new)
    (same : ∀ r, (m'.requests r).owner = (m.requests r).owner) (fewer : new.ahead ⊆ old.ahead)
    (w : Nat) (worker : SFDBWorker) (there : m'.workers[w]? = some worker) :
    ∀ r ∈ worker.ahead, (m'.requests r).owner = some w := by
  intro r member
  rw [same]
  rw [workers, List.getElem?_set] at there
  by_cases moved : v = w
  · subst moved
    obtain ⟨inside, -⟩ := List.getElem?_eq_some_iff.mp here
    simp only [inside, if_true, Option.some.injEq] at there
    subst there
    exact owned.ahead v old here r (fewer member)
  · rw [if_neg moved] at there
    exact owned.ahead w worker there r member

theorem owner_edit {f : SFDBRequest → SFDBRequest} (same : ∀ q, (f q).owner = q.owner) (x : Nat) :
    (m.edit r f x).owner = (m.requests x).owner := by
  unfold SFDBManager.edit
  split
  · exact same _
  · rfl

theorem Placed.given_fresh (placed : Placed m) (svc : m.svc = .chosen r w) {v : Nat}
    {worker : SFDBWorker} (here : m.workers[v]? = some worker) : r ∉ worker.ahead := by
  intro member
  have once := placed.ahead_le r
  have twice : 0 < (m.workers.flatMap SFDBWorker.ahead).count r :=
    List.count_pos_iff.mpr (mem_flatMap_of_getElem? here member)
  unfold SFDBManager.ahead at once
  rw [svc] at once
  simp only [Dispatch.hands, List.count_append, List.count_cons_self] at once
  omega

theorem step_owned (owned : Owned m) (placed : Placed m) (employed : Employed m)
    (effect : Effect m e m') : Owned m' := by
  cases effect with
  | perform sender =>
      refine ⟨owned.executed, fun w worker here r member => ?_⟩
      refine Eq.trans (owner_edit ?_ r) (owned.ahead w worker here r member)
      exact fun _ => rfl
  | @dispatch request v svc =>
      refine ⟨owned.executed, fun w worker here r member => ?_⟩
      obtain ⟨old, there⟩ := employed.chosen svc
      obtain ⟨inside, -⟩ := List.getElem?_eq_some_iff.mp there
      simp only [modify_eq_set there, List.getElem?_set] at here
      unfold SFDBManager.edit
      dsimp only
      by_cases given : v = w
      · subst given
        simp only [inside, if_true, Option.some.injEq] at here
        subst here
        split
        · rfl
        · rename_i other
          refine owned.ahead v old there r ?_
          obtain ⟨queue, point⟩ := old
          cases point <;> simpa [SFDBWorker.ahead, other] using member
      · rw [if_neg given] at here
        rw [if_neg]
        · exact owned.ahead w worker here r member
        · rintro rfl
          exact placed.given_fresh svc here member
  | workerDequeue here =>
      refine ⟨owned.executed, owned_set owned here rfl (fun _ => rfl) ?_⟩
      exact List.Subset.refl _
  | @call v request queue here =>
      refine ⟨fun e member => ?_, owned_set owned here rfl (owner_edit ?_) ?_⟩
      · rcases List.mem_cons.mp member with rfl | member
        · exact owned.ahead v _ here request List.mem_cons_self
        · exact owned.executed e member
      · exact fun _ => rfl
      · exact List.subset_cons_self _ _
  | returnWorker here lock =>
      refine ⟨owned.executed, owned_set owned here rfl (fun _ => rfl) ?_⟩
      exact List.Subset.refl _
  | returnRequest here =>
      refine ⟨owned.executed, owned_set owned here rfl (fun _ => rfl) ?_⟩
      exact List.Subset.refl _
  | _ => exact ⟨owned.executed, owned.ahead⟩

/-! ## Every run -/

structure Sound (m : SFDBManager) : Prop where
  placed : Placed m
  employed : Employed m
  messages : Messages m
  owned : Owned m

theorem step_sound (sound : Sound m) (effect : Effect m e m') : Sound m' where
  placed := step_placed sound.placed sound.employed effect
  employed := step_employed sound.employed effect
  messages := step_messages sound.messages sound.placed sound.employed effect
  owned := step_owned sound.owned sound.placed sound.employed effect

theorem flatMap_replicate_nil {α : Type*} {f : α → List Nat} {x : α} (nothing : f x = []) (n : Nat) :
    (List.replicate n x).flatMap f = [] := by
  rw [List.flatMap_eq_nil_iff]
  intro y member
  rw [List.eq_of_mem_replicate member, nothing]

theorem init_sound (workerPoolSize threads : Nat) : Sound (.init workerPoolSize threads) := by
  have senders := flatMap_replicate_nil (f := Sender.hands) (x := .idle) rfl threads
  have hands := flatMap_replicate_nil (f := SFDBWorker.hands) (x := {}) rfl workerPoolSize
  have ahead := flatMap_replicate_nil (f := SFDBWorker.ahead) (x := {}) rfl workerPoolSize
  refine ⟨fun r => ?_, ⟨fun w => ?_, fun w => ?_⟩, ?_, ⟨fun e member => ?_, fun w worker here => ?_⟩⟩
  · unfold SFDBManager.hands SFDBManager.init
    simp only [senders, hands]
    rfl
  · unfold SFDBManager.executing SFDBManager.init
    simp only [List.getElem?_replicate, List.length_replicate, Dispatch.executing, Nat.zero_add,
      List.count_range]
    split <;> rfl
  · unfold SFDBManager.init
    simp only [List.getElem?_replicate]
    refine iff_of_false (by simp) ?_
    rintro ⟨queue, request, here⟩
    split at here <;> simp at here
  · unfold Messages SFDBManager.ahead SFDBManager.init
    rw [ahead]
    exact .refl _
  · exact absurd member List.not_mem_nil
  · unfold SFDBManager.init at here
    simp only [List.getElem?_replicate] at here
    split at here
    · cases here
      simp [SFDBWorker.ahead]
    · contradiction

theorem conserved_iff (sound : Sound m) : m.Conserved ↔ m.refused = [] := by
  refine ⟨fun conserved => conserved.lost, fun lost => ⟨sound.messages, sound.owned.executed, lost,
    fun w inside => ?_, ?_⟩⟩
  · rw [sound.employed.once w, if_pos inside]
  · rw [List.perm_iff_count]
    intro r
    have once := sound.placed r
    rw [List.count_append, List.count_append, once, List.count_range]

/-- A message is refused where the pool that was seen filled is empty. -/
theorem step_refused (lost : m.refused = []) (effect : Effect m e m') :
    m'.refused = [] ↔ m.Finds e := by
  cases effect with
  | new here =>
      refine iff_of_true lost fun sender there saw => ?_
      cases here.symm.trans there
      simp [Sender.saw] at saw
  | pop nonzero here front =>
      refine iff_of_true lost fun sender there saw => ?_
      rw [front]
      exact List.cons_ne_nil _ _
  | refuse nonzero here empty =>
      refine iff_of_false (List.cons_ne_nil _ _) fun finds => ?_
      exact finds _ here (by simpa [Sender.saw] using nonzero) empty
  | _ => exact iff_of_true lost trivial

theorem step_workers (effect : Effect m e m') : m'.workers.length = m.workers.length := by
  cases effect <;> simp

/-! ## What is accepted gets executed -/

def WorkerPoint.steps : WorkerPoint → Nat
  | .waiting => 0
  | .dequeued _ => 3
  | .called _ => 2
  | .returning _ => 1

def Dispatch.steps : Dispatch → Nat
  | .waiting => 0
  | .dequeued _ => 6
  | .chosen .. => 5

def workerSteps (worker : SFDBWorker) : Nat :=
  4 * worker.queue.length + WorkerPoint.steps worker.svc

/-- How many steps the requests are away from the pool. -/
def stepsLeft (m : SFDBManager) : Nat :=
  7 * m.queue.length + Dispatch.steps m.svc + (m.workers.map workerSteps).sum

theorem serves_stepsLeft (employed : Employed m) (serves : m.Serves e m') :
    stepsLeft m' + 1 = stepsLeft m := by
  obtain ⟨step, inside⟩ := serves
  unfold stepsLeft
  cases steps_iff.mp step with
  | dequeue svc front =>
      rw [svc, front]
      simp only [Dispatch.steps, List.length_cons]
      omega
  | chooseDBWorker svc lock front =>
      rw [svc]
      simp only [Dispatch.steps]
      omega
  | @dispatch request v svc =>
      obtain ⟨worker, here⟩ := employed.chosen svc
      have moved := sum_map_set (g := workerSteps)
        (y := { worker with queue := worker.queue ++ [request] }) here
      rw [svc, modify_eq_set here]
      simp only [workerSteps, Dispatch.steps, List.length_append, List.length_singleton] at moved ⊢
      omega
  | @workerDequeue v request queue here =>
      have moved := sum_map_set (g := workerSteps) (y := { queue, svc := .dequeued request }) here
      simp only [workerSteps, WorkerPoint.steps, List.length_cons] at moved ⊢
      omega
  | @call v request queue here =>
      have moved := sum_map_set (g := workerSteps) (y := { queue, svc := .called request }) here
      simp only [workerSteps, WorkerPoint.steps] at moved ⊢
      omega
  | @returnWorker v request queue here lock =>
      have moved := sum_map_set (g := workerSteps) (y := { queue, svc := .returning request }) here
      simp only [workerSteps, WorkerPoint.steps] at moved ⊢
      omega
  | @returnRequest v request queue here =>
      have moved := sum_map_set (g := workerSteps) (y := { queue, svc := .waiting }) here
      simp only [workerSteps, WorkerPoint.steps] at moved ⊢
      omega
  | _ => contradiction

/-- A worker that cannot go on has nothing to do. -/
theorem worker_rests (employed : Employed m) (stuck : ∀ e m', ¬m.Serves e m') {worker : SFDBWorker}
    (here : m.workers[w]? = some worker) : worker = {} := by
  have serves {e : DBStep} {m' : SFDBManager} (effect : Effect m e m') (inside : e.sends = false) :
      False := stuck e m' ⟨steps_iff.mpr effect, inside⟩
  obtain ⟨queue, point⟩ := worker
  cases point with
  | waiting =>
      cases queue with
      | nil => rfl
      | cons request queue => exact (serves (.workerDequeue here) rfl).elim
  | dequeued request => exact (serves (.call here) rfl).elim
  | called request =>
      cases lock : m.workersLock with
      | none => exact (serves (.returnWorker here lock) rfl).elim
      | some v =>
          obtain ⟨queue, request, there⟩ := (employed.lock v).mp lock
          exact (serves (.returnRequest there) rfl).elim
  | returning request => exact (serves (.returnRequest here) rfl).elim

theorem ahead_of_stuck (employed : Employed m) (some : 0 < m.workers.length)
    (stuck : ∀ e m', ¬m.Serves e m') : m.ahead = [] := by
  have rests (worker : SFDBWorker) (member : worker ∈ m.workers) : worker = {} := by
    obtain ⟨w, here⟩ := List.mem_iff_getElem?.mp member
    exact worker_rests employed stuck here
  have unlocked : m.workersLock = none := by
    cases lock : m.workersLock with
    | none => rfl
    | some v =>
        obtain ⟨queue, request, there⟩ := (employed.lock v).mp lock
        cases worker_rests employed stuck there
  have idle : m.svc = .waiting ∧ m.queue = [] := by
    cases svc : m.svc with
    | waiting =>
        refine ⟨rfl, ?_⟩
        cases front : m.queue with
        | nil => rfl
        | cons request queue =>
            exact (stuck _ _ ⟨steps_iff.mpr (.dequeue svc front), rfl⟩).elim
    | chosen request v => exact (stuck _ _ ⟨steps_iff.mpr (.dispatch svc), rfl⟩).elim
    | dequeued request =>
        have once := employed.once 0
        unfold SFDBManager.executing at once
        have first := List.getElem?_eq_getElem some
        rw [first, rests _ (List.getElem_mem some), svc, if_pos some] at once
        cases front : m.queueWorkers with
        | nil => simp [front, Dispatch.executing, SFDBWorker.executing] at once
        | cons v queueWorkers =>
            exact (stuck _ _ ⟨steps_iff.mpr (.chooseDBWorker svc unlocked front), rfl⟩).elim
  unfold SFDBManager.ahead
  rw [idle.1, idle.2]
  simp only [Dispatch.hands, List.nil_append, List.flatMap_eq_nil_iff]
  intro worker member
  rw [rests worker member]
  rfl

theorem Sound.drains (sound : Sound m) (some : 0 < m.workers.length) : m.Drains := by
  refine ⟨stepsLeft m, fun history last run => ?_⟩
  have along : Sound last ∧ 0 < last.workers.length ∧ stepsLeft last + history.length = stepsLeft m := by
    refine run.invariant_history (I := fun history last => Sound last ∧ 0 < last.workers.length ∧
      stepsLeft last + history.length = stepsLeft m) ⟨sound, some, rfl⟩ ?_
    intro history m₁ e m₂ ⟨sound, some, left⟩ serves
    have effect := steps_iff.mp serves.1
    have closer := serves_stepsLeft sound.employed serves
    refine ⟨step_sound sound effect, by rwa [step_workers effect], ?_⟩
    rw [List.length_append, List.length_singleton]
    omega
  obtain ⟨sound, some, left⟩ := along
  refine ⟨by omega, fun stuck => ?_⟩
  have messages := sound.messages
  unfold Messages at messages
  rw [ahead_of_stuck sound.employed some stuck, List.map_nil, List.append_nil] at messages
  exact messages

/-- Steps at which no thread finds the pool empty that it saw filled lose nothing, and everything
that was accepted gets executed. -/
theorem run_conserved {workerPoolSize threads : Nat} (some : 0 < workerPoolSize)
    {history : List DBStep} (run : Run (Guarded SFDBManager.Finds SFDBManager.Steps)
      (.init workerPoolSize threads) history m) :
    m.Conserved ∧ m.Drains ∧ ∀ e m', m.Steps e m' → (m'.Conserved ↔ m.Finds e) := by
  have along : Sound m ∧ m.workers.length = workerPoolSize ∧ m.refused = [] := by
    refine run.invariant (I := fun m => Sound m ∧ m.workers.length = workerPoolSize ∧ m.refused = [])
      ⟨init_sound workerPoolSize threads, List.length_replicate, rfl⟩ ?_
    intro m e m' ⟨sound, workers, lost⟩ ⟨finds, step⟩
    have effect := steps_iff.mp step
    exact ⟨step_sound sound effect, by rw [step_workers effect, workers],
      (step_refused lost effect).mpr finds⟩
  obtain ⟨sound, workers, lost⟩ := along
  refine ⟨(conserved_iff sound).mpr lost, sound.drains (by rwa [workers]), fun e m' step => ?_⟩
  have effect := steps_iff.mp step
  rw [conserved_iff (step_sound sound effect)]
  exact step_refused lost effect

/-- Two threads, two workers, and a request that is used again. -/
def sharedPool : List DBStep :=
  [.sendDBRequest 0 3, .sendDBRequest 1 4, .getDBReq 1, .getDBReq 0, .perform 1, .dequeue, .perform 0,
    .chooseDBWorker, .dispatch, .dequeue, .workerDequeue 0, .chooseDBWorker, .dispatch, .call 0,
    .workerDequeue 1, .returnWorker 0, .call 1, .returnRequest 0, .sendDBRequest 1 5, .getDBReq 1,
    .returnWorker 1, .perform 1, .returnRequest 1, .dequeue]

theorem sharedPool_conserved : ∃ m : SFDBManager, m.executed.map (·.message) = [some 3, some 4] ∧
    m.accepted = [5, 3, 4] ∧ m.Conserved ∧ m.Drains ∧
      ∀ e m', m.Steps e m' → (m'.Conserved ↔ m.Finds e) := by
  have plays : (sharedPool.foldlM (fun (m : SFDBManager) e => if m.Finds e then m.step e else none)
      (.init 2 2)).map (fun m => (m.executed.map (·.message), m.accepted)) =
        some ([some 3, some 4], [5, 3, 4]) := by
    decide
  obtain ⟨m, result, shows⟩ := Option.map_eq_some_iff.mp plays
  obtain ⟨executed, accepted⟩ := Prod.mk.inj shows
  exact ⟨m, executed, accepted, run_conserved (by decide)
    (Run.guarded_of_foldlM SFDBManager.Finds SFDBManager.step sharedPool result)⟩

/-- The request that came back is seen by two threads. -/
def seenTwice : List DBStep :=
  [.sendDBRequest 0 3, .getDBReq 0, .perform 0, .dequeue, .chooseDBWorker, .dispatch,
    .workerDequeue 0, .call 0, .returnWorker 0, .returnRequest 0, .sendDBRequest 0 4,
    .sendDBRequest 1 5, .getDBReq 0, .getDBReq 1]

theorem seenTwice_lost : ∃ m : SFDBManager, Run SFDBManager.Steps (.init 1 2) seenTwice m ∧
    m.refused = [5] ∧ ¬m.Conserved := by
  have plays : (seenTwice.foldlM SFDBManager.step (.init 1 2)).map (·.refused) = some [5] := by
    decide
  obtain ⟨m, result, refused⟩ := Option.map_eq_some_iff.mp plays
  refine ⟨m, Run.of_foldlM _ _ result, refused, fun conserved => ?_⟩
  have lost := conserved.lost
  rw [refused] at lost
  contradiction

end Cgsf.Proof.DatabaseLayer
