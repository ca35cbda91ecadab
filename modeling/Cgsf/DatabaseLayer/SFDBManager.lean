import Cgsf.Library.Transition

/-!
# Database requests

Threads that call `SendDBRequest`, the thread of the manager and those of its workers, one step after
another. Requests, workers and threads are named by numbers, messages by their address.
-/

namespace Cgsf.DatabaseLayer

abbrev BasePacket := Nat

structure SFDBRequest where
  message : Option BasePacket := none
  owner : Option Nat := none
  deriving DecidableEq, Repr

/-- A thread that calls `SendDBRequest`: it has read the size of the request pool, or holds what
`GetDBReq` returned. -/
inductive Sender where
  | idle
  | sized (message : BasePacket) (size : Nat)
  | holding (message : BasePacket) (request : Nat)
  deriving DecidableEq, Repr

/-- The thread of the manager: it has taken a request, and then a worker for it. -/
inductive Dispatch where
  | waiting
  | dequeued (request : Nat)
  | chosen (request worker : Nat)
  deriving DecidableEq, Repr

/-- The thread of a worker: before and after `call`, and between the two pushes of
`return_to_work`. -/
inductive WorkerPoint where
  | waiting
  | dequeued (request : Nat)
  | called (request : Nat)
  | returning (request : Nat)
  deriving DecidableEq, Repr

structure SFDBWorker where
  queue : List Nat := []
  svc : WorkerPoint := .waiting
  deriving DecidableEq, Repr

/-- A message that was given to a database: by the thread of which worker, and to the database of
which. -/
structure Executed where
  worker : Nat
  database : Option Nat
  message : Option BasePacket
  deriving DecidableEq, Repr

structure SFDBManager where
  requests : Nat → SFDBRequest := fun _ => {}
  newRequests : Nat := 0
  reqQueue : List Nat := []
  queue : List Nat := []
  queueWorkers : List Nat := []
  /-- The worker that holds `m_Workers_Lock`. -/
  workersLock : Option Nat := none
  svc : Dispatch := .waiting
  workers : List SFDBWorker := []
  senders : List Sender := []
  executed : List Executed := []
  accepted : List BasePacket := []
  refused : List BasePacket := []

/-- What a thread does next. -/
inductive DBStep where
  | sendDBRequest (thread : Nat) (message : BasePacket)
  | getDBReq (thread : Nat)
  | perform (thread : Nat)
  | dequeue
  | chooseDBWorker
  | dispatch
  | workerDequeue (worker : Nat)
  | call (worker : Nat)
  | returnWorker (worker : Nat)
  | returnRequest (worker : Nat)
  deriving DecidableEq, Repr

/-- A step of a thread that calls `SendDBRequest`. -/
def DBStep.sends : DBStep → Bool
  | .sendDBRequest .. | .getDBReq _ | .perform _ => true
  | _ => false

namespace SFDBManager

/-- After `Create_Worker_Pool`. -/
def init (workerPoolSize threads : Nat) : SFDBManager where
  queueWorkers := List.range workerPoolSize
  workers := List.replicate workerPoolSize {}
  senders := List.replicate threads .idle

variable (manager : SFDBManager)

/-- One request is written to. -/
def edit (request : Nat) (f : SFDBRequest → SFDBRequest) : Nat → SFDBRequest :=
  fun r => if r = request then f (manager.requests r) else manager.requests r

/-- `SendDBRequest` up to the size check of `GetDBReq`, which takes no lock. -/
def sendDBRequest (thread : Nat) (message : BasePacket) : Option SFDBManager :=
  match manager.senders[thread]? with
  | some .idle => some { manager with
      senders := manager.senders.set thread (.sized message manager.reqQueue.length) }
  | _ => none

/-- The rest of `GetDBReq`; `SendDBRequest` returns FALSE where `Pop` returned NULL. -/
def getDBReq (thread : Nat) : Option SFDBManager :=
  match manager.senders[thread]? with
  | some (.sized message size) =>
      if size = 0 then some { manager with
        newRequests := manager.newRequests + 1
        senders := manager.senders.set thread (.holding message manager.newRequests) }
      else
        match manager.reqQueue with
        | request :: reqQueue => some { manager with
            reqQueue, senders := manager.senders.set thread (.holding message request) }
        | [] => some { manager with
            senders := manager.senders.set thread .idle, refused := message :: manager.refused }
  | _ => none

/-- `AttachDBMessage` and `perform`, after which `SendDBRequest` returns TRUE. -/
def perform (thread : Nat) : Option SFDBManager :=
  match manager.senders[thread]? with
  | some (.holding message request) => some { manager with
      requests := manager.edit request ({ · with message := some message })
      queue := manager.queue ++ [request]
      senders := manager.senders.set thread .idle
      accepted := message :: manager.accepted }
  | _ => none

def dequeue : Option SFDBManager :=
  match manager.svc, manager.queue with
  | .waiting, request :: queue => some { manager with queue, svc := .dequeued request }
  | _, _ => none

/-- The manager waits until it has the lock and there is an idle worker. -/
def chooseDBWorker : Option SFDBManager :=
  match manager.svc, manager.workersLock, manager.queueWorkers with
  | .dequeued request, none, worker :: queueWorkers =>
      some { manager with queueWorkers, svc := .chosen request worker }
  | _, _, _ => none

def dispatch : Option SFDBManager :=
  match manager.svc with
  | .chosen request worker => some { manager with
      requests := manager.edit request ({ · with owner := some worker })
      workers := manager.workers.modify worker fun w => { w with queue := w.queue ++ [request] }
      svc := .waiting }
  | _ => none

def workerDequeue (worker : Nat) : Option SFDBManager :=
  match manager.workers[worker]? with
  | some { queue := request :: queue, svc := .waiting } => some { manager with
      workers := manager.workers.set worker { queue, svc := .dequeued request } }
  | _ => none

def call (worker : Nat) : Option SFDBManager :=
  match manager.workers[worker]? with
  | some { queue, svc := .dequeued request } => some { manager with
      executed := ⟨worker, (manager.requests request).owner, (manager.requests request).message⟩ ::
        manager.executed
      requests := manager.edit request ({ · with message := none })
      workers := manager.workers.set worker { queue, svc := .called request } }
  | _ => none

def returnWorker (worker : Nat) : Option SFDBManager :=
  match manager.workers[worker]?, manager.workersLock with
  | some { queue, svc := .called request }, none => some { manager with
      workersLock := some worker
      queueWorkers := manager.queueWorkers ++ [worker]
      workers := manager.workers.set worker { queue, svc := .returning request } }
  | _, _ => none

def returnRequest (worker : Nat) : Option SFDBManager :=
  match manager.workers[worker]? with
  | some { queue, svc := .returning request } => some { manager with
      workersLock := none
      reqQueue := manager.reqQueue ++ [request]
      workers := manager.workers.set worker { queue, svc := .waiting } }
  | _ => none

/-- Nothing when the thread is not there or has to wait. -/
def step : DBStep → Option SFDBManager
  | .sendDBRequest thread message => manager.sendDBRequest thread message
  | .getDBReq thread => manager.getDBReq thread
  | .perform thread => manager.perform thread
  | .dequeue => manager.dequeue
  | .chooseDBWorker => manager.chooseDBWorker
  | .dispatch => manager.dispatch
  | .workerDequeue worker => manager.workerDequeue worker
  | .call worker => manager.call worker
  | .returnWorker worker => manager.returnWorker worker
  | .returnRequest worker => manager.returnRequest worker

def Steps (e : DBStep) (manager' : SFDBManager) : Prop := manager.step e = some manager'

end SFDBManager

/-- It has seen a request in the pool. -/
def Sender.saw : Sender → Bool
  | .sized _ size => size ≠ 0
  | _ => false

/-! ## Where requests are -/

def Sender.hands : Sender → List Nat
  | .holding _ request => [request]
  | _ => []

def Dispatch.hands : Dispatch → List Nat
  | .waiting => []
  | .dequeued request => [request]
  | .chosen request _ => [request]

def Dispatch.executing : Dispatch → Nat → Nat
  | .chosen _ given, worker => if given = worker then 1 else 0
  | _, _ => 0

def WorkerPoint.hands : WorkerPoint → List Nat
  | .waiting => []
  | .dequeued request => [request]
  | .called request => [request]
  | .returning request => [request]

def SFDBWorker.hands : SFDBWorker → List Nat
  | { queue, svc } => queue ++ svc.hands

/-- Requests that a worker has not executed yet. -/
def SFDBWorker.ahead : SFDBWorker → List Nat
  | { queue, svc := .dequeued request } => request :: queue
  | { queue, svc := _ } => queue

/-- How many requests a worker has that were not executed, or not given back. -/
def SFDBWorker.executing : SFDBWorker → Nat
  | { queue, svc := .dequeued _ } => queue.length + 1
  | { queue, svc := .called _ } => queue.length + 1
  | { queue, svc := _ } => queue.length

namespace SFDBManager

variable (manager : SFDBManager)

/-- Requests that a thread holds: one on its way into the activation queue, the one that the manager
hands to a worker, and those of the workers. -/
def hands : List Nat :=
  manager.senders.flatMap Sender.hands ++ manager.svc.hands ++
    manager.workers.flatMap SFDBWorker.hands

/-- Requests whose message is not executed yet. -/
def ahead : List Nat :=
  manager.queue ++ manager.svc.hands ++ manager.workers.flatMap SFDBWorker.ahead

/-- The same, with the request that the manager is about to give to it. -/
def executing (worker : Nat) : Nat :=
  manager.svc.executing worker +
  match manager.workers[worker]? with
  | some worker => worker.executing
  | none => 0

/-- A message is executed once, by one worker on its own database, for each time it was accepted or is
still on its way; none is lost; a worker is idle or executes one request; a request object is in one
place. -/
structure Conserved : Prop where
  messages : (manager.executed.map (·.message) ++
    manager.ahead.map fun request => (manager.requests request).message).Perm
      (manager.accepted.map some)
  own : ∀ e ∈ manager.executed, e.database = some e.worker
  lost : manager.refused = []
  workers : ∀ worker < manager.workers.length,
    manager.queueWorkers.count worker + manager.executing worker = 1
  requests : (manager.reqQueue ++ manager.queue ++ manager.hands).Perm
    (List.range manager.newRequests)

/-- The steps of the manager and its workers. -/
def Serves (e : DBStep) (manager' : SFDBManager) : Prop :=
  manager.Steps e manager' ∧ e.sends = false

/-- However the manager and its workers go on, after so many steps they stop, and then everything
that was accepted is executed. -/
def Drains : Prop :=
  ∃ n, ∀ history last, Library.Run Serves manager history last → history.length ≤ n ∧
    ((∀ e next, ¬last.Serves e next) →
      (last.executed.map (·.message)).Perm (last.accepted.map some))

/-- A thread that saw a request in the pool still finds one. -/
def Finds : DBStep → Prop
  | .getDBReq thread => ∀ sender ∈ manager.senders[thread]?, sender.saw → manager.reqQueue ≠ []
  | _ => True

instance : (e : DBStep) → Decidable (manager.Finds e)
  | .getDBReq thread => inferInstanceAs (Decidable
      (∀ sender ∈ manager.senders[thread]?, sender.saw → manager.reqQueue ≠ []))
  | .sendDBRequest .. | .perform _ | .dequeue | .chooseDBWorker | .dispatch | .workerDequeue _
  | .call _ | .returnWorker _ | .returnRequest _ => .isTrue trivial

end SFDBManager

end Cgsf.DatabaseLayer
