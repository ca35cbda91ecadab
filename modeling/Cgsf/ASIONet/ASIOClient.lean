import Cgsf.ASIONet.ServerSession

/-!
# The send queue of a client

Each critical section is one step: a thread posts, a completed write takes its buffer off the queue,
and the same handler starts the next write later on.
-/

namespace Cgsf.ASIONet

/-- `handlers` are the calls of `handle_write` that have left the first critical section and are
about to post the buffer they found. The last four fields only record what happened. -/
structure ASIOClient where
  sendDataQueue : List Buffer := []
  sendDataSizeQueue : List Nat := []
  outstanding : List Write := []
  handlers : List Write := []
  copies : Nat := 0
  posted : List Buffer := []
  started : List Write := []
  deleted : List (Buffer × Buffer) := []
  deriving DecidableEq, Repr

inductive ClientEvent where
  | post (pData : List UInt8)
  | complete (k : Nat)
  | resume (k : Nat)
  deriving DecidableEq, Repr

namespace ASIOClient

variable (s : ASIOClient)

def asyncWrite (pSendData : Buffer) (nSize : Nat) : ASIOClient :=
  { s with
    outstanding := s.outstanding ++ [⟨pSendData, nSize⟩]
    started := s.started ++ [⟨pSendData, nSize⟩] }

def postSend : SendData → ASIOClient
  | .copy pData =>
      let pSendData : Buffer := ⟨s.copies, pData⟩
      let s := { s with
        copies := s.copies + 1
        posted := s.posted ++ [pSendData]
        sendDataQueue := s.sendDataQueue ++ [pSendData]
        sendDataSizeQueue := s.sendDataSizeQueue ++ [pData.length] }
      if s.sendDataQueue.length < 2 then s.asyncWrite pSendData pData.length else s
  | .immediately pData nSize => s.asyncWrite pData nSize

/-- The first critical section of the handler for a completed write of the buffer `written`. The
front of an empty queue is undefined. -/
def handleWrite (written : Buffer) : Option ASIOClient :=
  match s.sendDataQueue, s.sendDataSizeQueue with
  | front :: queue, _ :: sizes =>
      let s := { s with
        sendDataQueue := queue
        sendDataSizeQueue := sizes
        deleted := s.deleted ++ [(written, front)] }
      match queue, sizes with
      | [], _ => some s
      | pData :: _, nSize :: _ =>
          some (if nSize ≠ 0 then { s with handlers := s.handlers ++ [⟨pData, nSize⟩] } else s)
      | _ :: _, [] => none
  | _, _ => none

def step : ClientEvent → Option ASIOClient
  | .post pData => some (s.postSend (.copy pData))
  | .complete k =>
      match s.outstanding[k]? with
      | none => none
      | some write =>
          { s with outstanding := s.outstanding.eraseIdx k }.handleWrite write.buffer
  | .resume k =>
      match s.handlers[k]? with
      | none => none
      | some next =>
          some ({ s with handlers := s.handlers.eraseIdx k }.postSend
            (.immediately next.buffer next.size))

/-- What the completions still have to do. -/
def rank : Nat := 2 * s.sendDataQueue.length + s.handlers.length

/-- One write at a time, in the order of posting, each of a buffer that was not written before and
is deleted by its own completion. While anything is queued a write is outstanding or about to be
started, and the completions get to the end of the queue. -/
structure Orderly : Prop where
  alone : s.outstanding.length ≤ 1
  order : s.started.map Write.buffer <+: s.posted
  once : s.posted.Nodup
  whole : ∀ write ∈ s.started, write.size = write.buffer.data.length
  own : ∀ pair ∈ s.deleted, pair.1 = pair.2
  busy : s.handlers = [] → s.sendDataQueue ≠ [] → s.outstanding ≠ []
  done : s.sendDataQueue = [] → s.started.map Write.buffer = s.posted
  goes : s.sendDataQueue ≠ [] → ∃ event s', (event = .complete 0 ∨ event = .resume 0) ∧
    s.step event = some s' ∧ s'.rank < s.rank

/-- An empty buffer is posted only to an empty queue. -/
def PostsContent : ClientEvent → Prop
  | .post pData => pData = [] → s.sendDataQueue = []
  | .complete _ | .resume _ => True

instance (event : ClientEvent) : Decidable (s.PostsContent event) :=
  match event with
  | .post _ => inferInstanceAs (Decidable (_ → _))
  | .complete _ | .resume _ => instDecidableTrue

end ASIOClient

end Cgsf.ASIONet
