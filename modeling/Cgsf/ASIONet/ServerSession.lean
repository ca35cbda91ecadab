import Cgsf.Library.Transition

namespace Cgsf.ASIONet

/-- A copy that `PostSend` made; its address tells it from every other copy. -/
structure Buffer where
  address : Nat
  data : List UInt8
  deriving DecidableEq, Repr

structure Write where
  buffer : Buffer
  size : Nat
  deriving DecidableEq, Repr

/-- A session with the writes that it started and that are not completed. The last five fields only
record what happened: how many copies were made, and how many before the current connection; the
copies and the writes; and for each completed write the buffer that was deleted. -/
structure Session where
  isOpen : Bool := false
  pSessionService : Option Nat := none
  bCompletedWrite : Bool := true
  sendDataQueue : List Buffer := []
  sendDataSizeQueue : List Nat := []
  outstanding : List Write := []
  copies : Nat := 0
  since : Nat := 0
  posted : List Buffer := []
  started : List Write := []
  deleted : List (Buffer × Buffer) := []
  deriving DecidableEq, Repr

/-- The arguments of `PostSend`: data to copy, or, with `bImmediately`, a buffer of the queue. -/
inductive SendData where
  | copy (pData : List UInt8)
  | immediately (pData : Buffer) (nSize : Nat)

inductive SendEvent where
  | post (pData : List UInt8)
  | complete (k : Nat)
  deriving DecidableEq, Repr

namespace Session

def asyncWrite (s : Session) (pSendData : Buffer) (nSize : Nat) : Session :=
  { s with
    outstanding := s.outstanding ++ [⟨pSendData, nSize⟩]
    started := s.started ++ [⟨pSendData, nSize⟩] }

def postSend (s : Session) : SendData → Session
  | .copy pData =>
      let pSendData : Buffer := ⟨s.copies, pData⟩
      let s := { s with
        copies := s.copies + 1
        posted := s.posted ++ [pSendData]
        sendDataQueue := s.sendDataQueue ++ [pSendData]
        sendDataSizeQueue := s.sendDataSizeQueue ++ [pData.length] }
      if s.bCompletedWrite = false then s else s.asyncWrite pSendData pData.length
  | .immediately pData nSize =>
      if s.bCompletedWrite = false then s else s.asyncWrite pData nSize

/-- The handler of a completed write of the buffer `written`, which it does not get to know. The
front of an empty queue is undefined. -/
def handleWrite (s : Session) (written : Buffer) : Option Session :=
  match s.sendDataQueue, s.sendDataSizeQueue with
  | front :: queue, _ :: sizes =>
      let s := { s with
        sendDataQueue := queue
        sendDataSizeQueue := sizes
        deleted := s.deleted ++ [(written, front)] }
      match queue, sizes with
      | [], _ => some { s with bCompletedWrite := true }
      | pData :: _, nSize :: _ =>
          some ({ s with bCompletedWrite := false }.postSend (.immediately pData nSize))
      | _ :: _, [] => none
  | _, _ => none

/-- What `Encode` makes of the packet is sent. -/
def sendRequest (s : Session) (encoded : Option (List UInt8)) : Session :=
  match encoded with
  | none => s
  | some pBuffer => s.postSend (.copy pBuffer)

/-- A buffer is posted, or one of the outstanding writes completes. -/
def step (s : Session) : SendEvent → Option Session
  | .post pData => some (s.postSend (.copy pData))
  | .complete k =>
      match s.outstanding[k]? with
      | none => none
      | some write =>
          { s with outstanding := s.outstanding.eraseIdx k }.handleWrite write.buffer

end Session

end Cgsf.ASIONet

namespace Cgsf.ASIONet

/-- The server with what it has asked of the network: the accepts and the reads that are not
completed, by session id. A session service is a number; `services` are those not deleted, and
`misused` records that one was used that is not among them. -/
structure ASIOServer where
  bIsAccepting : Bool := false
  sessionQueue : List Nat := []
  sessionMap : Nat → Session := fun _ => {}
  maxSessionCount : Nat := 0
  accepts : List Nat := []
  receives : List Nat := []
  services : List Nat := []
  created : Nat := 0
  misused : Bool := false

inductive ServerEvent where
  | accept (error : Bool)
  | receive (id : Nat) (error : Bool)
  | send (serial : Nat) (encoded : Option (List UInt8))
  | written (id : Nat) (k : Nat)
  deriving DecidableEq, Repr

namespace ASIOServer

variable (s : ASIOServer)

def setSession (id : Nat) (session : Session) : ASIOServer :=
  { s with sessionMap := fun i => if i = id then session else s.sessionMap i }

/-- The session's pointer to its service is followed. -/
def useService (id : Nat) : ASIOServer :=
  match (s.sessionMap id).pSessionService with
  | some service => if service ∈ s.services then s else { s with misused := true }
  | none => { s with misused := true }

def init (nMaxSessionCount : Nat) : ASIOServer :=
  { sessionQueue := List.range nMaxSessionCount, maxSessionCount := nMaxSessionCount }

def postAccept : ASIOServer :=
  match s.sessionQueue with
  | [] => { s with bIsAccepting := false }
  | nSessionID :: queue =>
      { s with
        bIsAccepting := true
        sessionQueue := queue
        accepts := s.accepts ++ [nSessionID] }

def start (nMaxSessionCount : Nat) : ASIOServer := (init nMaxSessionCount).postAccept

def closeSession (nSessionID : Nat) : ASIOServer :=
  let s := { s with sessionQueue := s.sessionQueue ++ [nSessionID] }
  if s.bIsAccepting = false then s.postAccept else s

def onConnect (id : Nat) : ASIOServer :=
  let session := s.sessionMap id
  { s with services := s.services ++ [s.created], created := s.created + 1 }.setSession id
    { session with pSessionService := some s.created, since := session.copies }

def onDisconnect (id : Nat) : ASIOServer :=
  let s := s.useService id
  let pSessionService := (s.sessionMap id).pSessionService
  { s with services := s.services.filter (some · ≠ pSessionService) }

def postReceive (id : Nat) : ASIOServer := { s with receives := s.receives ++ [id] }

def handleAccept (id : Nat) (error : Bool) : ASIOServer :=
  if error = false then ((s.onConnect id).postReceive id).postAccept else s

def handleReceive (id : Nat) (error : Bool) : ASIOServer :=
  if error = true then (s.closeSession id).onDisconnect id
  else (s.useService id).postReceive id

def sendRequest (serial : Nat) (encoded : Option (List UInt8)) : ASIOServer :=
  if serial < s.maxSessionCount then
    if (s.sessionMap serial).isOpen = true then
      (s.useService serial).setSession serial ((s.sessionMap serial).sendRequest encoded)
    else s
  else s

/-- One completion or one call. An accept into a socket that is open cannot succeed. -/
def step : ServerEvent → Option ASIOServer
  | .accept error =>
      match s.accepts with
      | [] => none
      | id :: accepts =>
          let session := s.sessionMap id
          if error = true then some ({ s with accepts }.handleAccept id error)
          else if session.isOpen = true then none
          else some (({ s with accepts }.setSession id { session with isOpen := true }).handleAccept
            id error)
  | .receive id error =>
      if id ∈ s.receives then
        some ({ s with receives := s.receives.filter (· ≠ id) }.handleReceive id error)
      else none
  | .send serial encoded => some (s.sendRequest serial encoded)
  | .written id k => ((s.sessionMap id).step (.complete k)).map (s.setSession id)

end ASIOServer

end Cgsf.ASIONet
