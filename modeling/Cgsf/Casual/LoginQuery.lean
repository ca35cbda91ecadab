import Cgsf.Casual.LogicEntry
import Cgsf.Library.SqlText
import Cgsf.Library.Words
import Std.Data.TreeMap.Lemmas

/-!
# The login path in bytes

The buffers that a name and a password pass through: the message to the database worker and the
worker's own, and those that bring the name of a member to the others of its room. What would be
written behind a buffer answers `none`.
-/

namespace Cgsf.Casual
open Library

def maxMessageBuffer : Nat := 16384
def dbmsgLogin : UInt16 := 1000

namespace CGSF

def enterTeamMember : UInt16 := 1006
def leaveTeamMember : UInt16 := 1007

end CGSF

/-- A message since `Initialize`. The bytes of `m_aDataBuffer` behind the `data` are still zero. -/
structure SFMessage where
  usCommand : UInt16
  serial : Int := 0
  data : Text := []
  usCurrentReadPosition : Nat := 0

namespace SFMessage

def dataBuffer (message : SFMessage) : Text :=
  message.data ++ List.replicate (maxMessageBuffer - message.data.length) 0

def readStart (message : SFMessage) : SFMessage := { message with usCurrentReadPosition := 0 }

def write (message : SFMessage) (bytes : Text) : Option SFMessage :=
  if message.data.length + bytes.length ≤ maxMessageBuffer then
    some { message with data := message.data ++ bytes }
  else none

def writeInt (message : SFMessage) (data : Int) : Option SFMessage :=
  message.write (leBytes 4 (BitVec.ofInt 32 data).toNat)

def writeString (message : SFMessage) (szStr : Text) : Option SFMessage :=
  message.write (cString szStr ++ [0])

def readInt (message : SFMessage) : Option (Int × SFMessage) :=
  let position := message.usCurrentReadPosition
  if position + 4 ≤ maxMessageBuffer then
    some ((BitVec.ofNat 32 (leValue ((message.dataBuffer.drop position).take 4))).toInt,
      { message with usCurrentReadPosition := position + 4 })
  else none

/-- `strcpy_s` is told that the destination is as long as the text; `size` is how long it is. -/
def readString (message : SFMessage) (size : Nat) : Option (Text × SFMessage) :=
  let position := message.usCurrentReadPosition
  let text := cString (message.dataBuffer.drop position)
  if position + text.length < maxMessageBuffer ∧ text.length + 1 ≤ size then
    some (text, { message with usCurrentReadPosition := position + text.length + 1 })
  else none

end SFMessage

namespace SFDBPacketSystem

def getInitMessage (requestMsg : UInt16) (playerSerial : Int) : SFMessage where
  usCommand := requestMsg
  serial := playerSerial

end SFDBPacketSystem

namespace SFPlayerInit

/-- The message that `OnLogin` sends once the player has its name and password. -/
def loginMessage (player : SFPlayer) : Option SFMessage := do
  let message := SFDBPacketSystem.getInitMessage dbmsgLogin player.serial
  let message ← message.writeString player.username
  message.writeString player.password

end SFPlayerInit

/-- The buffers of the worker. The query is missing when `sprintf_s` found no room for it. -/
structure LoginWorker where
  userName : Text
  password : Text
  szQuery : Option Text
  deriving DecidableEq, Repr

def ascii (text : String) : Text := text.toList.map fun c => UInt8.ofNat c.toNat

def sprintfS (size : Nat) (text : Text) : Option Text :=
  if text.length + 1 ≤ size then some text else none

namespace SFMySQLAdaptorImpl

def queryText (userName password : Text) : Text :=
  ascii "SELECT * FROM tblLogin WHERE UserName = '" ++ userName ++ ascii "' AND Password = '" ++
    password ++ ascii "'"

def onLogin (message : SFMessage) : Option LoginWorker := do
  let (userName, message) ← message.readString 100
  let (password, _) ← message.readString 100
  return { userName, password, szQuery := sprintfS 100 (queryText userName password) }

end SFMySQLAdaptorImpl

namespace SFRoom

/-- What `OnEnter` and `OnLeave` tell the observers about a player. -/
def memberMessage (usCommand : UInt16) (player : SFPlayer) : Option SFMessage := do
  let message ← SFMessage.writeInt { usCommand } player.serial
  message.writeString player.username

end SFRoom

namespace SFPlayer

/-- `OnMessage` for the two commands that bring a name. -/
def onMemberMessage (message : SFMessage) : Option (Int × Text) := do
  let (playerIndex, message) ← message.readStart.readInt
  let (szPlayerName, _) ← message.readString 100
  return (playerIndex, szPlayerName)

end SFPlayer

/-- The worker of a player's login and every observer of the player's room keep to their buffers. -/
def BuffersKept (player : SFPlayer) : Prop :=
  ((SFPlayerInit.loginMessage player).bind SFMySQLAdaptorImpl.onLogin).isSome ∧
    ∀ command ∈ [CGSF.enterTeamMember, CGSF.leaveTeamMember],
      ((SFRoom.memberMessage command player).bind SFPlayer.onMemberMessage).isSome

/-- The statement with its two literals. -/
def statementOf (username password : Text) : List SqlText.Token :=
  (ascii "SELECT * FROM tblLogin WHERE UserName = ").map .symbol ++
    .literal username :: (ascii " AND Password = ").map .symbol ++ [.literal password]

/-- A text that its literal gives back. -/
def Verbatim (text : Text) : Prop := 0 ∉ text ∧ SqlText.Clean text

instance (text : Text) : Decidable (Verbatim text) := inferInstanceAs (Decidable (_ ∧ _))

end Cgsf.Casual

/-!
# The connection of a login

The worker takes a connection from the pool that it shares with the other workers, asks the
database, gives the connection back and posts the reply.
-/

namespace Cgsf.Casual
open Std

inductive PooledConnection where
  | free
  | used
  | temp
  deriving DecidableEq, Repr

/-- Connections are named by their addresses. -/
structure MySQLPool where
  poolmap : TreeMap Nat PooledConnection := {}
  maxconnections : Int

/-- What another thread does with the pool. -/
inductive PoolCall where
  | getConnection (concrete : Option Nat)
  | releaseConnection (t : Nat)
  deriving DecidableEq, Repr

namespace MySQLPool

variable (pool : MySQLPool)

def firstFree : Option Nat :=
  (pool.poolmap.toList.find? fun entry => entry.2 = .free).map (·.1)

/-- `concrete` is what `MyGetConcreteConnection` answers. -/
def getConnectionFromPool (concrete : Option Nat) : Option Nat × MySQLPool :=
  match pool.firstFree with
  | some t => (some t, { pool with poolmap := pool.poolmap.insert t .used })
  | none =>
      if (pool.poolmap.size : Int) < pool.maxconnections then
        match concrete with
        | some t => (some t, { pool with poolmap := pool.poolmap.insertIfNew t .temp })
        | none => (none, pool)
      else (none, pool)

def releaseConnectionToPool (t : Nat) : MySQLPool :=
  match pool.poolmap[t]? with
  | some .used => { pool with poolmap := pool.poolmap.insert t .free }
  | some .temp => { pool with poolmap := pool.poolmap.erase t }
  | some .free | none => pool

def perform : PoolCall → MySQLPool
  | .getConnection concrete => (pool.getConnectionFromPool concrete).2
  | .releaseConnection t => pool.releaseConnectionToPool t

end MySQLPool

/-- What the statements of a login answer, where `false` or nothing is an `SQLException`. -/
structure SqlAnswers where
  setSchema : Bool
  createStatement : Bool
  executeQuery : Bool
  rowsCount : Option Nat
  deriving DecidableEq, Repr

def SqlAnswers.result (sql : SqlAnswers) : Option Int := do
  guard sql.setSchema
  guard sql.createStatement
  guard sql.executeQuery
  let rows ← sql.rowsCount
  return if rows = 1 then 0 else -1

structure LoginOutcome where
  pool : MySQLPool
  posted : List SFMessage := []

/-- `OnLogin` behind its buffers. The calls of the others come while it has its connection; what
goes past a buffer, and a `sprintf_s` without room, have no outcome. -/
def SFMySQLAdaptorImpl.replyLogin (pool : MySQLPool) (concrete : Option Nat)
    (others : List PoolCall) (sql : SqlAnswers) (message : SFMessage) : Option LoginOutcome := do
  let worker ← SFMySQLAdaptorImpl.onLogin message
  let _ ← worker.szQuery
  let (con, pool) := pool.getConnectionFromPool concrete
  let pool := others.foldl MySQLPool.perform pool
  match con, sql.result with
  | some con, some result =>
      let pMsg ← (SFDBPacketSystem.getInitMessage message.usCommand message.serial).writeInt result
      return { pool := pool.releaseConnectionToPool con, posted := [pMsg] }
  | _, _ => return { pool }

/-- The login of a player has one reply, for its serial, and the connection that it was given is in
the pool as it was before. -/
def LoginAnswered (pool : MySQLPool) (concrete : Option Nat) (others : List PoolCall)
    (sql : SqlAnswers) (player : SFPlayer) : Prop :=
  ∃ outcome, (SFPlayerInit.loginMessage player).bind
      (SFMySQLAdaptorImpl.replyLogin pool concrete others sql) = some outcome ∧
    (∃ reply, outcome.posted = [reply] ∧ reply.usCommand = dbmsgLogin ∧
      reply.serial = player.serial) ∧
    ∀ con, (pool.getConnectionFromPool concrete).1 = some con →
      outcome.pool.poolmap[con]? = pool.poolmap[con]?

/-- The query is not longer than its buffer, there is a connection, and no statement throws. -/
structure LoginServed (pool : MySQLPool) (concrete : Option Nat) (sql : SqlAnswers)
    (player : SFPlayer) : Prop where
  short : (cString player.username).length + (cString player.password).length < 40
  connection : (∃ t : Nat, pool.poolmap[t]? = some PooledConnection.free) ∨
    (pool.poolmap.size : Int) < pool.maxconnections ∧ concrete.isSome
  statements : sql.setSchema ∧ sql.createStatement ∧ sql.executeQuery ∧ sql.rowsCount.isSome

end Cgsf.Casual
