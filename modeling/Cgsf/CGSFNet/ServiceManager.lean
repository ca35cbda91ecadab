import Std.Data.TreeMap.Lemmas

namespace Cgsf.CGSFNet
open Std

/-- Addresses of connection handlers. -/
abbrev ServiceRef := Nat

def invalidId : Int := -1
def maxCgsfConcurrentUser : Nat := 10000

/-- The map of the ids in use and the queue of the others. -/
structure SFIDMap where
  maxIDCount : Nat
  idleIdQueue : List Int
  idMap : TreeMap Int ServiceRef := {}

namespace SFIDMap

def init (maxIDCount : Nat) : SFIDMap where
  maxIDCount
  idleIdQueue := (List.range' 1 maxIDCount).map Int.ofNat

def isValidId (m : SFIDMap) (id : Int) : Bool :=
  id ≠ invalidId ∧ 1 ≤ id ∧ id < m.maxIDCount + 1

def register (m : SFIDMap) (p : ServiceRef) : Int × SFIDMap :=
  match m.idleIdQueue with
  | [] => (invalidId, m)
  | id :: idleIdQueue => (id, { m with idleIdQueue, idMap := m.idMap.insertIfNew id p })

def unRegister (m : SFIDMap) (id : Int) : SFIDMap :=
  if id ∈ m.idMap then
    { m with
      idMap := m.idMap.erase id
      idleIdQueue := if m.isValidId id then m.idleIdQueue ++ [id] else m.idleIdQueue }
  else m

def get (m : SFIDMap) (id : Int) : Option ServiceRef := m.idMap[id]?

end SFIDMap

end Cgsf.CGSFNet

/-!
# Ids in use over a series of calls
-/

namespace Cgsf.CGSFNet
open Std

inductive IDCall where
  | register (p : ServiceRef)
  | unRegister (id : Int)
  deriving DecidableEq, Repr

/-- An id map, and who was given which id and has not given it back. -/
structure IDPool where
  map : SFIDMap
  registered : List (ServiceRef × Int) := []

namespace IDPool

def init (maxIDCount : Nat) : IDPool where
  map := .init maxIDCount

def step (pool : IDPool) : IDCall → IDPool
  | .register p =>
      let (id, map) := pool.map.register p
      { map, registered :=
          if id = invalidId then pool.registered else pool.registered ++ [(p, id)] }
  | .unRegister id =>
      { map := pool.map.unRegister id, registered := pool.registered.filter (·.2 ≠ id) }

def Steps (pool : IDPool) (call : IDCall) (pool' : IDPool) : Prop := pool.step call = pool'

/-- Every id is bound or idle, none of them twice, and a service that registers now gets an id
unless all are bound; the services that have ids have different ones. -/
structure Partitioned (pool : IDPool) : Prop where
  ids : (pool.map.idMap.keys ++ pool.map.idleIdQueue).Perm
    ((List.range' 1 pool.map.maxIDCount).map Int.ofNat)
  exhausted : ∀ p, (pool.map.register p).1 = invalidId ↔
    ∀ id : Int, 1 ≤ id → id ≤ pool.map.maxIDCount → id ∈ pool.map.idMap
  bound : ∀ p id, (p, id) ∈ pool.registered ↔ pool.map.get id = some p
  distinct : (pool.registered.map (·.2)).Nodup

end IDPool

end Cgsf.CGSFNet
