import Cgsf.Casual.LoginQuery
import Cgsf.Proof.Casual.LoginQuery

/-!
# One reply for a login
-/

namespace Cgsf.Proof.Casual
open Std Cgsf.Library Cgsf.Casual

/-! ## The pool -/

namespace MySQLPool

variable {pool : MySQLPool} {t con : Nat} {concrete : Option Nat}

theorem free_of_firstFree (found : pool.firstFree = some t) :
    pool.poolmap[t]? = some .free := by
  obtain ⟨⟨key, state⟩, entry, rfl⟩ := Option.map_eq_some_iff.mp found
  have free := List.find?_some entry
  obtain rfl : state = .free := of_decide_eq_true free
  exact TreeMap.mem_toList_iff_getElem?_eq_some.mp (List.mem_of_find?_eq_some entry)

theorem firstFree_isSome :
    pool.firstFree.isSome ↔ ∃ t : Nat, pool.poolmap[t]? = some PooledConnection.free := by
  constructor
  · intro found
    obtain ⟨t, first⟩ := Option.isSome_iff_exists.mp found
    exact ⟨t, free_of_firstFree first⟩
  · rintro ⟨t, free⟩
    rw [MySQLPool.firstFree, Option.isSome_map, List.find?_isSome]
    exact ⟨(t, .free), TreeMap.mem_toList_iff_getElem?_eq_some.mpr free, decide_eq_true rfl⟩

/-- A connection goes out of the pool, or a new one goes past it. -/
def Given (pool : MySQLPool) (con : Nat) (pool' : MySQLPool) : Prop :=
  pool.poolmap[con]? = some .free ∧ pool'.poolmap[con]? = some .used ∨
    con ∉ pool.poolmap ∧ pool'.poolmap[con]? = some .temp

theorem getConnectionFromPool_isSome :
    (pool.getConnectionFromPool concrete).1.isSome ↔
      (∃ t : Nat, pool.poolmap[t]? = some PooledConnection.free) ∨
        (pool.poolmap.size : Int) < pool.maxconnections ∧ concrete.isSome := by
  rw [← firstFree_isSome]
  unfold MySQLPool.getConnectionFromPool
  cases pool.firstFree with
  | some t => simp
  | none =>
      split_ifs with below
      · cases concrete with
        | none => simp
        | some t => simp [below]
      · simp [below]

theorem getConnectionFromPool_given (fresh : ∀ t, concrete = some t → t ∉ pool.poolmap)
    (got : (pool.getConnectionFromPool concrete).1 = some con) :
    Given pool con (pool.getConnectionFromPool concrete).2 := by
  unfold MySQLPool.getConnectionFromPool at got ⊢
  cases first : pool.firstFree with
  | some t =>
      rw [first] at got
      obtain rfl := Option.some.inj got
      exact .inl ⟨free_of_firstFree first, TreeMap.getElem?_insert_self⟩
  | none =>
      rw [first] at got
      simp only at got ⊢
      split_ifs at got ⊢ with below
      cases concrete with
      | none => cases got
      | some t =>
          obtain rfl := Option.some.inj got
          have absent := fresh t rfl
          refine .inr ⟨absent, ?_⟩
          rw [TreeMap.getElem?_insertIfNew, if_pos ⟨ReflCmp.compare_self, absent⟩]

/-- Another thread leaves what is in use alone, until it is given back. -/
theorem perform_inUse {state : PooledConnection} {call : PoolCall}
    (held : pool.poolmap[con]? = some state) (inUse : state ≠ .free)
    (apart : call ≠ .releaseConnection con) : (pool.perform call).poolmap[con]? = some state := by
  cases call with
  | getConnection concrete =>
      rw [MySQLPool.perform]
      unfold MySQLPool.getConnectionFromPool
      cases first : pool.firstFree with
      | some t =>
          have other : t ≠ con := by
            rintro rfl
            rw [free_of_firstFree first] at held
            exact inUse (Option.some.inj held).symm
          rw [TreeMap.getElem?_insert, if_neg (fun same => other (LawfulEqCmp.eq_of_compare same))]
          exact held
      | none =>
          simp only
          split_ifs with below
          · cases concrete with
            | none => exact held
            | some t =>
                rw [TreeMap.getElem?_insertIfNew, if_neg]
                · exact held
                · rintro ⟨same, absent⟩
                  obtain rfl := LawfulEqCmp.eq_of_compare same
                  rw [TreeMap.getElem?_eq_none absent] at held
                  cases held
          · exact held
  | releaseConnection t =>
      have other : t ≠ con := fun same => apart (same ▸ rfl)
      have differ : ¬ compare t con = .eq := fun same => other (LawfulEqCmp.eq_of_compare same)
      rw [MySQLPool.perform, MySQLPool.releaseConnectionToPool]
      split
      · rw [TreeMap.getElem?_insert, if_neg differ]
        exact held
      · rw [TreeMap.getElem?_erase, if_neg differ]
        exact held
      · exact held
      · exact held

theorem foldl_perform_inUse {state : PooledConnection} (inUse : state ≠ .free)
    {others : List PoolCall} (apart : PoolCall.releaseConnection con ∉ others)
    (held : pool.poolmap[con]? = some state) :
    (others.foldl MySQLPool.perform pool).poolmap[con]? = some state := by
  induction others generalizing pool with
  | nil => exact held
  | cons call others ih =>
      rw [List.mem_cons, not_or] at apart
      exact ih apart.2 (perform_inUse held inUse (Ne.symm apart.1))

theorem releaseConnectionToPool_given {pool' : MySQLPool} {others : List PoolCall}
    (given : Given pool con pool') (apart : PoolCall.releaseConnection con ∉ others) :
    ((others.foldl MySQLPool.perform pool').releaseConnectionToPool con).poolmap[con]? =
      pool.poolmap[con]? := by
  rcases given with ⟨before, held⟩ | ⟨before, held⟩
  · have kept := foldl_perform_inUse (by decide) apart held
    rw [MySQLPool.releaseConnectionToPool, kept, before]
    exact TreeMap.getElem?_insert_self
  · have kept := foldl_perform_inUse (by decide) apart held
    rw [MySQLPool.releaseConnectionToPool, kept, TreeMap.getElem?_eq_none before]
    exact TreeMap.getElem?_erase_self

end MySQLPool

/-! ## The query -/

theorem SqlAnswers.result_isSome (sql : SqlAnswers) :
    sql.result.isSome ↔
      sql.setSchema ∧ sql.createStatement ∧ sql.executeQuery ∧ sql.rowsCount.isSome := by
  obtain ⟨schema, statement, query, rows⟩ := sql
  cases schema <;> cases statement <;> cases query <;> cases rows <;> simp [SqlAnswers.result]

theorem queryText_length (userName password : Text) :
    (SFMySQLAdaptorImpl.queryText userName password).length =
      60 + userName.length + password.length := by
  have before : (ascii "SELECT * FROM tblLogin WHERE UserName = '").length = 41 := by decide
  have between : (ascii "' AND Password = '").length = 18 := by decide
  have after : (ascii "'").length = 1 := by decide
  simp only [SFMySQLAdaptorImpl.queryText, List.length_append, before, between, after]
  omega

def loginReply (serial result : Int) : SFMessage where
  usCommand := dbmsgLogin
  serial := serial
  data := leBytes 4 (BitVec.ofInt 32 result).toNat

theorem writeInt_reply (serial result : Int) :
    (SFDBPacketSystem.getInitMessage dbmsgLogin serial).writeInt result =
      some (loginReply serial result) := by
  rw [SFMessage.writeInt, SFMessage.write, if_pos (by simp [SFDBPacketSystem.getInitMessage,
    maxMessageBuffer])]
  rfl

/-! ## Logins -/

section Login

variable (pool : MySQLPool) (concrete : Option Nat) (others : List PoolCall) (sql : SqlAnswers)
  (player : SFPlayer)

/-- A login whose query is built goes on behind the buffers. -/
theorem replyLogin_short
    (short : (cString player.username).length + (cString player.password).length < 40) :
    (SFPlayerInit.loginMessage player).bind
        (SFMySQLAdaptorImpl.replyLogin pool concrete others sql) =
      match (pool.getConnectionFromPool concrete).1, sql.result with
      | some con, some result => some
          ⟨(others.foldl MySQLPool.perform
              (pool.getConnectionFromPool concrete).2).releaseConnectionToPool con,
            [loginReply player.serial result]⟩
      | _, _ => some
          ⟨others.foldl MySQLPool.perform (pool.getConnectionFromPool concrete).2, []⟩ := by
  have worker := onLogin_spec player
  rw [if_pos (by omega)] at worker
  rw [loginMessage_eq, if_pos (by simp only [maxMessageBuffer]; omega)] at worker ⊢
  rw [Option.bind_some] at worker ⊢
  have room : (SFMySQLAdaptorImpl.queryText (cString player.username)
      (cString player.password)).length + 1 ≤ 100 := by
    rw [queryText_length]
    omega
  rw [SFMySQLAdaptorImpl.replyLogin, worker]
  simp only [Option.bind_eq_bind, Option.bind_some, sprintfS, if_pos room]
  obtain ⟨con, pool'⟩ := pool.getConnectionFromPool concrete
  cases con with
  | none => rfl
  | some con =>
      cases sql.result with
      | none => rfl
      | some result => simp only [writeInt_reply, Option.bind_some]; rfl

variable {pool concrete others sql player}

theorem short_of_outcome {outcome : LoginOutcome}
    (result : (SFPlayerInit.loginMessage player).bind
      (SFMySQLAdaptorImpl.replyLogin pool concrete others sql) = some outcome) :
    (cString player.username).length + (cString player.password).length < 40 := by
  obtain ⟨message, sent, replied⟩ := Option.bind_eq_some_iff.mp result
  obtain ⟨worker, read, rest⟩ := Option.bind_eq_some_iff.mp replied
  obtain ⟨query, built, -⟩ := Option.bind_eq_some_iff.mp rest
  have buffers := onLogin_spec player
  rw [sent, Option.bind_some, read] at buffers
  split_ifs at buffers
  obtain rfl := Option.some.inj buffers
  have room := (Option.ite_none_right_eq_some.mp built).1
  rw [queryText_length] at room
  omega

theorem served_of_answered (answered : LoginAnswered pool concrete others sql player) :
    LoginServed pool concrete sql player := by
  obtain ⟨outcome, result, ⟨reply, posted, -⟩, -⟩ := answered
  have short := short_of_outcome result
  rw [replyLogin_short _ _ _ _ _ short] at result
  refine ⟨short, MySQLPool.getConnectionFromPool_isSome.mp ?_,
    (SqlAnswers.result_isSome sql).mp ?_⟩
  · cases got : (pool.getConnectionFromPool concrete).1 with
    | some con => rfl
    | none =>
        rw [got] at result
        obtain rfl := Option.some.inj result
        cases posted
  · cases answer : sql.result with
    | some answer => rfl
    | none =>
        rw [answer] at result
        cases got : (pool.getConnectionFromPool concrete).1 with
        | none | some con =>
            rw [got] at result
            obtain rfl := Option.some.inj result
            cases posted

theorem answered_of_served (fresh : ∀ t, concrete = some t → t ∉ pool.poolmap)
    (apart : ∀ con, (pool.getConnectionFromPool concrete).1 = some con →
      PoolCall.releaseConnection con ∉ others)
    (served : LoginServed pool concrete sql player) :
    LoginAnswered pool concrete others sql player := by
  obtain ⟨con, got⟩ := Option.isSome_iff_exists.mp
    (MySQLPool.getConnectionFromPool_isSome.mpr served.connection)
  obtain ⟨answer, answers⟩ := Option.isSome_iff_exists.mp
    ((SqlAnswers.result_isSome sql).mpr served.statements)
  have result := replyLogin_short pool concrete others sql player served.short
  simp only [got, answers] at result
  refine ⟨_, result, ⟨_, rfl, rfl, rfl⟩, ?_⟩
  intro con' again
  obtain rfl := Option.some.inj (got.symm.trans again)
  have given := MySQLPool.getConnectionFromPool_given fresh got
  exact MySQLPool.releaseConnectionToPool_given given (apart con got)

/-- A login is answered, and its connection given back, exactly when there is one, no statement
throws, and the query has room. -/
theorem loginAnswered_iff (fresh : ∀ t, concrete = some t → t ∉ pool.poolmap)
    (apart : ∀ con, (pool.getConnectionFromPool concrete).1 = some con →
      PoolCall.releaseConnection con ∉ others) :
    LoginAnswered pool concrete others sql player ↔ LoginServed pool concrete sql player :=
  ⟨served_of_answered, answered_of_served fresh apart⟩

end Login

/-- The name and password `bob`. -/
def bob : SFPlayer := { serial := 7, username := [98, 111, 98], password := [98, 111, 98] }

/-- While the pool's only connection is out for a second, the first login uses a new one. -/
theorem bob_answered :
    LoginAnswered { poolmap := .ofList [(1, PooledConnection.used)], maxconnections := 2 } (some 2)
      [.releaseConnection 1, .getConnection none] ⟨true, true, true, some 1⟩ bob := by
  apply (loginAnswered_iff _ _).mpr
  · exact ⟨by decide, .inr ⟨by decide, rfl⟩, rfl, rfl, rfl, rfl⟩
  · rintro t ⟨⟩
    decide
  · intro con got
    have second : con = 2 := Option.some.inj (got.symm.trans (by decide))
    subst second
    decide

/-- One query throws: nothing is posted, and the pool's connection is out for good. -/
theorem thrownQuery_starves :
    let pool : MySQLPool :=
      { poolmap := .ofList [(1, PooledConnection.free)], maxconnections := 1 }
    let throwing : SqlAnswers := ⟨true, true, false, none⟩
    ¬ LoginAnswered pool none [] throwing bob ∧
      ((SFPlayerInit.loginMessage bob).bind
        (SFMySQLAdaptorImpl.replyLogin pool none [] throwing)).map (fun outcome =>
          (outcome.posted.length, (outcome.pool.getConnectionFromPool none).1)) =
        some (0, none) := by
  intro pool throwing
  constructor
  · intro answered
    cases (served_of_answered answered).statements.2.2.1
  · decide

end Cgsf.Proof.Casual
