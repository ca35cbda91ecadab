import Cgsf.Engine.CasualGameDispatcher
import Cgsf.Library.Ownership
import Cgsf.Library.Transition

/-!
# Packet objects are given back

While a thread works it has objects in hands that are in no queue and in no pool. Each operation says
what it takes into the hands and what it puts down.
-/

namespace Cgsf.Proof.Engine.SFCasualGameDispatcher
open Cgsf.Engine Cgsf.Engine.SFCasualGameDispatcher Library

variable {s s' : SFCasualGameDispatcher} {hands : List Nat} {a : Nat} {p : PacketObject}

def underway (s : SFCasualGameDispatcher) : List Nat :=
  s.receiving ++ s.logicGateway.map (·.address) ++ s.rpcGateway.map (·.address) ++
    s.logicThread.toList.map (·.address) ++ s.rpcThread.toList.map (·.address) ++
    s.database.map (·.address)

def places (s : SFCasualGameDispatcher) : List Nat :=
  s.packetPool.queue ++ s.dbMessagePool.queue ++ underway s

/-- Every object that exists is in one place, its own pool or under way, and only there. -/
structure Conserved (s : SFCasualGameDispatcher) : Prop where
  owned : Owned s.objects (places s)
  pooled : ∀ a ∈ s.packetPool.queue, s.objects a = some (.received .cgsf)
  recalled : ∀ a ∈ s.dbMessagePool.queue, s.objects a = some .sfMessage

/-- The object is where objects of its class come from. -/
def GivenBack (cls : PacketClass) (s : SFCasualGameDispatcher) (a : Nat) : Prop :=
  match cls with
  | .received .cgsf => a ∈ s.packetPool.queue
  | .sfMessage => a ∈ s.dbMessagePool.queue
  | _ => s.objects a = none

/-- The type of a packet goes with its class. -/
def Fits (s : SFCasualGameDispatcher) (p : PacketObject) : Prop :=
  match p.packetType with
  | .connect | .disconnect | .timer => s.objects p.address = some .basePacket
  | .data | .rpc => ∃ protocol, s.objects p.address = some (.received protocol)
  | .db => s.objects p.address = some .sfMessage ∧ p.sessionDesc.sessionType ≤ 0
  | _ => False

/-- The classes of the objects in the places. -/
structure Classed (s : SFCasualGameDispatcher) : Prop where
  pooled : ∀ a ∈ s.packetPool.queue, s.objects a = some (.received .cgsf)
  recalled : ∀ a ∈ s.dbMessagePool.queue, s.objects a = some .sfMessage
  receiving : ∀ a ∈ s.receiving, ∃ protocol, s.objects a = some (.received protocol)
  logic : ∀ p ∈ s.logicGateway ++ s.logicThread.toList, Fits s p
  rpc : ∀ p ∈ s.rpcGateway ++ s.rpcThread.toList, p.packetType = .rpc ∧ Fits s p
  database : ∀ p ∈ s.database, p.packetType = .db ∧ Fits s p

/-- The invariant, with some objects in the hands of threads. -/
structure Holds (hands : List Nat) (s : SFCasualGameDispatcher) : Prop where
  owned : Owned s.objects (hands ++ places s)
  classed : Classed s

theorem Holds.conserved (holds : Holds [] s) : Conserved s :=
  ⟨holds.owned, holds.classed.pooled, holds.classed.recalled⟩

/-! ## Objects that come and go -/

theorem Fits.update {cls : Option PacketClass} (fits : Fits s p) (other : p.address ≠ a) :
    Fits { s with objects := Function.update s.objects a cls } p := by
  rw [Fits]
  simp only [Function.update_of_ne other]
  exact fits

theorem Classed.update (classed : Classed s) {cls : Option PacketClass} (away : a ∉ places s) :
    Classed { s with objects := Function.update s.objects a cls } := by
  simp only [places, underway, List.mem_append, List.mem_map, not_or, not_exists, not_and] at away
  obtain ⟨⟨pool, messages⟩, ⟨⟨⟨⟨receiving, gateway⟩, rpcGateway⟩, thread⟩, rpcThread⟩, database⟩ := away
  refine ⟨fun b there => ?_, fun b there => ?_, fun b there => ?_, fun q there => ?_,
    fun q there => ?_, fun q there => ?_⟩
  · simp only [Function.update_of_ne fun same : b = a => pool (same ▸ there)]
    exact classed.pooled b there
  · simp only [Function.update_of_ne fun same : b = a => messages (same ▸ there)]
    exact classed.recalled b there
  · simp only [Function.update_of_ne fun same : b = a => receiving (same ▸ there)]
    exact classed.receiving b there
  · refine (classed.logic q there).update ?_
    rcases List.mem_append.mp there with here | here
    · exact gateway q here
    · exact thread q here
  · refine ⟨(classed.rpc q there).1, (classed.rpc q there).2.update ?_⟩
    rcases List.mem_append.mp there with here | here
    · exact rpcGateway q here
    · exact rpcThread q here
  · exact ⟨(classed.database q there).1, (classed.database q there).2.update (database q there)⟩

theorem new_holds (holds : Holds hands s) {cls : PacketClass} (run : s.new cls a = some s') :
    Holds (a :: hands) s' ∧ s' = { s with objects := Function.update s.objects a (some cls) } := by
  rw [SFCasualGameDispatcher.new] at run
  split at run
  · rename_i free
    obtain rfl := Option.some.inj run
    refine ⟨⟨holds.owned.new free cls, holds.classed.update fun here => ?_⟩, rfl⟩
    exact holds.owned.not_mem free (List.mem_append_right hands here)
  · contradiction

theorem delete_holds (holds : Holds (a :: hands) s) : ∃ s', s.delete a = some s' ∧ Holds hands s' ∧
    s' = { s with objects := Function.update s.objects a none } := by
  have here : a ∈ a :: hands ++ places s := List.mem_cons_self
  rw [SFCasualGameDispatcher.delete, if_neg ((holds.owned.held a).mpr here)]
  refine ⟨_, rfl, ⟨holds.owned.delete, holds.classed.update fun there => ?_⟩, rfl⟩
  exact (List.nodup_cons.mp holds.owned.nodup).1 (List.mem_append_right hands there)

/-! ## Objects that move -/

theorem Holds.of_count {hands' : List Nat} (holds : Holds hands s) (objects : s'.objects = s.objects)
    (classed : Classed s')
    (count : ∀ b, (hands' ++ places s').count b = (hands ++ places s).count b) :
    Holds hands' s' where
  owned := by
    rw [objects]
    exact holds.owned.perm (List.perm_iff_count.mpr fun b => (count b).symm)
  classed := classed

theorem createPacket_holds (holds : Holds hands s) {protocol : PacketProtocol} {address : Nat}
    (run : s.createPacket protocol address = some (a, s')) :
    Holds (a :: hands) s' ∧ s'.objects a = some (.received protocol) := by
  unfold SFCasualGameDispatcher.createPacket at run
  split at run
  · rename_i q queue pool
    cases run
    have classed := holds.classed
    refine ⟨holds.of_count rfl ⟨fun b there => ?_, classed.recalled, classed.receiving,
      classed.logic, classed.rpc, classed.database⟩ fun b => ?_, ?_⟩
    · exact classed.pooled b (pool ▸ List.mem_cons_of_mem _ there)
    · simp only [places, underway, pool, List.count_append, List.count_cons]
      omega
    · exact classed.pooled a (pool ▸ List.mem_cons_self)
  · obtain ⟨m, made, same⟩ := Option.map_eq_some_iff.mp run
    cases same
    obtain ⟨after, rfl⟩ := new_holds holds made
    exact ⟨after, Function.update_self ..⟩

theorem allocDBMsg_holds (holds : Holds hands s) {address : Nat}
    (run : s.allocDBMsg address = some (a, s')) :
    Holds (a :: hands) s' ∧ s'.objects a = some .sfMessage := by
  unfold SFCasualGameDispatcher.allocDBMsg at run
  split at run
  · rename_i q queue pool
    cases run
    have classed := holds.classed
    refine ⟨holds.of_count rfl ⟨classed.pooled, fun b there => ?_, classed.receiving,
      classed.logic, classed.rpc, classed.database⟩ fun b => ?_, ?_⟩
    · exact classed.recalled b (pool ▸ List.mem_cons_of_mem _ there)
    · simp only [places, underway, pool, List.count_append, List.count_cons]
      omega
    · exact classed.recalled a (pool ▸ List.mem_cons_self)
  · obtain ⟨m, made, same⟩ := Option.map_eq_some_iff.mp run
    cases same
    obtain ⟨after, rfl⟩ := new_holds holds made
    exact ⟨after, Function.update_self ..⟩

theorem poolRelease_holds (holds : Holds (a :: hands) s)
    (cls : s.objects a = some (.received .cgsf)) :
    Holds hands { s with packetPool := s.packetPool.release a } := by
  have classed := holds.classed
  refine holds.of_count rfl ⟨fun b there => ?_, classed.recalled, classed.receiving,
    classed.logic, classed.rpc, classed.database⟩ fun b => ?_
  · rcases List.mem_append.mp there with old | new
    · exact classed.pooled b old
    · rw [List.mem_singleton.mp new]
      exact cls
  · simp only [places, underway, SFObjectPool.release, List.count_append, List.count_cons,
      List.count_nil]
    omega

theorem recallDBMsg_holds (holds : Holds (a :: hands) s) (cls : s.objects a = some .sfMessage) :
    Holds hands (s.recallDBMsg a) := by
  have classed := holds.classed
  refine holds.of_count rfl ⟨classed.pooled, fun b there => ?_, classed.receiving,
    classed.logic, classed.rpc, classed.database⟩ fun b => ?_
  · rcases List.mem_append.mp there with old | new
    · exact classed.recalled b old
    · rw [List.mem_singleton.mp new]
      exact cls
  · simp only [places, underway, SFCasualGameDispatcher.recallDBMsg, SFObjectPool.release,
      List.count_append, List.count_cons, List.count_nil]
    omega

theorem receiving_holds (holds : Holds (a :: hands) s)
    (cls : ∃ protocol, s.objects a = some (.received protocol)) :
    Holds hands { s with receiving := s.receiving ++ [a] } := by
  have classed := holds.classed
  refine holds.of_count rfl ⟨classed.pooled, classed.recalled, fun b there => ?_,
    classed.logic, classed.rpc, classed.database⟩ fun b => ?_
  · rcases List.mem_append.mp there with old | new
    · exact classed.receiving b old
    · rw [List.mem_singleton.mp new]
      exact cls
  · simp only [places, underway, List.count_append, List.count_cons, List.count_nil]
    omega

theorem pushLogic_holds (holds : Holds (p.address :: hands) s) (fits : Fits s p) :
    Holds hands (s.pushLogic true p) := by
  have classed := holds.classed
  refine holds.of_count rfl ⟨classed.pooled, classed.recalled, classed.receiving,
    fun q there => ?_, classed.rpc, classed.database⟩ fun b => ?_
  · change q ∈ s.logicGateway ++ [p] ++ s.logicThread.toList at there
    rw [List.append_assoc, List.mem_append, List.mem_append] at there
    rcases there with old | new | old
    · exact classed.logic q (List.mem_append_left _ old)
    · rw [List.mem_singleton.mp new]
      exact fits
    · exact classed.logic q (List.mem_append_right _ old)
  · simp only [places, underway, SFCasualGameDispatcher.pushLogic, if_pos, List.map_append,
      List.map_cons, List.map_nil, List.count_append, List.count_cons, List.count_nil]
    omega

theorem pushRPC_holds (holds : Holds (p.address :: hands) s) (fits : Fits s p)
    (rpc : p.packetType = .rpc) : Holds hands (s.pushRPC true p) := by
  have classed := holds.classed
  refine holds.of_count rfl ⟨classed.pooled, classed.recalled, classed.receiving,
    classed.logic, fun q there => ?_, classed.database⟩ fun b => ?_
  · change q ∈ s.rpcGateway ++ [p] ++ s.rpcThread.toList at there
    rw [List.append_assoc, List.mem_append, List.mem_append] at there
    rcases there with old | new | old
    · exact classed.rpc q (List.mem_append_left _ old)
    · rw [List.mem_singleton.mp new]
      exact ⟨rpc, fits⟩
    · exact classed.rpc q (List.mem_append_right _ old)
  · simp only [places, underway, SFCasualGameDispatcher.pushRPC, if_pos, List.map_append,
      List.map_cons, List.map_nil, List.count_append, List.count_cons, List.count_nil]
    omega

theorem dispatch_holds (holds : Holds (p.address :: hands) s) (fits : Fits s p) :
    Holds hands (s.dispatch true p) := by
  rw [SFCasualGameDispatcher.dispatch]
  split
  · rename_i rpc
    exact pushRPC_holds holds fits rpc.1
  · exact pushLogic_holds holds fits

/-! ## Objects that are given back -/

theorem disposePacket_holds (holds : Holds (a :: hands) s) {protocol : PacketProtocol}
    (cls : s.objects a = some (.received protocol)) : ∃ s', s.disposePacket protocol a = some s' ∧
      Holds hands s' ∧ GivenBack (.received protocol) s' a := by
  cases protocol with
  | cgsf => exact ⟨_, rfl, poolRelease_holds holds cls, List.mem_append_right _ (by simp)⟩
  | json | http | msgPack | avro | protobuf | echo =>
      obtain ⟨s', deleted, after, rfl⟩ := delete_holds holds
      exact ⟨_, deleted, after, Function.update_self ..⟩

theorem release_holds (holds : Holds (a :: hands) s) {protocol : PacketProtocol}
    (cls : s.objects a = some (.received protocol)) (own : protocol ≠ .echo) :
    ∃ s', s.release a = some s' ∧ Holds hands s' ∧ GivenBack (.received protocol) s' a := by
  rw [SFCasualGameDispatcher.release, cls]
  cases protocol with
  | echo => exact absurd rfl own
  | cgsf | json | http | msgPack | avro | protobuf => exact disposePacket_holds holds cls

/-! ## What a thread has in hands -/

theorem Holds.away (holds : Holds (a :: hands) s) : a ∉ places s := fun there =>
  (List.nodup_cons.mp holds.owned.nodup).1 (List.mem_append_right hands there)

theorem received_holds (holds : Holds hands s) (here : a ∈ s.receiving) :
    Holds (a :: hands) { s with receiving := s.receiving.erase a } := by
  have classed := holds.classed
  refine holds.of_count rfl ⟨classed.pooled, classed.recalled,
    fun b there => classed.receiving b (List.mem_of_mem_erase there), classed.logic, classed.rpc,
    classed.database⟩ fun b => ?_
  have count := (List.perm_cons_erase here).count_eq b
  simp only [places, underway, List.count_append, List.count_cons] at count ⊢
  omega

theorem stored_holds (holds : Holds hands s) (here : p ∈ s.database) :
    Holds (p.address :: hands) { s with database := s.database.erase p } := by
  have classed := holds.classed
  refine holds.of_count rfl ⟨classed.pooled, classed.recalled, classed.receiving, classed.logic,
    classed.rpc, fun q there => classed.database q (List.mem_of_mem_erase there)⟩ fun b => ?_
  have count := ((List.perm_cons_erase here).map (·.address)).count_eq b
  simp only [places, underway, List.map_cons, List.count_append, List.count_cons] at count ⊢
  omega

theorem logicThread_holds (holds : Holds hands s) (thread : s.logicThread = some p) :
    Holds (p.address :: hands) { s with logicThread := none } := by
  have classed := holds.classed
  refine holds.of_count rfl ⟨classed.pooled, classed.recalled, classed.receiving,
    fun q there => ?_, classed.rpc, classed.database⟩ fun b => ?_
  · rw [Option.toList_none, List.append_nil] at there
    exact classed.logic q (List.mem_append_left _ there)
  · simp only [places, underway, thread, Option.toList_none, Option.toList_some, List.map_cons,
      List.map_nil, List.count_append, List.count_cons, List.count_nil]
    omega

theorem rpcThread_holds (holds : Holds hands s) (thread : s.rpcThread = some p) :
    Holds (p.address :: hands) { s with rpcThread := none } := by
  have classed := holds.classed
  refine holds.of_count rfl ⟨classed.pooled, classed.recalled, classed.receiving, classed.logic,
    fun q there => ?_, classed.database⟩ fun b => ?_
  · rw [Option.toList_none, List.append_nil] at there
    exact classed.rpc q (List.mem_append_left _ there)
  · simp only [places, underway, thread, Option.toList_none, Option.toList_some, List.map_cons,
      List.map_nil, List.count_append, List.count_cons, List.count_nil]
    omega

theorem logicPop_holds (holds : Holds hands s) {queue : List PacketObject}
    (idle : s.logicThread = none) (next : s.logicGateway = p :: queue) :
    Holds hands { s with logicThread := some p, logicGateway := queue } := by
  have classed := holds.classed
  refine holds.of_count rfl ⟨classed.pooled, classed.recalled, classed.receiving,
    fun q there => classed.logic q ?_, classed.rpc, classed.database⟩ fun b => ?_
  · rw [idle, next]
    simp only [Option.toList_some, Option.toList_none, List.mem_append, List.append_nil,
      List.mem_cons, List.not_mem_nil, or_false] at there ⊢
    exact there.symm
  · simp only [places, underway, idle, next, Option.toList_none, Option.toList_some, List.map_cons,
      List.map_nil, List.count_append, List.count_cons, List.count_nil]
    omega

theorem rpcPop_holds (holds : Holds hands s) {queue : List PacketObject}
    (idle : s.rpcThread = none) (next : s.rpcGateway = p :: queue) :
    Holds hands { s with rpcThread := some p, rpcGateway := queue } := by
  have classed := holds.classed
  refine holds.of_count rfl ⟨classed.pooled, classed.recalled, classed.receiving, classed.logic,
    fun q there => classed.rpc q ?_, classed.database⟩ fun b => ?_
  · rw [idle, next]
    simp only [Option.toList_some, Option.toList_none, List.mem_append, List.append_nil,
      List.mem_cons, List.not_mem_nil, or_false] at there ⊢
    exact there.symm
  · simp only [places, underway, idle, next, Option.toList_none, Option.toList_some, List.map_cons,
      List.map_nil, List.count_append, List.count_cons, List.count_nil]
    omega

/-! ## The end of the processing -/

/-- The thread that ends its work on `p` with this event. -/
def Processes (s : SFCasualGameDispatcher) (event : PacketEvent) (p : PacketObject) : Prop :=
  event = .logicDone ∧ s.logicThread = some p ∨ event = .rpcDone ∧ s.rpcThread = some p

/-- The system takes what is pushed, the logic gets no RPC packets and no packets of the echo
protocol, and the RPC service none of the pool. -/
def Careful (s : SFCasualGameDispatcher) (event : PacketEvent) : Prop :=
  match event with
  | .connect _ _ _ accepted | .disconnect _ _ _ accepted | .timer _ _ accepted
  | .receive _ _ _ _ accepted | .dbResult _ accepted => accepted = true
  | .logicDone => ∀ p ∈ s.logicThread, p.packetType ≠ .rpc ∧
      s.objects p.address ≠ some (.received .echo)
  | .rpcDone => ∀ p ∈ s.rpcThread, s.objects p.address ≠ some (.received .cgsf)
  | _ => True

instance (s : SFCasualGameDispatcher) (event : PacketEvent) : Decidable (Careful s event) :=
  match event with
  | .connect _ _ _ accepted | .disconnect _ _ _ accepted | .timer _ _ accepted
  | .receive _ _ _ _ accepted | .dbResult _ accepted =>
      inferInstanceAs (Decidable (accepted = true))
  | .logicDone | .rpcDone => inferInstanceAs (Decidable (∀ _ ∈ _, _))
  | .getPacket _ _ | .noPacket _ | .logicPop | .rpcPop | .dbRequest _ _ _ => .isTrue trivial

/-- How the processing of `p` ends. -/
structure Ends (s : SFCasualGameDispatcher) (event : PacketEvent) (p : PacketObject)
    (cls : PacketClass) (s' : SFCasualGameDispatcher) : Prop where
  step : s.step event = some s'
  class_eq : s.objects p.address = some cls
  away : p.address ∉ underway s'
  back_iff : GivenBack cls s' p.address ↔ Careful s event
  holds : Careful s event → Holds [] s'

theorem GivenBack.away {cls : PacketClass} (back : GivenBack cls s a) (holds : Holds [] s) :
    a ∉ underway s := by
  have nodup : (places s).Nodup := holds.owned.nodup
  have alive (there : a ∈ underway s) : s.objects a ≠ none :=
    (holds.owned.held a).mpr (show a ∈ places s from List.mem_append_right _ there)
  rw [places, List.append_assoc, List.nodup_append, List.nodup_append] at nodup
  obtain ⟨-, ⟨-, -, recalled⟩, pooled⟩ := nodup
  cases cls with
  | sfMessage => exact fun there => recalled a back a there rfl
  | basePacket => exact fun there => alive there back
  | received protocol =>
      cases protocol with
      | cgsf => exact fun there => pooled a back a (List.mem_append_right _ there) rfl
      | json | http | msgPack | avro | protobuf | echo => exact fun there => alive there back

theorem not_givenBack {cls : PacketClass} (holds : Holds (a :: hands) s) : ¬GivenBack cls s a := by
  have away := holds.away
  simp only [places, List.mem_append, not_or] at away
  have exist := (holds.owned.held a).mpr List.mem_cons_self
  cases cls with
  | sfMessage => exact away.1.2
  | basePacket => exact exist
  | received protocol =>
      cases protocol with
      | cgsf => exact away.1.1
      | json | http | msgPack | avro | protobuf | echo => exact exist

theorem Holds.underway_away (holds : Holds (a :: hands) s) : a ∉ underway s := fun there =>
  holds.away (List.mem_append_right _ there)

theorem logicDone_ends (holds : Holds [] s) (thread : s.logicThread = some p) :
    ∃ cls s', Ends s .logicDone p cls s' := by
  have fits := holds.classed.logic p (by simp [thread])
  have mine := logicThread_holds holds thread
  have careful : Careful s .logicDone ↔ p.packetType ≠ .rpc ∧
      s.objects p.address ≠ some (.received .echo) := by
    simp [Careful, thread]
  have done : s.step .logicDone =
      if p.packetType ≠ .db then
        ({ s with logicThread := none }.processPacket p).releasePacket p
      else some ({ s with logicThread := none }.processPacket p) := by
    rw [SFCasualGameDispatcher.step, thread]
    rfl
  have unprocessed (other : p.packetType ≠ .db) :
      s.step .logicDone = { s with logicThread := none }.releasePacket p := by
    rw [done, if_pos other, SFCasualGameDispatcher.processPacket, if_neg fun both => other both.2]
  rw [Fits] at fits
  have deleted (cls : s.objects p.address = some .basePacket) (other : p.packetType ≠ .db)
      (notRPC : p.packetType ≠ .rpc)
      (delete : SFLogicDispatcher.releasePacket p.packetType = some .delete) :
      ∃ cls s', Ends s .logicDone p cls s' := by
    obtain ⟨s', gone, after, rfl⟩ := delete_holds mine
    have back : GivenBack .basePacket { s with
        logicThread := none, objects := Function.update s.objects p.address none } p.address :=
      Function.update_self ..
    refine ⟨.basePacket, _, ?_, cls, back.away after, iff_of_true back ?_, fun _ => after⟩
    · rw [unprocessed other, SFCasualGameDispatcher.releasePacket, delete]
      exact gone
    · rw [careful, cls]
      exact ⟨notRPC, by decide⟩
  cases type : p.packetType with
  | connect | disconnect | timer =>
      rw [type] at fits
      exact deleted fits (by rw [type]; decide) (by rw [type]; decide) (by rw [type]; rfl)
  | data =>
      rw [type] at fits
      obtain ⟨protocol, cls⟩ := fits
      have release : s.step .logicDone = { s with logicThread := none }.release p.address := by
        rw [unprocessed (by rw [type]; decide), SFCasualGameDispatcher.releasePacket, type]
        rfl
      by_cases echo : protocol = .echo
      · subst echo
        refine ⟨.received .echo, { s with logicThread := none }, ?_, cls, mine.underway_away,
          iff_of_false (not_givenBack mine) fun meets => ?_, fun meets => ?_⟩
        · rw [release, SFCasualGameDispatcher.release]
          simp only [cls]
        · exact (careful.mp meets).2 cls
        · exact absurd cls (careful.mp meets).2
      · obtain ⟨s', released, after, back⟩ := release_holds mine cls echo
        refine ⟨.received protocol, s', release.trans released, cls, back.away after,
          iff_of_true back ?_, fun _ => after⟩
        rw [careful, type, cls]
        refine ⟨by decide, fun same => echo ?_⟩
        exact PacketClass.received.inj (Option.some.inj same)
  | rpc =>
      rw [type] at fits
      obtain ⟨protocol, cls⟩ := fits
      have never : ¬Careful s .logicDone := fun meets => (careful.mp meets).1 type
      refine ⟨.received protocol, { s with logicThread := none }, ?_, cls, mine.underway_away,
        iff_of_false (not_givenBack mine) never, fun meets => absurd meets never⟩
      rw [unprocessed (by rw [type]; decide), SFCasualGameDispatcher.releasePacket, type]
      rfl
  | db =>
      rw [type] at fits
      obtain ⟨cls, described⟩ := fits
      have after := recallDBMsg_holds mine cls
      have back : GivenBack .sfMessage ({ s with logicThread := none }.recallDBMsg p.address)
        p.address := List.mem_append_right _ (by simp)
      refine ⟨.sfMessage, _, ?_, cls, back.away after, iff_of_true back ?_, fun _ => after⟩
      · rw [done, if_neg (by rw [type]; decide), SFCasualGameDispatcher.processPacket,
          if_pos ⟨described, type⟩]
      · rw [careful, type, cls]
        exact ⟨by decide, by decide⟩
  | none | shouter | serverShutdown | authenticate =>
      rw [type] at fits
      exact fits.elim

theorem rpcDone_ends (holds : Holds [] s) (thread : s.rpcThread = some p) :
    ∃ cls s', Ends s .rpcDone p cls s' := by
  obtain ⟨rpc, fits⟩ := holds.classed.rpc p (by simp [thread])
  rw [Fits, rpc] at fits
  obtain ⟨protocol, cls⟩ := fits
  have mine := rpcThread_holds holds thread
  have careful : Careful s .rpcDone ↔ s.objects p.address ≠ some (.received .cgsf) := by
    simp [Careful, thread]
  obtain ⟨s', gone, after, rfl⟩ := delete_holds mine
  have done : s.step .rpcDone = { s with rpcThread := none }.delete p.address := by
    rw [SFCasualGameDispatcher.step, thread]
    rfl
  refine ⟨.received protocol, _, done.trans gone, cls, mine.underway_away, ?_, fun _ => after⟩
  rw [careful, cls]
  cases protocol with
  | cgsf =>
      refine iff_of_false (fun back => mine.away ?_) fun never => never rfl
      simp only [places, List.mem_append]
      exact .inl (.inl back)
  | json | http | msgPack | avro | protobuf | echo =>
      refine iff_of_true ?_ (by decide)
      exact Function.update_self p.address none s.objects

/-! ## Runs -/

theorem raise_holds (holds : Holds [] s) {packetType : PacketType} {serial : Int}
    {desc : SessionDesc} {address : Nat}
    (raised : packetType = .connect ∨ packetType = .disconnect ∨ packetType = .timer)
    (run : s.raise packetType serial desc address true = some s') : Holds [] s' := by
  obtain ⟨m, made, rfl⟩ := Option.map_eq_some_iff.mp run
  obtain ⟨after, rfl⟩ := new_holds holds made
  refine dispatch_holds (p := { serial, sessionDesc := desc, packetType, address }) after ?_
  rcases raised with rfl | rfl | rfl <;> exact Function.update_self ..

theorem step_holds (holds : Holds [] s) {event : PacketEvent} (careful : Careful s event)
    (run : s.step event = some s') : Holds [] s' := by
  cases event with
  | connect serial desc address accepted =>
      obtain rfl : accepted = true := careful
      exact raise_holds holds (.inl rfl) run
  | disconnect serial desc address accepted =>
      obtain rfl : accepted = true := careful
      exact raise_holds holds (.inr (.inl rfl)) run
  | timer timerId address accepted =>
      obtain rfl : accepted = true := careful
      exact raise_holds holds (.inr (.inr rfl)) run
  | getPacket protocol address =>
      obtain ⟨⟨q, m⟩, made, rfl⟩ := Option.map_eq_some_iff.mp run
      obtain ⟨after, cls⟩ := createPacket_holds holds made
      exact receiving_holds after ⟨protocol, cls⟩
  | noPacket address =>
      rw [SFCasualGameDispatcher.step] at run
      split at run
      · rename_i protocol cls
        split at run
        · rename_i here
          obtain ⟨m, disposed, after, -⟩ := disposePacket_holds (received_holds holds here) cls
          obtain rfl := Option.some.inj (run.symm.trans disposed)
          exact after
        · contradiction
      · contradiction
  | receive address packetID serial desc accepted =>
      obtain rfl : accepted = true := careful
      rw [SFCasualGameDispatcher.step] at run
      split at run
      · rename_i here
        obtain rfl := Option.some.inj run
        refine dispatch_holds (received_holds holds here) ?_
        have cls := holds.classed.receiving address here
        rw [Fits]
        split_ifs <;> exact cls
      · contradiction
  | logicPop =>
      rw [SFCasualGameDispatcher.step] at run
      split at run
      · rename_i idle next
        obtain rfl := Option.some.inj run
        exact logicPop_holds holds idle next
      · contradiction
  | rpcPop =>
      rw [SFCasualGameDispatcher.step] at run
      split at run
      · rename_i idle next
        obtain rfl := Option.some.inj run
        exact rpcPop_holds holds idle next
      · contradiction
  | logicDone =>
      obtain ⟨p, thread, -⟩ := Option.bind_eq_some_iff.mp run
      obtain ⟨cls, m, ends⟩ := logicDone_ends holds thread
      obtain rfl := Option.some.inj (run.symm.trans ends.step)
      exact ends.holds careful
  | rpcDone =>
      obtain ⟨p, thread, -⟩ := Option.bind_eq_some_iff.mp run
      obtain ⟨cls, m, ends⟩ := rpcDone_ends holds thread
      obtain rfl := Option.some.inj (run.symm.trans ends.step)
      exact ends.holds careful
  | dbRequest serial packetID address =>
      obtain ⟨⟨q, m⟩, made, rfl⟩ := Option.map_eq_some_iff.mp run
      obtain ⟨after, cls⟩ := allocDBMsg_holds holds made
      have classed := after.classed
      refine after.of_count rfl ⟨classed.pooled, classed.recalled, classed.receiving,
        classed.logic, classed.rpc, fun k there => ?_⟩ fun b => ?_
      · rcases List.mem_append.mp there with old | new
        · exact classed.database k old
        · rw [List.mem_singleton.mp new]
          exact ⟨rfl, cls, show (-1 : Int) ≤ 0 by decide⟩
      · simp only [places, underway, List.map_append, List.map_cons, List.map_nil,
          List.count_append, List.count_cons, List.count_nil]
        omega
  | dbResult message accepted =>
      obtain rfl : accepted = true := careful
      rw [SFCasualGameDispatcher.step] at run
      split at run
      · rename_i here
        obtain rfl := Option.some.inj run
        exact pushLogic_holds (stored_holds holds here) (holds.classed.database message here).2
      · contradiction

theorem initial_holds (isServer : Bool) : Holds [] { isServer } where
  owned := ⟨List.nodup_nil, fun _ => iff_of_false (fun never => never rfl) List.not_mem_nil⟩
  classed := by
    refine ⟨?_, ?_, ?_, ?_, ?_, ?_⟩ <;> intro _ there <;> cases there

/-- Objects are conserved, and what a thread has processed it gives back exactly if the event is
careful. -/
theorem run_givenBack {isServer : Bool} {history : List PacketEvent}
    (run : Run (Guarded Careful fun s event s' => s.step event = some s') { isServer } history s) :
    Conserved s ∧ ∀ event p, Processes s event p → ∃ cls s', s.step event = some s' ∧
      s.objects p.address = some cls ∧ p.address ∉ underway s' ∧
      (GivenBack cls s' p.address ↔ Careful s event) ∧ (Careful s event → Conserved s') := by
  have holds : Holds [] s := run.invariant (I := Holds []) (initial_holds isServer)
    fun s event s' before action => step_holds before action.1 action.2
  have ends {event : PacketEvent} {p : PacketObject} {cls : PacketClass}
      {s' : SFCasualGameDispatcher} (ends : Ends s event p cls s') : ∃ cls s',
        s.step event = some s' ∧ s.objects p.address = some cls ∧ p.address ∉ underway s' ∧
        (GivenBack cls s' p.address ↔ Careful s event) ∧ (Careful s event → Conserved s') :=
    ⟨cls, s', ends.step, ends.class_eq, ends.away, ends.back_iff,
      fun meets => (ends.holds meets).conserved⟩
  refine ⟨holds.conserved, fun event p processes => ?_⟩
  rcases processes with ⟨rfl, thread⟩ | ⟨rfl, thread⟩
  · obtain ⟨cls, s', spec⟩ := logicDone_ends holds thread
    exact ends spec
  · obtain ⟨cls, s', spec⟩ := rpcDone_ends holds thread
    exact ends spec

theorem not_conserved (exist : s.objects a ≠ none) (nowhere : a ∉ places s) : ¬Conserved s :=
  fun conserved => nowhere ((conserved.owned.held a).mp exist)

/-- The answer of the database to a login. -/
def loginResult : PacketObject :=
  { serial := 7, packetType := .db, packetID := 1, address := 102 }

/-- A connection, a packet from the pool, an answer of the database and a call of an RPC service in
a packet that is no pool's. -/
def fewPackets : List PacketEvent :=
  [.connect 7 {} 100 true, .logicPop, .getPacket .cgsf 101, .dbRequest 7 1 102, .logicDone,
    .receive 101 5 7 {} true, .logicPop, .dbResult loginResult true, .logicDone, .logicPop,
    .logicDone, .getPacket .json 100, .receive 100 60000 7 {} true, .rpcPop]

theorem fewPackets_givenBack : ∃ s : SFCasualGameDispatcher, s.packetPool.queue = [101] ∧
    s.dbMessagePool.queue = [102] ∧ Conserved s ∧
    ∃ s', s.step .rpcDone = some s' ∧ s'.objects 100 = none := by
  have plays : (fewPackets.foldlM (fun (s : SFCasualGameDispatcher) event =>
      if Careful s event then s.step event else none) { isServer := true }).map (fun s =>
        (s.packetPool.queue, s.dbMessagePool.queue, s.rpcThread.map (·.address), s.objects 100)) =
      some ([101], [102], some 100, some (.received .json)) := by
    decide
  obtain ⟨s, result, is⟩ := Option.map_eq_some_iff.mp plays
  simp only [Prod.mk.injEq] at is
  obtain ⟨p, thread, address⟩ := Option.map_eq_some_iff.mp is.2.2.1
  obtain ⟨conserved, processed⟩ :=
    run_givenBack (Run.guarded_of_foldlM Careful SFCasualGameDispatcher.step fewPackets result)
  obtain ⟨cls, s', step, class_eq, -, back, -⟩ := processed .rpcDone p (.inr ⟨rfl, thread⟩)
  refine ⟨s, is.1, is.2.1, conserved, s', step, ?_⟩
  rw [address, is.2.2.2] at class_eq
  obtain rfl := Option.some.inj class_eq
  have gone : s'.objects p.address = none := back.mpr fun q there => by
    obtain rfl := Option.some.inj (thread.symm.trans there)
    rw [address, is.2.2.2]
    decide
  rwa [address] at gone

/-- An RPC packet from the pool arrives at a server. -/
def serverCall : List PacketEvent :=
  [.getPacket .cgsf 100, .receive 100 60000 7 {} true, .rpcPop, .rpcDone]

/-- It arrives at a client. -/
def clientCall : List PacketEvent :=
  [.getPacket .cgsf 100, .receive 100 60000 7 {} true, .logicPop, .logicDone]

/-- A packet of the echo protocol. -/
def echo : List PacketEvent :=
  [.getPacket .echo 100, .receive 100 5 7 {} true, .logicPop, .logicDone]

theorem run_of_places (isServer : Bool) (history : List PacketEvent) (object : Option PacketClass)
    (plays : (history.foldlM SFCasualGameDispatcher.step { isServer }).map (fun s =>
      (places s, s.objects 100)) = some ([], object)) :
    ∃ s, Run (fun s event s' => s.step event = some s')
      ({ isServer } : SFCasualGameDispatcher) history s ∧ places s = [] ∧ s.objects 100 = object := by
  obtain ⟨s, result, is⟩ := Option.map_eq_some_iff.mp plays
  exact ⟨s, .of_foldlM _ _ result, congrArg Prod.fst is, congrArg Prod.snd is⟩

/-- The RPC thread deletes what came from the pool; the logic thread gives back neither an RPC packet
nor a packet of the echo protocol. -/
theorem calls_notGivenBack :
    (∃ s, Run (fun s event s' => s.step event = some s')
        ({ isServer := true } : SFCasualGameDispatcher) serverCall s ∧
      ¬GivenBack (.received .cgsf) s 100 ∧ s.objects 100 = none) ∧
    (∃ s, Run (fun s event s' => s.step event = some s')
        ({ isServer := false } : SFCasualGameDispatcher) clientCall s ∧ ¬Conserved s) ∧
    ∃ s, Run (fun s event s' => s.step event = some s')
        ({ isServer := true } : SFCasualGameDispatcher) echo s ∧ ¬Conserved s := by
  have lost {s : SFCasualGameDispatcher} {cls : PacketClass} (nowhere : places s = [])
      (object : s.objects 100 = some cls) : ¬Conserved s := by
    refine not_conserved (a := 100) ?_ ?_
    · rw [object]
      exact Option.some_ne_none cls
    · rw [nowhere]
      exact List.not_mem_nil
  refine ⟨?_, ?_, ?_⟩
  · obtain ⟨s, run, nowhere, object⟩ := run_of_places true serverCall none (by decide)
    refine ⟨s, run, fun back => ?_, object⟩
    have there : 100 ∈ places s := by
      rw [places, List.append_assoc]
      exact List.mem_append_left _ back
    rw [nowhere] at there
    cases there
  · obtain ⟨s, run, nowhere, object⟩ :=
      run_of_places false clientCall (some (.received .cgsf)) (by decide)
    exact ⟨s, run, lost nowhere object⟩
  · obtain ⟨s, run, nowhere, object⟩ :=
      run_of_places true echo (some (.received .echo)) (by decide)
    exact ⟨s, run, lost nowhere object⟩

end Cgsf.Proof.Engine.SFCasualGameDispatcher
