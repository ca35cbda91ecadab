import Cgsf.Proof.RPC.Updates

/-!
# Remote calls and local calls

The client and the server read what the other one wrote. The server makes copies of the variables of
the client, and it destroys a copy once for each argument that leads to it.
-/

namespace Cgsf.Proof.RPC
open Cgsf.RPC Cgsf.RPC.CPstream Cgsf.Proof.RPC.CPstream

variable {classes : List Persistence} {memory memory' : Memory} {σ : Type}

theorem packetData_eq (bytes : Bytes) : packetData bytes =
    some (if Engine.headerSize + bytes.length > Engine.maxPacketSize then [] else bytes) := by
  rw [packetData]
  split
  next large =>
    simp [Engine.SFPacket.write, Engine.SFPacket.getPacketSize, Engine.SFPacket.getDataSize,
      Engine.SFPacket.setPacketID, large, Engine.SFPacket.getData]
  next fits =>
    have room : bytes.length ≤ Engine.SFPacket.dataCapacity := by
      rw [Engine.SFPacket.dataCapacity]
      omega
    have size : bytes.length % 65536 = bytes.length :=
      Nat.mod_eq_of_lt (room.trans_lt (by decide))
    simp [Engine.SFPacket.write, Engine.SFPacket.getPacketSize, Engine.SFPacket.getDataSize,
      Engine.SFPacket.setPacketID, fits, Engine.SFPacket.getData, Engine.SFPacket.putData,
      Engine.SFPacket.setDataSize, room, size, Library.splice]

theorem packetData_fits {bytes : Bytes}
    (fits : Engine.headerSize + bytes.length ≤ Engine.maxPacketSize) :
    packetData bytes = some bytes := by
  rw [packetData_eq, if_neg (not_lt.mpr fits)]

theorem processRPCService_request {serviceDef : ServiceDefinition σ} {methodId : Int32}
    {method : IServiceMethod σ} {service : σ} {args : Bytes}
    (exposed : serviceDef.getMethodById methodId = some method)
    (small : serviceDef.serviceName.length < 2 ^ 31) :
    processRPCService serviceDef service (Proxy.request serviceDef.serviceName methodId args) =
      (method service args).map fun (results, service) =>
        (saveInt rpcOk ++ saveInt methodId ++ results, service) := by
  rw [processRPCService, Proxy.request, List.append_assoc, loadString_saveString _ _ small]
  simp only [Option.bind_eq_bind, Option.bind_some, ne_eq, not_true_eq_false, if_false,
    loadInt_saveInt, exposed]
  cases method service args <;> rfl

theorem receive_reply (methodId : Int32) (results : Bytes) :
    Proxy.receive methodId (saveInt rpcOk ++ saveInt methodId ++ results) = some (.ok results) := by
  rw [Proxy.receive, List.append_assoc, loadInt_saveInt]
  simp

theorem places_length_of_copies {args args' : List Arg}
    (copies : List.Forall₂ (Copy memory memory') args args') :
    (places args').length = (places args).length := by
  induction copies with
  | nil => rfl
  | @cons arg arg' args args' copy copies ih =>
      obtain ⟨place, rfl, -⟩ := copy
      cases here : arg.place? with
      | none =>
          rw [move_of_none here, places_cons_none here, places_cons_none here, ih]
      | some a =>
          rw [places_cons_some here, places_cons_some (place_move here place), List.length_cons,
            List.length_cons, ih]

namespace Call

/-- The arguments that the server loads, with its memory. -/
def loaded (call : Call classes σ) : List Arg × Loading :=
  copies call.memory call.args [] { stream := [] }

/-- What the method does on the server. -/
def onServer (call : Call classes σ) (service : σ) : Outcome σ :=
  call.method.memFunc service (views (loaded call).2.memory (loaded call).1)

variable (call : Call classes σ)

theorem valid_args : ∀ arg ∈ call.args, Arg.Valid classes call.memory arg := by
  have takes := call.valid
  rw [← call.typed, views, List.forall₂_map_left_iff, List.forall₂_map_right_iff,
    List.forall₂_same] at takes
  exact fun arg member => valid_of_takes (takes arg member)

theorem copy_loaded : List.Forall₂ (Copy call.memory (loaded call).2.memory) call.args
    (loaded call).1 := by
  have tabled : Tabled call.memory [] { stream := [] } := .nil
  exact copy_copies tabled call.args

theorem coherent_loaded : Coherent (views (loaded call).2.memory (loaded call).1) :=
  coherent_views _ _

theorem takes_loaded : List.Forall₂ (ParamType.Takes classes) call.method.params
    (views (loaded call).2.memory (loaded call).1) := by
  rw [← call.typed, views, List.forall₂_map_left_iff, List.forall₂_map_right_iff]
  have both := (List.forall₂_and_left _ _).mpr ⟨valid_args call, copy_loaded call⟩
  refine both.imp fun arg arg' entry => ?_
  obtain ⟨valid, place, rfl, same⟩ := entry
  have view : (Arg.move place arg).view (firstAt (loaded call).1) (loaded call).2.memory =
      arg.view (fun _ => firstAt (loaded call).1 place) call.memory :=
    view_move fun a here => ⟨rfl, same a here⟩
  rw [view]
  exact takes_view valid _

/-- The server behind a call in which the method did this. -/
def behind (outcome : Outcome σ) : Server σ where
  service := outcome.service
  created :=
    if outcome.result.any Result.isFresh then (loaded call).2.created + 1
    else (loaded call).2.created
  destroyed :=
    (outcome.result.bind (Result.place? (loaded call).1 (loaded call).2.created)).toList ++
      (places (loaded call).1).reverse

theorem dispatch_saveArgs (server : Server σ) :
    call.method.dispatch classes server (saveArgs classes call.memory call.args []) =
      let args := (loaded call).1
      let before := (loaded call).2.memory
      let outcome := onServer call server.service
      let after := outcome.memory args before
      if args.any (overflows before after) then none
      else some (saveUpdates classes after args ++
        saveResult classes after args (loaded call).2.created call.method.ret outcome.result,
        behind call outcome) := by
  have size : call.args.length ≤ 8 := by
    rw [← List.length_map Arg.type, call.typed]
    exact call.method.upToEight
  have tabled : Tabled call.memory [] { stream := [] } := .nil
  have load := loadArgs_saveArgs call.maxClass call.args tabled (by simp; omega) (valid_args call) []
  rw [List.append_nil, call.typed] at load
  rw [ServiceMethod.dispatch, load]
  rfl

/-- The remote call, once the request has reached the method. -/
theorem invoke_eq {serviceDef : ServiceDefinition (Server σ)} {methodId : Int32} (server : Server σ)
    (exposed : serviceDef.getMethodById methodId = some (call.method.dispatch classes))
    (fits : Engine.headerSize + (Proxy.request serviceDef.serviceName methodId
      (saveArgs classes call.memory call.args [])).length ≤ Engine.maxPacketSize) :
    Proxy.invoke classes serviceDef methodId server call =
      (call.method.dispatch classes server (saveArgs classes call.memory call.args [])).bind
        fun (oAr, server) =>
          if Engine.headerSize + (saveInt rpcOk ++ saveInt methodId ++ oAr).length >
            Engine.maxPacketSize then none
          else
            (loadUpdates classes call.memory oAr call.args).bind fun (memory, ia) =>
              (Proxy.loadResult classes call.method.ret ia).bind fun (result, ia) =>
                some { ended := .ok (result, ia), memory, server } := by
  have small : serviceDef.serviceName.length < 2 ^ 31 := by
    simp only [Proxy.request, saveString, List.length_append, Engine.headerSize,
      Engine.maxPacketSize] at fits
    omega
  rw [Proxy.invoke, packetData_fits fits]
  simp only [Option.bind_eq_bind, Option.bind_some, processRPCService_request exposed small]
  cases call.method.dispatch classes server (saveArgs classes call.memory call.args []) with
  | none => rfl
  | some reply =>
      obtain ⟨oAr, server'⟩ := reply
      simp only [Option.map_some, Option.bind_some, packetData_eq]
      split
      · rfl
      · simp only [receive_reply, Option.bind_some]
        rfl

/-- What the method does with variables that are all different. -/
def separately (service : σ) : Outcome σ :=
  call.method.memFunc service (apart call.memory call.args)

theorem created_loaded : (loaded call).2.created ≤ (places call.args).length ∧
    ((loaded call).2.created = (places call.args).length ↔ (objects call.args).Nodup) := by
  have counted : (loaded call).2.created ≤ 0 + (places call.args).length ∧
      ((loaded call).2.created = 0 + (places call.args).length ↔ ([] ++ objects call.args).Nodup) :=
    separate_iff call.args List.nodup_nil
  simpa using counted

theorem places_loaded (separate : (objects call.args).Nodup) :
    places (loaded call).1 = List.range (places call.args).length := by
  rw [loaded, places_copies call.args (by simpa using separate), List.range_eq_range']

theorem once_loaded (separate : (objects call.args).Nodup) : (places (loaded call).1).Nodup := by
  rw [places_loaded call separate]
  exact List.nodup_range

theorem onServer_eq (separate : (objects call.args).Nodup) (service : σ) :
    onServer call service = separately call service := by
  rw [onServer, views_copies (copy_loaded call) (once_loaded call separate), separately]

theorem place_of_param {args : List Arg} {k first : Nat} {content : Cell}
    (view : (views memory args)[k]? = some (.cell first content)) :
    ∃ a, (args[k]?).bind Arg.place? = some a := by
  rw [views, List.getElem?_map] at view
  obtain ⟨arg, at_k, view⟩ := Option.map_eq_some_iff.mp view
  rw [at_k, Option.bind_some]
  exact place_of_view view

/-- As many objects are destroyed as there are variables, and one more for a pointer or a reference
that is returned; as many are created if no object is given twice and the result is new. -/
theorem separate_of_perm (service : σ)
    (perm : (behind call (onServer call service)).destroyed.Perm
      (List.range (behind call (onServer call service)).created)) :
    (objects call.args).Nodup ∧ ∀ r, (onServer call service).result = some r → HandedOver r := by
  obtain ⟨bound, separate⟩ := created_loaded call
  have length := perm.length_eq
  rw [behind, List.length_append, List.length_reverse, List.length_range,
    places_length_of_copies (copy_loaded call)] at length
  have typed := call.method.resultTyped service _ (takes_loaded call) (coherent_loaded call)
  cases returned : (onServer call service).result with
  | none =>
      simp only [returned, Option.bind_none, Option.toList_none, List.length_nil, Option.any_none,
        Bool.false_eq_true, if_false] at length
      exact ⟨separate.mp (by omega), nofun⟩
  | some result =>
      rw [returned] at length
      cases result with
      | void | value | null =>
          simp only [Option.bind_some, Result.place?, Option.toList_none, List.length_nil,
            Option.any_some, Result.isFresh, Bool.false_eq_true, if_false] at length
          refine ⟨separate.mp (by omega), ?_⟩
          rintro r ⟨⟩
          trivial
      | fresh content =>
          simp only [Option.bind_some, Result.place?, Option.toList_some, List.length_singleton,
            Option.any_some, Result.isFresh, if_true] at length
          refine ⟨separate.mp (by omega), ?_⟩
          rintro r ⟨⟩
          trivial
      | param k =>
          have typed := typed _ returned
          split at typed
          · cases typed
          · obtain ⟨first, content, view⟩ := typed
            obtain ⟨a, here⟩ := place_of_param view
            simp only [Option.bind_some, Result.place?, here, Option.toList_some,
              List.length_singleton, Option.any_some, Result.isFresh, Bool.false_eq_true,
              if_false] at length
            omega
      | own content =>
          simp only [Option.bind_some, Result.place?, Option.toList_some, List.length_singleton,
            Option.any_some, Result.isFresh, Bool.false_eq_true, if_false] at length
          omega

theorem perm_of_separate (separate : (objects call.args).Nodup) {outcome : Outcome σ}
    (handed : ∀ r, outcome.result = some r → HandedOver r) :
    (behind call outcome).destroyed.Perm (List.range (behind call outcome).created) := by
  have created := (created_loaded call).2.mpr separate
  rw [behind, places_loaded call separate, ← created]
  cases returned : outcome.result with
  | none => exact List.reverse_perm _
  | some r =>
      cases r with
      | void | value | null => exact List.reverse_perm _
      | fresh content =>
          simp only [Option.bind_some, Result.place?, Option.toList_some, Option.any_some,
            Result.isFresh, if_true, List.range_succ]
          exact (List.perm_append_comm).trans ((List.reverse_perm _).append_right _)
      | param k => exact (handed _ returned).elim
      | own content => exact (handed _ returned).elim

/-- The remote call, if no object is given twice and the result is handed over. -/
theorem invoke_separate {serviceDef : ServiceDefinition (Server σ)} {methodId : Int32}
    (server : Server σ)
    (exposed : serviceDef.getMethodById methodId = some (call.method.dispatch classes))
    (fits : Engine.headerSize + (Proxy.request serviceDef.serviceName methodId
      (saveArgs classes call.memory call.args [])).length ≤ Engine.maxPacketSize)
    (separate : (objects call.args).Nodup)
    (handed : ∀ r, (separately call server.service).result = some r → HandedOver r) :
    Proxy.invoke classes serviceDef methodId server call =
      let outcome := separately call server.service
      let results := resultBytes classes call.method.ret outcome.result
      let oAr := updates classes call.memory outcome.contents call.args ++ results
      if (loaded call).1.any (overflows (loaded call).2.memory
        (outcome.memory (loaded call).1 (loaded call).2.memory)) then none
      else if Engine.headerSize + (saveInt rpcOk ++ saveInt methodId ++ oAr).length >
        Engine.maxPacketSize then none
      else (Proxy.loadResult classes call.method.ret results).bind fun (result, ia) => some {
        ended := .ok (result, ia)
        memory := writeBack call.memory outcome.contents call.args
        server := behind call outcome } := by
  have same := onServer_eq call separate server.service
  have once := once_loaded call separate
  have contents (k : Nat) (arg : Arg) (a : Nat) (at_k : call.args[k]? = some arg)
      (here : arg.place? = some a) : arg.type.Holds classes
        { call.memory a with image := (separately call server.service).contents k } := by
    have takes := takes_loaded call
    have coherent := coherent_loaded call
    rw [views_copies (copy_loaded call) once] at takes coherent
    refine call.method.contentsTyped server.service _ takes coherent k _ k (call.memory a) ?_ ?_
    · rw [← call.typed, List.getElem?_map, at_k]
      rfl
    · rw [apart, List.getElem?_mapIdx, at_k, Option.map_some, view_of_place here]
  have values (arg : Arg) (member : arg ∈ call.args) (type : Persistence) (a : Bytes)
      (kind : arg = .value type a) : type.Valid a := by
    have valid := valid_args call arg member
    rw [kind] at valid
    exact valid
  rw [invoke_eq call server exposed fits, dispatch_saveArgs]
  simp only [same]
  split
  · rfl
  · simp only [Option.bind_some, saveUpdates_copies (copy_loaded call) once, saveResult_eq _ handed,
      loadUpdates_updates _ (fun _ => rfl) values contents]

end Call

/-- The remote call reads what was written and nothing else, destroys what was created, and ends as
the local call does or with an error. -/
def Transparent (serviceDef : ServiceDefinition (Server σ)) (methodId : Int32) (server : Server σ)
    (call : Call classes σ) : Prop :=
  ∃ remote, Proxy.invoke classes serviceDef methodId server call = some remote ∧
    remote.server.unread = [] ∧
    remote.server.destroyed.Perm (List.range remote.server.created) ∧
    match remote.ended with
    | .error _ => True
    | .ok (result, left) =>
        left = [] ∧ (call.locally server.service).result = some result ∧
          remote.memory = (call.locally server.service).memory call.args call.memory ∧
          remote.server.service = (call.locally server.service).service

/-- No object is given twice, the result is handed over, no text grows, the reply fits a packet, and
the method returns, with what it does not depend on which variables are the same. A method that
returns nothing may throw an exception if it returns when variables are the same. -/
structure Plain (call : Call classes σ) (service : σ) : Prop where
  separate : (objects call.args).Nodup
  handed : ∀ r, (Call.separately call service).result = some r → HandedOver r
  texts : ∀ (k : Nat) (a : Nat), call.args[k]? = some (.charPtr (some a)) →
    ((Call.separately call service).contents k).length ≤ (call.memory a).image.length
  fits : Engine.headerSize + (8 +
    (updates classes call.memory (Call.separately call service).contents call.args).length +
    (resultBytes classes call.method.ret (Call.separately call service).result).length) ≤
      Engine.maxPacketSize
  returns : ∃ r, (call.locally service).result = some r ∧
    ((Call.separately call service).result = some r ∨ (Call.separately call service).result = none ∧
      Proxy.loadResult classes call.method.ret [] = some (r, []))
  alike : (Call.separately call service).service = (call.locally service).service ∧
    writeBack call.memory (Call.separately call service).contents call.args =
      (call.locally service).memory call.args call.memory

theorem writeBack_apply (contents : Nat → Bytes) {args : List Arg} (distinct : (places args).Nodup)
    (a : Nat) : writeBack memory contents args a =
      if some a ∈ args.map Arg.place? then
        { memory a with image := contents (firstAt args a) } else memory a := by
  induction args generalizing memory contents with
  | nil => rfl
  | cons arg args ih =>
      have later {b : Nat} (other : arg.place? ≠ some b) :
          firstAt (arg :: args) b = firstAt args b + 1 :=
        List.idxOf_cons_ne _ other
      simp only [writeBack, List.map_cons, List.mem_cons]
      cases here : arg.place? with
      | none =>
          rw [places_cons_none here] at distinct
          have other : arg.place? ≠ some a := by
            rw [here]
            nofun
          simp [ih _ distinct, later other]
      | some b =>
          rw [places_cons_some here, List.nodup_cons] at distinct
          rw [ih _ distinct.2]
          by_cases same : a = b
          · subst same
            have missing : some a ∉ args.map Arg.place? := by
              intro member
              obtain ⟨arg', member, here'⟩ := List.mem_map.mp member
              exact distinct.1 (List.mem_filterMap.mpr ⟨arg', member, here'⟩)
            have first : firstAt (arg :: args) a = 0 := by
              simp [firstAt, here]
            simp [missing, first, Memory.write]
          · have other : arg.place? ≠ some a := by
              rw [here]
              exact fun equal => same (Option.some.inj equal).symm
            have kept : memory.write b (contents 0) a = memory a := Function.update_of_ne same _ _
            simp [kept, later other, same]

theorem move_self {arg : Arg} {a : Nat} (here : arg.place? = some a) : Arg.move a arg = arg := by
  cases arg <;> simp_all [Arg.move, Arg.place?]

theorem copy_self (memory : Memory) (args : List Arg) :
    List.Forall₂ (Copy memory memory) args args := by
  refine List.forall₂_same.mpr fun arg _ => ?_
  cases here : arg.place? with
  | none =>
      refine ⟨0, (move_of_none here 0).symm, fun b here' => ?_⟩
      rw [here] at here'
      cases here'
  | some a =>
      refine ⟨a, (move_self here).symm, fun b here' => ?_⟩
      obtain rfl := Option.some.inj (here.symm.trans here')
      rfl

theorem objects_sublist (args : List Arg) : (objects args).Sublist (places args) := by
  induction args with
  | nil => exact .slnil
  | cons arg args ih =>
      rw [objects_cons]
      cases here : arg.place? with
      | none =>
          rw [places_cons_none here]
          simpa using ih
      | some a =>
          rw [places_cons_some here]
          cases Arg.isObject arg with
          | false => exact ih.cons a
          | true => exact ih.cons_cons a

/-- Without shared variables a call is plain if the method returns, the result is handed over, no
text grows and the reply fits a packet. -/
theorem plain_iff_of_distinct {call : Call classes σ} {service : σ}
    (distinct : (places call.args).Nodup) :
    Plain call service ↔
      (∃ r, (call.locally service).result = some r ∧ HandedOver r) ∧
      (∀ (k : Nat) (a : Nat), call.args[k]? = some (.charPtr (some a)) →
        ((call.locally service).contents k).length ≤ (call.memory a).image.length) ∧
      Engine.headerSize + (8 +
        (updates classes call.memory (call.locally service).contents call.args).length +
        (resultBytes classes call.method.ret (call.locally service).result).length) ≤
          Engine.maxPacketSize := by
  have same : Call.separately call service = call.locally service := by
    rw [Call.separately, ← views_copies (copy_self call.memory call.args) distinct, Call.locally]
  constructor
  · rintro ⟨-, handed, texts, fits, ⟨r, returned, -⟩, -⟩
    rw [same] at handed texts fits
    exact ⟨⟨r, returned, handed r returned⟩, texts, fits⟩
  · rintro ⟨⟨r, returned, handed⟩, texts, fits⟩
    rw [← same] at texts fits
    refine ⟨distinct.sublist (objects_sublist _), ?_, texts, fits, ⟨r, returned, ?_⟩, ?_⟩
    · intro r' returned'
      rw [same, returned] at returned'
      obtain rfl := Option.some.inj returned'
      exact handed
    · rw [same]
      exact .inl returned
    · rw [same]
      refine ⟨rfl, funext fun a => ?_⟩
      rw [writeBack_apply _ distinct, Outcome.memory]

theorem resultBytes_none (ret : Option ParamType) : resultBytes classes ret none = [] := by
  cases ret <;> rfl

/-- The client loads the result of the method, or, if there is none, from nothing. -/
theorem loadResult_separately (call : Call classes σ) (service : σ)
    (separate : (objects call.args).Nodup)
    (handed : ∀ r, (Call.separately call service).result = some r → HandedOver r) (result : Result)
    (left : Bytes) :
    Proxy.loadResult classes call.method.ret
        (resultBytes classes call.method.ret (Call.separately call service).result) =
      some (result, left) ↔
    (Call.separately call service).result = some result ∧ left = [] ∨
      (Call.separately call service).result = none ∧
        Proxy.loadResult classes call.method.ret [] = some (result, left) := by
  cases returned : (Call.separately call service).result with
  | none =>
      rw [resultBytes_none]
      simp
  | some r =>
      have typed := call.method.resultTyped service _ (Call.takes_loaded call)
        (Call.coherent_loaded call) r
      rw [views_copies (Call.copy_loaded call) (Call.once_loaded call separate)] at typed
      rw [loadResult_resultBytes call.maxClass (handed r returned) (typed returned)]
      simp [eq_comm]

theorem behind_of_invoke {serviceDef : ServiceDefinition (Server σ)} {methodId : Int32}
    {server : Server σ} {call : Call classes σ}
    (exposed : serviceDef.getMethodById methodId = some (call.method.dispatch classes))
    (fits : Engine.headerSize + (Proxy.request serviceDef.serviceName methodId
      (saveArgs classes call.memory call.args [])).length ≤ Engine.maxPacketSize)
    {remote : Remote σ} (invoked : Proxy.invoke classes serviceDef methodId server call = some remote) :
    remote.server = Call.behind call (Call.onServer call server.service) := by
  rw [Call.invoke_eq call server exposed fits, Call.dispatch_saveArgs] at invoked
  simp only at invoked
  split at invoked
  · cases invoked
  rw [Option.bind_some] at invoked
  split at invoked
  · cases invoked
  obtain ⟨updated, -, invoked⟩ := Option.bind_eq_some_iff.mp invoked
  obtain ⟨result, -, invoked⟩ := Option.bind_eq_some_iff.mp invoked
  rw [← Option.some.inj invoked]

theorem plain_of_transparent {serviceDef : ServiceDefinition (Server σ)} {methodId : Int32}
    {server : Server σ} {call : Call classes σ}
    (exposed : serviceDef.getMethodById methodId = some (call.method.dispatch classes))
    (fits : Engine.headerSize + (Proxy.request serviceDef.serviceName methodId
      (saveArgs classes call.memory call.args [])).length ≤ Engine.maxPacketSize)
    (transparent : Transparent serviceDef methodId server call) : Plain call server.service := by
  obtain ⟨remote, invoked, -, perm, ended⟩ := transparent
  rw [behind_of_invoke exposed fits invoked] at perm
  obtain ⟨separate, handed⟩ := Call.separate_of_perm call server.service perm
  rw [Call.onServer_eq call separate] at handed
  rw [Call.invoke_separate call server exposed fits separate handed] at invoked
  simp only at invoked
  split at invoked
  · cases invoked
  next texts =>
  split at invoked
  · cases invoked
  next room =>
  obtain ⟨⟨result, left⟩, loaded, invoked⟩ := Option.bind_eq_some_iff.mp invoked
  obtain rfl := Option.some.inj invoked
  obtain ⟨rfl, returned, memory, service⟩ := ended
  have once := Call.once_loaded call separate
  refine ⟨separate, handed, ?_, ?_, ⟨result, returned, ?_⟩, service, memory⟩
  · exact (any_overflows_iff (Call.copy_loaded call) once _).mp (by simpa using texts)
  · simp only [List.length_append, saveInt_length] at room
    omega
  · simpa using (loadResult_separately call server.service separate handed result []).mp loaded

theorem transparent_of_plain {serviceDef : ServiceDefinition (Server σ)} {methodId : Int32}
    {server : Server σ} {call : Call classes σ}
    (exposed : serviceDef.getMethodById methodId = some (call.method.dispatch classes))
    (fits : Engine.headerSize + (Proxy.request serviceDef.serviceName methodId
      (saveArgs classes call.memory call.args [])).length ≤ Engine.maxPacketSize)
    (plain : Plain call server.service) : Transparent serviceDef methodId server call := by
  obtain ⟨separate, handed, texts, room, ⟨result, returned, same⟩, service, memory⟩ := plain
  have once := Call.once_loaded call separate
  have loaded := (loadResult_separately call server.service separate handed result []).mpr
    (by simpa using same)
  let outcome := Call.separately call server.service
  refine ⟨⟨.ok (result, []), writeBack call.memory outcome.contents call.args,
    Call.behind call outcome⟩, ?_, rfl, Call.perm_of_separate call separate handed, rfl, returned,
    memory, service⟩
  rw [Call.invoke_separate call server exposed fits separate handed]
  simp only
  rw [if_neg, if_neg, loaded]
  · rfl
  · simp only [List.length_append, saveInt_length]
    omega
  · rw [(any_overflows_iff (Call.copy_loaded call) once _).mpr texts]
    exact Bool.false_ne_true

/-- The remote call is transparent exactly for plain calls. -/
theorem transparent_iff {serviceDef : ServiceDefinition (Server σ)} {methodId : Int32}
    {server : Server σ} {call : Call classes σ}
    (exposed : serviceDef.getMethodById methodId = some (call.method.dispatch classes))
    (fits : Engine.headerSize + (Proxy.request serviceDef.serviceName methodId
      (saveArgs classes call.memory call.args [])).length ≤ Engine.maxPacketSize) :
    Transparent serviceDef methodId server call ↔ Plain call server.service :=
  ⟨plain_of_transparent exposed fits, transparent_of_plain exposed fits⟩

/-- A service whose method changes all its variables and returns a new object. -/
def updateMethod : ServiceMethod [.raw 1] Unit where
  params := [.primitiveRef (.raw 1), .objectPtr fun _ => true, .charPtr]
  upToEight := by decide
  ret := some (.objectPtr fun _ => true)
  memFunc _ _ := { service := (), contents := fun _ => [7], result := some (.fresh ⟨0, [8]⟩) }
  contentsTyped := by
    intro _ views takes _ k t first content type view
    obtain ⟨inside, rfl⟩ := List.getElem?_eq_some_iff.mp type
    obtain ⟨inside', view⟩ := List.getElem?_eq_some_iff.mp view
    have takes := takes.get inside inside'
    simp only [List.get_eq_getElem, view] at takes
    match k, inside with
    | 0, _ => exact ⟨takes.1, rfl⟩
    | 1, _ =>
        obtain ⟨-, type, known, -⟩ := takes
        obtain rfl := List.mem_singleton.mp (List.mem_of_getElem? known)
        exact ⟨rfl, .raw 1, known, rfl⟩
    | 2, _ =>
        have valid : Persistence.chars.Valid [7] := ⟨by decide, by decide⟩
        exact ⟨takes.1, valid⟩
  resultTyped := by
    rintro _ _ _ _ _ ⟨⟩
    exact ⟨rfl, .raw 1, rfl, rfl⟩

def updateCall : Call [.raw 1] Unit where
  method := updateMethod
  args := [.primitiveRef (.raw 1) 0, .objectPtr (fun _ => true) (some 1), .charPtr (some 2)]
  memory _ := ⟨0, [1]⟩
  typed := rfl
  valid := .cons ⟨rfl, rfl⟩ (.cons ⟨rfl, .raw 1, rfl, rfl⟩ (.cons ⟨rfl, by decide, by decide⟩ .nil))
  maxClass := by decide

def updateService : ServiceDefinition (Server Unit) :=
  { serviceName := [85], methodReg := [updateMethod.dispatch [.raw 1]] }

theorem updateCall_plain : Plain updateCall () := by
  refine (plain_iff_of_distinct (by decide)).mpr ⟨⟨_, rfl, trivial⟩, ?_, by decide⟩
  intro k a at_k
  exact Nat.le_refl 1

theorem update_transparent :
    Transparent updateService 0 { service := () } updateCall :=
  (transparent_iff rfl (by decide)).mpr updateCall_plain

/-- A method that returns an `int` and throws an exception. -/
def throwingMethod : ServiceMethod [] Unit where
  params := []
  upToEight := by decide
  ret := some (.value (.raw 4))
  memFunc _ _ := { service := (), contents := fun _ => [], result := none }
  contentsTyped := by
    intro _ _ _ _ k t _ _ type
    cases type
  resultTyped := nofun

/-- The reply to a call that ended with an exception lacks the result that the client loads. -/
theorem exception_swallowed :
    ¬ ∀ (serviceDef : ServiceDefinition (Server Unit)) (methodId : Int32) (server : Server Unit)
      (call : Call [] Unit),
      serviceDef.getMethodById methodId = some (call.method.dispatch []) →
      Engine.headerSize + (Proxy.request serviceDef.serviceName methodId
        (saveArgs [] call.memory call.args [])).length ≤ Engine.maxPacketSize →
      Transparent serviceDef methodId server call := by
  intro all
  let call : Call [] Unit :=
    { method := throwingMethod, args := [], memory := fun _ => {}, typed := rfl, valid := .nil,
      maxClass := by decide }
  let serviceDef : ServiceDefinition (Server Unit) :=
    { serviceName := [84], methodReg := [throwingMethod.dispatch []] }
  have transparent := all serviceDef 0 { service := () } call rfl (by decide)
  have plain : Plain call () := plain_of_transparent rfl (by decide) transparent
  obtain ⟨result, returned, -⟩ := plain.returns
  cases returned

end Cgsf.Proof.RPC
