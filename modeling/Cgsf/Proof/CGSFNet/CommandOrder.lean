import Cgsf.CGSFNet.ProactorService
import Cgsf.Proof.CGSFNet.Registration
import Cgsf.Proof.Casual.Connections

/-!
# The order of connects and disconnects

At most one connection of a serial has sent its connect and not its disconnect, and the serial's last
command is a connect exactly if there is one.
-/

namespace Cgsf.Proof.CGSFNet
open Cgsf.CGSFNet Cgsf.CGSFNet.Network Library Std

variable {n n' : Network} {action : Action} {p : ServiceRef}

/-- The connect has been sent and the disconnect has not. -/
def unanswered (point : Point) : Bool :=
  point ∈ [Point.connected, .received, .reading, .closing, .unregistered]

structure Ordered (n : Network) : Prop extends Registry n where
  alternates : ∀ serial, Alternates (turns n.commands serial)
  last : ∀ serial, (turns n.commands serial).getLast? = some true ↔
    ∃ p, unanswered (n.services p).point = true ∧ (n.services p).serial = serial
  alone : ∀ p q, unanswered (n.services p).point = true → unanswered (n.services q).point = true →
    (n.services p).serial = (n.services q).serial → p = q

theorem Ordered.of_same (ordered : Ordered n) (registry : Registry n') (queue : n'.queue = n.queue)
    (services : ∀ q, unanswered (n'.services q).point = unanswered (n.services q).point ∧
      (unanswered (n.services q).point = true →
        (n'.services q).serial = (n.services q).serial)) : Ordered n' := by
  have same : n'.commands = n.commands := by rw [Network.commands, Network.commands, queue]
  refine ⟨registry, by rw [same]; exact ordered.alternates, fun serial => ?_, fun q r => ?_⟩
  · rw [same, ordered.last]
    refine exists_congr fun q => ?_
    rw [(services q).1]
    refine and_congr_right fun waits => ?_
    rw [(services q).2 waits]
  · rw [(services q).1, (services r).1]
    intro left right
    rw [(services q).2 left, (services r).2 right]
    exact ordered.alone q r left right

/-- Apart from the commands themselves nothing changes which connections are unanswered. -/
theorem Local.unanswered {service service' : ProactorService} {commands : List Command}
    (moved : Local p service action commands service') :
    commands = [] ∧ unanswered service'.point = unanswered service.point ∧
        (unanswered service.point = true → service'.serial = service.serial) ∨
      (action = .onConnect p ∧ service.point = .served ∧
        commands = [⟨service.serial, true, p⟩] ∧
        service' = { service with point := .connected }) ∨
      (service.point = .unregistered ∧ commands = [⟨service.serial, false, p⟩] ∧
        service' = { service with point := .disconnected, handle := false }) := by
  cases moved with
  | connected here => exact .inr (.inl ⟨rfl, here, rfl, rfl⟩)
  | disconnected here => exact .inr (.inr ⟨here, rfl, rfl⟩)
  | refused serial handle early =>
      refine .inl ⟨rfl, ?_⟩
      rcases early with here | here <;> rw [here] <;> exact ⟨rfl, nofun⟩
  | reads point here there =>
      refine .inl ⟨rfl, ?_, fun _ => rfl⟩
      rcases here with here | here | here <;> rcases there with rfl | rfl | rfl <;> rw [here] <;> rfl
  | opened here | timed here | served here | released here | closed here =>
      refine .inl ⟨rfl, ?_, fun _ => rfl⟩
      rw [here]
      rfl
  | deleted | disconnects => exact .inl ⟨rfl, rfl, fun _ => rfl⟩

/-- One service changes, and is unanswered or not as it was. -/
theorem Ordered.of_update (ordered : Ordered n) {service : ProactorService}
    (registry : Registry n') (queue : n'.queue = n.queue)
    (services : n'.services = Function.update n.services p service)
    (same : unanswered service.point = unanswered (n.services p).point)
    (serial : unanswered (n.services p).point = true → service.serial = (n.services p).serial) :
    Ordered n' := by
  refine ordered.of_same registry queue fun q => ?_
  rw [services]
  by_cases me : q = p
  · subst me
    rw [Function.update_self]
    exact ⟨same, serial⟩
  · rw [Function.update_of_ne me]
    exact ⟨rfl, fun _ => rfl⟩

theorem commands_snoc (command : Command) (services : ServiceRef → ProactorService)
    (currentSessionCnt : Int) :
    Network.commands { n with services, queue := n.queue ++ [command], currentSessionCnt } =
      n.commands ++ [(command.serial, command.connects)] := by
  rw [Network.commands, List.map_append]
  rfl

theorem Ordered.free (ordered : Ordered n) (here : (n.services p).point = .served)
    (inOrder : n.InOrder (.onConnect p)) :
    (turns n.commands (n.services p).serial).getLast? ≠ some true := by
  rw [Ne, ordered.last]
  rintro ⟨q, waits, same⟩
  have still := inOrder q same
  have holds : holding (n.services q).point = true := by
    cases point : (n.services q).point <;> rw [point] at waits still <;>
      first | rfl | contradiction
  have mine := (ordered.bound (n.services p).serial p).mpr ⟨by rw [here]; rfl, rfl⟩
  have other := (ordered.bound (n.services p).serial q).mpr ⟨holds, same⟩
  obtain rfl := Option.some.inj (mine.symm.trans other)
  rw [here] at waits
  contradiction

theorem Ordered.connect (ordered : Ordered n) (here : (n.services p).point = .served)
    (free : (turns n.commands (n.services p).serial).getLast? ≠ some true)
    {currentSessionCnt : Int}
    (registry : Registry { n with
      services := Function.update n.services p { n.services p with point := .connected }
      queue := n.queue ++ [⟨(n.services p).serial, true, p⟩], currentSessionCnt }) :
    Ordered { n with
      services := Function.update n.services p { n.services p with point := .connected }
      queue := n.queue ++ [⟨(n.services p).serial, true, p⟩], currentSessionCnt } := by
  have nobody (q : ServiceRef) (waits : unanswered (n.services q).point = true) :
      (n.services q).serial ≠ (n.services p).serial :=
    fun same => free ((ordered.last _).mpr ⟨q, waits, same⟩)
  have silent : unanswered (n.services p).point = false := by rw [here]; rfl
  refine ⟨registry, fun serial => ?_, fun serial => ?_, fun q r => ?_⟩
  · rw [commands_snoc]
    by_cases same : (n.services p).serial = serial
    · subst same
      rw [turns_snoc_self, Alternates.snoc_iff]
      exact ⟨ordered.alternates _, fun _ => free, fun _ => rfl⟩
    · rw [turns_snoc_other _ _ same]
      exact ordered.alternates serial
  · rw [commands_snoc]
    by_cases same : (n.services p).serial = serial
    · subst same
      rw [turns_snoc_self, List.getLast?_concat]
      refine ⟨fun _ => ⟨p, ?_, ?_⟩, fun _ => rfl⟩
      all_goals
        dsimp only
        rw [Function.update_self]
      rfl
    · rw [turns_snoc_other _ _ same, ordered.last]
      refine exists_congr fun q => ?_
      dsimp only
      by_cases me : q = p
      · subst me
        rw [Function.update_self, silent]
        exact ⟨nofun, fun both => absurd both.2 same⟩
      · rw [Function.update_of_ne me]
  · dsimp only
    by_cases left : q = p <;> by_cases right : r = p
    · exact fun _ _ _ => left.trans right.symm
    · rw [left, Function.update_self, Function.update_of_ne right]
      exact fun _ waits same => absurd same.symm (nobody r waits)
    · rw [right, Function.update_self, Function.update_of_ne left]
      exact fun waits _ same => absurd same (nobody q waits)
    · rw [Function.update_of_ne left, Function.update_of_ne right]
      exact ordered.alone q r

theorem Ordered.disconnect (ordered : Ordered n) (here : (n.services p).point = .unregistered)
    {currentSessionCnt : Int}
    (registry : Registry { n with
      services := Function.update n.services p
        { n.services p with point := .disconnected, handle := false }
      queue := n.queue ++ [⟨(n.services p).serial, false, p⟩], currentSessionCnt }) :
    Ordered { n with
      services := Function.update n.services p
        { n.services p with point := .disconnected, handle := false }
      queue := n.queue ++ [⟨(n.services p).serial, false, p⟩], currentSessionCnt } := by
  have waits : unanswered (n.services p).point = true := by rw [here]; rfl
  have taken := (ordered.last (n.services p).serial).mpr ⟨p, waits, rfl⟩
  have unlike (q : ServiceRef) (other : q ≠ p) (waits' : unanswered (n.services q).point = true) :
      (n.services q).serial ≠ (n.services p).serial :=
    fun same => other (ordered.alone q p waits' waits same)
  refine ⟨registry, fun serial => ?_, fun serial => ?_, fun q r => ?_⟩
  · rw [commands_snoc]
    by_cases same : (n.services p).serial = serial
    · subst same
      rw [turns_snoc_self, Alternates.snoc_iff]
      exact ⟨ordered.alternates _, nofun, fun free => absurd taken free⟩
    · rw [turns_snoc_other _ _ same]
      exact ordered.alternates serial
  · rw [commands_snoc]
    by_cases same : (n.services p).serial = serial
    · subst same
      rw [turns_snoc_self, List.getLast?_concat]
      refine ⟨nofun, ?_⟩
      rintro ⟨q, waits', same⟩
      dsimp only at waits' same
      by_cases me : q = p
      · subst me
        rw [Function.update_self] at waits'
        contradiction
      · rw [Function.update_of_ne me] at waits' same
        exact absurd same (unlike q me waits')
    · rw [turns_snoc_other _ _ same, ordered.last]
      refine exists_congr fun q => ?_
      dsimp only
      by_cases me : q = p
      · subst me
        rw [Function.update_self]
        exact ⟨fun both => absurd both.2 same, nofun⟩
      · rw [Function.update_of_ne me]
  · dsimp only
    by_cases left : q = p <;> by_cases right : r = p
    · exact fun _ _ _ => left.trans right.symm
    · rw [left, Function.update_self]
      exact nofun
    · rw [right, Function.update_self]
      exact nofun
    · rw [Function.update_of_ne left, Function.update_of_ne right]
      exact ordered.alone q r

theorem step_ordered (ordered : Ordered n) (inOrder : n.InOrder action)
    (step : n.Steps action n') : Ordered n' := by
  have registry := step_registry ordered.toRegistry step
  cases step_effect ordered.valid step with
  | stays => exact ordered
  | made =>
      have fresh := ordered.absent n.made (Nat.le_refl _)
      refine ordered.of_same registry rfl fun q => ?_
      rw [makeHandler_services]
      split
      · rename_i new
        rw [new, fresh]
        exact ⟨rfl, nofun⟩
      · exact ⟨rfl, fun _ => rfl⟩
  | moves p here =>
      rcases here.unanswered with ⟨rfl, same, serial⟩ | ⟨rfl, served, rfl, rfl⟩ |
        ⟨left, rfl, rfl⟩
      · exact ordered.of_update registry (List.append_nil _) rfl same serial
      · exact ordered.connect served (ordered.free served inOrder) registry
      · exact ordered.disconnect left registry
  | registers p here | enters p here =>
      refine ordered.of_update registry rfl rfl ?_ ?_
      · rw [here]
        rfl
      · rw [here]
        nofun
  | leaves p here =>
      refine ordered.of_update registry rfl rfl ?_ fun _ => rfl
      rw [here]
      rfl

theorem step_ordered_iff (ordered : Ordered n) (step : n.Steps action n') :
    (∀ serial, Alternates (turns n'.commands serial)) ↔ n.InOrder action := by
  refine ⟨fun alternates => ?_, fun inOrder => (step_ordered ordered inOrder step).alternates⟩
  cases action with
  | onConnect p =>
      obtain ⟨m, advanced, rfl⟩ := Option.map_eq_some_iff.mp step
      obtain ⟨here, rfl⟩ := advance_spec advanced
      intro q same left
      have turn := alternates (n.services p).serial
      change Alternates (turns (Network.commands { n with
        services := _, queue := n.queue ++ [_], currentSessionCnt := _ }) _) at turn
      rw [commands_snoc, turns_snoc_self, Alternates.snoc_iff] at turn
      exact turn.2.mp rfl ((ordered.last _).mpr ⟨q, by rw [left]; rfl, same⟩)
  | _ => trivial

theorem init_ordered (maxIDCount : Nat) (maxUserAccept : Int) :
    Ordered (Network.init maxIDCount maxUserAccept) := by
  refine ⟨init_registry maxIDCount maxUserAccept, fun _ => .nil, fun serial => ⟨nofun, ?_⟩, nofun⟩
  rintro ⟨p, waits, -⟩
  contradiction

theorem run_inOrder {maxIDCount : Nat} {maxUserAccept : Int} {actions : List Action}
    (run : Run (Guarded Network.InOrder Network.Steps) (Network.init maxIDCount maxUserAccept)
      actions n) : (∀ serial, Alternates (turns n.commands serial)) ∧
    (∀ p2pService gameModes history t, Run Casual.Traced.Steps
        { server := Casual.SFLogicEntry.initServer p2pService gameModes } history t →
      Casual.commands history <+: n.commands → Casual.MapsLatest history t) ∧
    ∀ action n', n.Steps action n' →
      ((∀ serial, Alternates (turns n'.commands serial)) ↔ n.InOrder action) := by
  have ordered : Ordered n := run.invariant (init_ordered maxIDCount maxUserAccept)
    fun _ _ _ ordered ⟨inOrder, step⟩ => step_ordered ordered inOrder step
  refine ⟨ordered.alternates, fun p2pService gameModes history t logic before => ?_,
    fun action n' => step_ordered_iff ordered⟩
  exact Casual.run_mapsLatest logic fun serial =>
    (ordered.alternates serial).of_initial (turns_initial before serial)

/-- Connections that have not been made have given no id back. -/
def InOrderMade (n : Network) : Action → Prop
  | .onConnect p => ∀ q < n.made, (n.services q).serial = (n.services p).serial →
      (n.services q).point ≠ .unregistered
  | _ => True

instance (n : Network) (action : Action) : Decidable (InOrderMade n action) :=
  match action with
  | .onConnect _ => inferInstanceAs (Decidable (∀ q < n.made, _ → _))
  | .accept | .open _ _ | .register _ | .enter _ | .registerTimer _ | .createSessionService _
  | .postRecv _ _ | .handleReadStream _ _ | .unRegister _ | .onDisconnect _
  | .deleteSessionService _ | .setCloseFlag _ | .handleTimeOut _ | .disconnect _ =>
      instDecidableTrue

theorem inOrder_of_made (registry : Registry n) (inOrder : InOrderMade n action) :
    n.InOrder action := by
  cases action with
  | onConnect p =>
      intro q same left
      exact inOrder q (registry.made_of_point (by rw [left]; exact nofun)) same left
  | _ => trivial

/-- The second connection gets the id of the first after its disconnect. -/
def twoVisits : List Action :=
  [.accept, .open 0 true, .enter 0, .onConnect 0, .postRecv 0 false, .unRegister 0,
    .onDisconnect 0, .accept, .open 1 true, .enter 1, .onConnect 1]

set_option maxRecDepth 20000 in
theorem twoVisits_inOrder : ∃ n : Network, n.commands = [(1, true), (1, false), (1, true)] ∧
    (∀ serial, Alternates (turns n.commands serial)) ∧
    ∃ t, Casual.MapsLatest [.connect 1, .disconnect 1] t := by
  have plays : (twoVisits.foldlM (fun n action => if InOrderMade n action then
      Network.step n action else none) (Network.init 1 5000)).map Network.commands =
        some [(1, true), (1, false), (1, true)] := by
    decide
  obtain ⟨n, result, is⟩ := Option.map_eq_some_iff.mp plays
  have run := Run.guarded_of_foldlM InOrderMade _ _ result
  have inOrder := run_inOrder <| run.mono_of_invariant (init_registry 1 5000)
    (fun _ _ _ registry step => step_registry registry step.2)
    fun _ _ _ registry step => ⟨inOrder_of_made registry step.1, step.2⟩
  refine ⟨n, is, inOrder.1, ?_⟩
  have logic : (([.connect 1, .disconnect 1] : List Casual.Event).foldlM
      Casual.Traced.processPacket { server := Casual.SFLogicEntry.initServer false [] }).isSome :=
    by decide
  obtain ⟨t, processed⟩ := Option.isSome_iff_exists.mp logic
  refine ⟨t, inOrder.2.1 false [] _ t (.of_foldlM _ _ processed) ?_⟩
  rw [is]
  exact ⟨[(1, true)], rfl⟩

/-- A connection comes. -/
def arrive (p : ServiceRef) : List Action := [.accept, .open p true, .enter p, .onConnect p]

/-- It gives its id back. -/
def depart (p : ServiceRef) : List Action := [.postRecv p false, .unRegister p]

/-- It tells the engine and is deleted. -/
def finish (p : ServiceRef) : List Action :=
  [.onDisconnect p, .deleteSessionService p, .setCloseFlag p, .handleTimeOut p]

theorem arrive_plays (registry : Registry n) {id : Int} {idleIdQueue : List Int}
    (first : n.manager.idleIdQueue = id :: idleIdQueue)
    (room : n.currentSessionCnt < n.maxUserAccept) :
    (arrive n.made).foldlM Network.step n = some { n with
      manager := { n.manager with idleIdQueue, idMap := n.manager.idMap.insertIfNew id n.made }
      services := Function.update n.services n.made
        { point := .connected, serial := id, timer := true, sessionService := true }
      made := n.made + 1
      currentSessionCnt := n.currentSessionCnt + 1
      queue := n.queue ++ [⟨id, true, n.made⟩] } := by
  have valid : id ≠ invalidId := registry.valid id (by rw [first]; exact List.mem_cons_self)
  have accepted : ¬ n.currentSessionCnt + 1 > n.maxUserAccept := by omega
  simp [arrive, Network.step, makeHandler, openStreams, enter, register, SFIDMap.register, first,
    valid, registerTimer, createSessionService, Network.advance, Network.modify, accepted,
    Network.onConnect, Network.dispatch]

theorem depart_plays (here : (n.services p).point = .connected)
    (bound : (n.services p).serial ∈ n.manager.idMap)
    (valid : n.manager.isValidId (n.services p).serial = true) :
    (depart p).foldlM Network.step n = some { n with
      manager := { n.manager with
        idleIdQueue := n.manager.idleIdQueue ++ [(n.services p).serial]
        idMap := n.manager.idMap.erase (n.services p).serial }
      services := Function.update n.services p { n.services p with point := .unregistered } } := by
  simp [depart, Network.step, postRecv, here, Network.unRegister, Network.advance, Network.modify,
    SFIDMap.unRegister, bound, valid]

theorem finish_plays (here : (n.services p).point = .unregistered)
    (timer : (n.services p).timer = true) (present : (n.services p).deleted = false) :
    (finish p).foldlM Network.step n = some { n with
      services := Function.update n.services p { n.services p with
        point := .closed, handle := false, sessionService := false, serviceCloseFlag := true
        timer := false, deleted := true }
      currentSessionCnt := n.currentSessionCnt - 1
      queue := n.queue ++ [⟨(n.services p).serial, false, p⟩] } := by
  simp [finish, Network.step, Network.onDisconnect, Network.advance, Network.modify, here,
    Network.dispatch, deleteSessionService, setCloseFlag, handleTimeOut, timer, present,
    Network.delete]

theorem plays_registry (registry : Registry n) {actions : List Action}
    (plays : actions.foldlM Network.step n = some n') : Registry n' :=
  (Run.of_foldlM Network.step actions plays).invariant registry
    fun _ _ _ registry step => step_registry registry step

theorem plays_append {m : Network} {before after : List Action}
    (first : before.foldlM Network.step n = some m)
    (second : after.foldlM Network.step m = some n') :
    (before ++ after).foldlM Network.step n = some n' := by
  rw [List.foldlM_append, first]
  exact second

/-- A connection that comes and departs has used the first idle id and put it last. -/
theorem pass_plays (registry : Registry n) {id : Int} {idleIdQueue : List Int}
    (first : n.manager.idleIdQueue = id :: idleIdQueue)
    (room : n.currentSessionCnt < n.maxUserAccept) :
    ∃ n', (arrive n.made ++ depart n.made).foldlM Network.step n = some n' ∧ Registry n' ∧
      n'.manager.idleIdQueue = idleIdQueue ++ [id] ∧
      n'.services = Function.update n.services n.made
        { point := .unregistered, serial := id, timer := true, sessionService := true } ∧
      n'.made = n.made + 1 ∧ n'.currentSessionCnt = n.currentSessionCnt + 1 ∧
      n'.maxUserAccept = n.maxUserAccept ∧ n'.queue = n.queue ++ [⟨id, true, n.made⟩] := by
  obtain ⟨m, is⟩ : ∃ m, (arrive n.made).foldlM Network.step n = some m :=
    ⟨_, arrive_plays registry first room⟩
  have arrived := plays_registry registry is
  obtain rfl := Option.some.inj ((arrive_plays registry first room).symm.trans is)
  have mine : Function.update n.services n.made
      { point := .connected, serial := id, timer := true, sessionService := true } n.made =
        { point := .connected, serial := id, timer := true, sessionService := true } :=
    Function.update_self ..
  obtain ⟨member, valid⟩ := arrived.held (p := n.made) (by dsimp only; rw [mine]; rfl)
  have plays := plays_append is (depart_plays (by dsimp only; rw [mine]) member valid)
  refine ⟨_, plays, plays_registry registry plays, ?_, ?_, rfl, rfl, rfl, rfl⟩
  · dsimp only
    rw [mine]
  · simp only [Function.update_self, Function.update_idem]

theorem visit_plays (registry : Registry n) {id : Int} {idleIdQueue : List Int}
    (first : n.manager.idleIdQueue = id :: idleIdQueue)
    (room : n.currentSessionCnt < n.maxUserAccept) :
    ∃ n', (arrive n.made ++ depart n.made ++ finish n.made).foldlM Network.step n = some n' ∧
      Registry n' ∧ n'.manager.idleIdQueue = idleIdQueue ++ [id] ∧
      (∀ q, q < n.made → n'.services q = n.services q) ∧ n.made < n'.made ∧
      n'.currentSessionCnt = n.currentSessionCnt ∧ n'.maxUserAccept = n.maxUserAccept ∧
      n'.commands = n.commands ++ [(id, true)] ++ [(id, false)] := by
  obtain ⟨m, passes, passed, idle, services, made, count, most, queue⟩ :=
    pass_plays registry first room
  have mine : m.services n.made =
      { point := .unregistered, serial := id, timer := true, sessionService := true } := by
    rw [services, Function.update_self]
  have finishes := finish_plays (n := m) (p := n.made) (by rw [mine]) (by rw [mine]) (by rw [mine])
  have plays := plays_append passes finishes
  refine ⟨_, plays, plays_registry registry plays, idle, fun q below => ?_, ?_, ?_, most, ?_⟩
  · dsimp only
    rw [Function.update_of_ne (Nat.ne_of_lt below), services,
      Function.update_of_ne (Nat.ne_of_lt below)]
  · dsimp only
    omega
  · dsimp only
    omega
  · simp only [Network.commands, queue, mine, List.map_append, List.map_cons, List.map_nil]

/-- Visitors use up ids until `ys` come next. -/
theorem visits_play (xs ys : List Int) (k : Int) (registry : Registry n)
    (idle : n.manager.idleIdQueue = xs ++ ys) (room : n.currentSessionCnt < n.maxUserAccept)
    (absent : k ∉ xs) : ∃ (actions : List Action) (n' : Network), actions.foldlM Network.step n = some n' ∧ Registry n' ∧
      n'.manager.idleIdQueue = ys ++ xs ∧
      (∀ q, q < n.made → n'.services q = n.services q) ∧ n.made ≤ n'.made ∧
      n'.currentSessionCnt < n'.maxUserAccept ∧ turns n'.commands k = turns n.commands k := by
  induction xs generalizing n ys with
  | nil =>
      exact ⟨[], n, rfl, registry, by rw [idle, List.append_nil]; rfl, fun _ _ => rfl, le_rfl, room, rfl⟩
  | cons x xs ih =>
      have idle : n.manager.idleIdQueue = x :: (xs ++ ys) := idle
      obtain ⟨m, visits, visited, idle', kept, grows, count, most, commands⟩ :=
        visit_plays registry idle room
      obtain ⟨actions, n', plays, registry', idle'', kept', grows', room', same⟩ :=
        ih (ys ++ [x]) visited (by rw [idle', List.append_assoc]) (by rw [count, most]; exact room)
          fun member => absent (List.mem_cons_of_mem x member)
      have unlike : x ≠ k := fun is => absent (is ▸ List.mem_cons_self)
      refine ⟨_, n', plays_append visits plays, registry', by rw [idle'', List.append_assoc]; rfl,
        fun q below => ?_, by omega, room', ?_⟩
      · rw [kept' q (by omega), kept q below]
      · rw [same, commands, turns_snoc_other _ _ unlike, turns_snoc_other _ _ unlike]

/-- The first connection gives its id back; before it tells the engine, so many others come and go
that a new one gets the same id. -/
theorem reusedSerial_collides : ∃ actions n, Run Network.Steps
    (Network.init maxCgsfConcurrentUser 5000) actions n ∧ turns n.commands 1 = [true, true] ∧
    ¬ ∀ serial, Alternates (turns n.commands serial) := by
  have registry := init_registry maxCgsfConcurrentUser 5000
  have idle : (Network.init maxCgsfConcurrentUser 5000).manager.idleIdQueue =
      1 :: (List.range' 2 9999).map Int.ofNat := rfl
  have absent : (1 : Int) ∉ (List.range' 2 9999).map Int.ofNat := by
    rw [List.mem_map]
    rintro ⟨k, inside, is⟩
    rw [List.mem_range'_1] at inside
    have one : k = 1 := Int.ofNat.inj is
    omega
  obtain ⟨a, passes, passed, idle', -, -, count, most, queue⟩ :=
    pass_plays registry idle (by decide)
  have room : a.currentSessionCnt < a.maxUserAccept := by
    rw [count, most]
    decide
  obtain ⟨actions, b, visits, visited, idle'', -, -, room', same⟩ :=
    visits_play _ [1] 1 passed idle' room absent
  have arrives := arrive_plays visited idle'' room'
  have plays := plays_append (plays_append passes visits) arrives
  have twice (c : Network) (sends : c.queue = b.queue ++ [⟨1, true, b.made⟩]) :
      turns c.commands 1 = [true, true] := by
    have snoc : c.commands = b.commands ++ [(1, true)] := by
      rw [Network.commands, sends, List.map_append]
      rfl
    rw [snoc, turns_snoc_self, same, Network.commands, queue]
    rfl
  refine ⟨_, _, .of_foldlM _ _ plays, twice _ rfl, fun alternates => ?_⟩
  have strict := (alternates 1).strict
  rw [twice _ rfl] at strict
  exact (List.isChain_cons_cons.mp strict).1 rfl

end Cgsf.Proof.CGSFNet
