import Cgsf.Proof.Engine.ConnectorFlags
import Cgsf.Proof.Engine.ConnectorNetwork

/-!
# Which connectors are connected

As long as the answers of `AddConnector` are in time and the logic can tell whose DISCONNECT it
processes, flags and connections agree whenever nothing is under way.
-/

namespace Cgsf.Proof.Engine.SFServerConnectionManager
open Cgsf.Engine Cgsf.Engine.SFServerConnectionManager Cgsf.CGSFNet Cgsf.Proof.CGSFNet Library

variable {s s' : SFServerConnectionManager} {event : ConnectorEvent} {p : ServiceRef}

structure Linked (s : SFServerConnectionManager) : Prop where
  registry : Registry s.network
  told : Told s.network
  inside : s.processed ≤ s.network.queue.length
  made : ∀ p i, s.owner p = some i → p < s.network.made
  gone : ∀ p i, s.owner p = some i → (s.network.services p).deleted = true →
    (s.network.services p).point = .refused ∨ notified (s.network.services p).point = true
  tracks : Tracks s.owner (fun p => heldAt s.network s.processed p = true)
    (fun p => Young (s.network.services p).point) s.listConnectorInfo s.pass

theorem held_eq (registry : Registry s.network) (p : ServiceRef) :
    s.held p = heldAt s.network s.processed p := by
  have found := registry.bound (s.network.services p).serial p
  rw [and_iff_left rfl] at found
  rw [SFServerConnectionManager.held, heldAt, entered, Bool.eq_iff_iff]
  simp only [found, unprocessed, decide_eq_true_eq, Bool.or_eq_true, or_assoc]

theorem setConnectorState_eq {infos : List ConnectorInfo} {identifier : Int} {i : Nat}
    (connected : Bool) (first : infos.findIdx? (·.connectorId = identifier) = some i) :
    setConnectorState identifier connected infos =
      infos.modify i fun info => { info with connected } := by
  induction infos generalizing i with
  | nil => cases first
  | cons info infos ih =>
      rw [List.findIdx?_cons] at first
      by_cases same : info.connectorId = identifier
      · simp only [same, decide_true, if_true] at first
        obtain rfl := Option.some.inj first
        rw [setConnectorState, if_pos same]
        rfl
      · simp only [same, decide_false, Bool.false_eq_true, if_false] at first
        obtain ⟨j, found, rfl⟩ := Option.map_eq_some_iff.mp first
        rw [setConnectorState, if_neg same, ih found]
        rfl

theorem runNetwork_linked (linked : Linked s) {action : Action} (careful : s.Spares action)
    (run : s.runNetwork action = some s') : Linked s' := by
  obtain ⟨n', step, rfl⟩ := Option.map_eq_some_iff.mp run
  have held := step_held linked.registry linked.inside step
  have spares {p : ServiceRef} {i : Nat} (mine : s.owner p = some i)
      (fires : action = .handleTimeOut p) : s.network.Careful action := by
    subst fires
    exact careful (by rw [mine]; exact Option.some_ne_none i)
  refine ⟨step_registry linked.registry step, step_told linked.registry linked.told step,
    Nat.le_trans linked.inside (step_queue linked.registry step),
    fun p i mine => Nat.lt_of_lt_of_le (linked.made p i mine) (step_made linked.registry step),
    fun p i mine => step_gone linked.registry step (linked.made p i mine) (linked.gone p i mine)
      (spares mine),
    linked.tracks.afterNetwork (fun p i mine holds => ?_) (fun p i mine holds => ?_)
      fun p i mine young => ?_⟩
  · rcases held p with same | ⟨opened, -⟩
    · exact .inl (same ▸ holds)
    · exact .inr (.inr opened)
  · rcases held p with same | ⟨-, now⟩
    · rw [same]
      exact holds
    · exact now
  · refine ⟨step_young linked.registry step (linked.made p i mine) young, ?_⟩
    cases action with
    | postRecv q isPosted =>
        refine if_neg fun same => ?_
        subst same
        exact postRecv_grown step young
    | _ => rfl

theorem idle_none (j : Nat) : ¬Calling none j := by
  rintro ⟨startUp, stage, is⟩
  cases is

theorem Linked.moves (linked : Linked s) {pass : Option Pass} (idle : ∀ i, ¬Calling s.pass i)
    (idle' : ∀ i, ¬Calling pass i) (later : ∀ i call, pass ≠ some ⟨true, i, call⟩) :
    Linked { s with pass } :=
  { linked with tracks := linked.tracks.moves idle idle' later }

theorem wake_linked (linked : Linked s) (run : s.wake = some s') : Linked s' := by
  rw [wake] at run
  split at run
  · rename_i none
    obtain rfl := Option.some.inj run
    refine linked.moves ?_ (fun _ => Tracks.idle_of_none _) fun i call is => ?_
    · rw [none]
      exact idle_none
    · cases is
  · cases run

/-- What a visit does. -/
theorem visit_cases (run : s.visit = some s') : ∃ startUp index, s.pass = some ⟨startUp, index, none⟩ ∧
    (s.listConnectorInfo[index]? = none ∧ s' = { s with pass := none } ∨
      ∃ info, s.listConnectorInfo[index]? = some info ∧
        ((startUp = true ∨ info.connected = false) ∧
            s' = { s with pass := some ⟨startUp, index, some .connecting⟩ } ∨
          (startUp = false ∧ info.connected = true) ∧
            s' = { s with pass := some ⟨startUp, index + 1, none⟩ })) := by
  rw [visit] at run
  split at run
  · rename_i startUp index pass
    refine ⟨startUp, index, pass, ?_⟩
    split at run
    · rename_i none
      exact .inl ⟨none, (Option.some.inj run).symm⟩
    · rename_i info found
      refine .inr ⟨info, found, ?_⟩
      split at run
      · rename_i due
        exact .inl ⟨due, (Option.some.inj run).symm⟩
      · rename_i undue
        rw [not_or, Bool.not_eq_true, Bool.not_eq_false] at undue
        exact .inr ⟨undue, (Option.some.inj run).symm⟩
  · cases run

theorem visit_linked (linked : Linked s) (run : s.visit = some s') : Linked s' := by
  obtain ⟨startUp, index, pass, outcome⟩ := visit_cases run
  have tracks := linked.tracks
  rw [pass] at tracks
  have idle : ∀ i, ¬Calling s.pass i := by
    rw [pass]
    exact Tracks.idle_of_none
  rcases outcome with ⟨-, rfl⟩ | ⟨info, found, ⟨due, rfl⟩ | ⟨⟨rfl, -⟩, rfl⟩⟩
  · refine linked.moves idle idle_none fun i call is => ?_
    cases is
  · exact { linked with tracks := tracks.begins found due }
  · refine linked.moves idle Tracks.idle_of_none fun i call is => ?_
    cases is

theorem makeHandler_held (registry : Registry s.network) (q : ServiceRef) :
    heldAt s.network.makeHandler s.processed q = heldAt s.network s.processed q := by
  rw [heldAt, heldAt, makeHandler_services]
  split
  · rename_i new
    rw [new, registry.absent _ (Nat.le_refl _)]
    rfl
  · rfl

theorem connect_linked (linked : Linked s) {made : Bool} (run : s.connect made = some s') :
    Linked s' := by
  rw [connect] at run
  split at run
  · rename_i startUp index pass
    have tracks := linked.tracks
    rw [pass] at tracks
    split at run
    · obtain rfl := Option.some.inj run
      have free : s.owner s.network.made = none := by
        rw [Option.eq_none_iff_forall_ne_some]
        intro i mine
        exact Nat.lt_irrefl _ (linked.made _ i mine)
      have owned {p : ServiceRef} {i : Nat} (other : p ≠ s.network.made)
          (mine : Function.update s.owner s.network.made (some index) p = some i) :
          s.owner p = some i := by
        rwa [Function.update_of_ne other] at mine
      have made : s.network.Steps .accept s.network.makeHandler := rfl
      refine ⟨step_registry linked.registry made, step_told linked.registry linked.told made,
        linked.inside, fun p i mine => ?_, fun p i mine deleted => ?_,
        tracks.makes free ?_ (fun p _ => ?_) fun p other young => ?_⟩
      · by_cases new : p = s.network.made
        · rw [new]
          exact Nat.lt_succ_self s.network.made
        · exact Nat.lt_succ_of_lt (linked.made p i (owned new mine))
      · by_cases new : p = s.network.made
        · rw [makeHandler_services, if_pos new] at deleted
          cases deleted
        · rw [makeHandler_services, if_neg new] at deleted ⊢
          exact linked.gone p i (owned new mine) deleted
      · have none := linked.told s.network.made
        rw [owed_none (by rw [linked.registry.absent _ (Nat.le_refl _)]; rfl)] at none
        rw [makeHandler_held linked.registry, heldAt, linked.registry.absent _ (Nat.le_refl _)]
        have silent := announces_of_notices none
        rw [← List.take_append_drop s.processed s.network.queue, announces_append,
          Bool.or_eq_false_iff] at silent
        rw [silent.2]
        exact Bool.false_ne_true
      · rw [makeHandler_held linked.registry]
      · rwa [makeHandler_services, if_neg other] at young
    · obtain rfl := Option.some.inj run
      have ends := tracks.ends (c := False) (fun p is => by cases is)
        ⟨False.elim, by rintro ⟨p, is, -⟩; cases is⟩
      rw [if_neg not_false] at ends
      exact { linked with tracks := ends }
  · cases run

theorem getSerial_linked (linked : Linked s) {garbage : Int} (run : s.getSerial garbage = some s') :
    Linked s' := by
  rw [getSerial] at run
  split at run
  · rename_i startUp index stage pass
    obtain ⟨p, opened, rfl⟩ := Option.map_eq_some_iff.mp run
    have tracks := linked.tracks
    rw [pass] at tracks
    refine { linked with tracks := tracks.goes_on ?_ fun q is => ?_ }
    · cases stage with
      | connecting | returned => cases opened
      | posted => exact opened.symm
      | opening | failed =>
          rw [SFServerConnectionManager.opened] at opened
          split at opened
          · exact opened.symm
          · cases opened
    · subst is
      rw [SFServerConnectionManager.opened] at opened
      split at opened
      · rename_i refused
        rw [refused]
        rintro (is | is) <;> cases is
      · cases opened
  · cases run

theorem setConnected_linked (linked : Linked s) (inTime : s.InTime .setConnected)
    (run : s.setConnected = some s') : Linked s' := by
  rw [setConnected] at run
  split at run
  · rename_i startUp index p serial pass
    obtain rfl := Option.some.inj run
    have tracks := linked.tracks
    rw [pass] at tracks
    have agrees : 0 ≤ serial ↔ s.held p = true := by
      refine inTime (p, serial) ?_
      rw [answer, pass]
      rfl
    rw [held_eq linked.registry] at agrees
    refine { linked with tracks := tracks.ends (fun q is => by cases is) ?_ }
    rw [agrees]
    constructor
    · intro holds
      exact ⟨p, rfl, holds⟩
    · rintro ⟨q, is, holds⟩
      cases is
      exact holds
  · cases run

theorem unprocessed_cons {command : Command} (found : s.network.queue[s.processed]? = some command) :
    s.network.queue.drop s.processed = command :: s.network.queue.drop (s.processed + 1) := by
  obtain ⟨bound, is⟩ := List.getElem?_eq_some_iff.mp found
  rw [List.drop_eq_getElem_cons bound, is]

theorem heldAt_other {command : Command} (found : s.network.queue[s.processed]? = some command)
    (q : ServiceRef) (other : command.connects = true ∨ q ≠ command.service) :
    heldAt s.network (s.processed + 1) q = heldAt s.network s.processed q := by
  have silent : decide (command.service = q ∧ command.connects = false) = false := by
    rw [decide_eq_false_iff_not]
    rintro ⟨same, disconnects⟩
    rcases other with connects | other
    · rw [connects] at disconnects
      cases disconnects
    · exact other same.symm
  simp only [heldAt, unprocessed_cons found, announces, List.any_cons, silent, Bool.false_or]

/-- With its DISCONNECT processed a connection is not held any more. -/
theorem heldAt_self (linked : Linked s) {command : Command}
    (found : s.network.queue[s.processed]? = some command) (disconnects : command.connects = false) :
    heldAt s.network s.processed command.service = true ∧
      heldAt s.network (s.processed + 1) command.service = false := by
  generalize self : command.service = q
  have mine : notices [command] q = [command] := by simp [notices, self, disconnects]
  have split : notices s.network.queue q = notices (s.network.queue.take s.processed) q ++
      ([command] ++ notices (s.network.queue.drop (s.processed + 1)) q) := by
    rw [← mine, ← notices_append, ← notices_append, List.singleton_append, ← unprocessed_cons found,
      List.take_append_drop]
  have once := linked.told q
  rw [split] at once
  have told : notified (s.network.services q).point = true := by
    by_contra never
    rw [owed_none (Bool.not_eq_true _ ▸ never)] at once
    simp at once
  have rest : notices (s.network.queue.drop (s.processed + 1)) q = [] := by
    rw [owed, if_pos told] at once
    have length := congrArg List.length once
    simp only [List.length_append, List.length_singleton] at length
    exact List.length_eq_zero_iff.mp (by omega)
  have left : entered (s.network.services q).point = false := by
    rw [entered, (notified_not_holding told).1, Bool.false_or, decide_eq_false_iff_not]
    intro is
    rw [is] at told
    cases told
  refine ⟨?_, ?_⟩
  · rw [heldAt, unprocessed_cons found, announces, List.any_cons]
    simp [self, disconnects]
  · rw [heldAt, left, announces_of_notices rest]
    rfl

/-- The flag that goes is the one of the connector whose connection ended. -/
theorem processConnectorPacket_eq {command : Command} {i : Nat}
    (mine : s.owner command.service = some i) (disconnects : command.connects = false)
    (heard : s.heard command.service = true) :
    s.processConnectorPacket command =
      s.listConnectorInfo.modify i fun info => { info with connected := false } := by
  have identifier : s.identifier command.service =
      s.listConnectorInfo[i]?.map (·.connectorId) := by
    rw [SFServerConnectionManager.identifier, mine]
    rfl
  rw [processConnectorPacket]
  rw [SFServerConnectionManager.heard] at heard
  cases listed : s.listConnectorInfo[i]? with
  | none =>
      rw [identifier, listed]
      exact (List.modify_eq_self (List.getElem?_eq_none_iff.mp listed)).symm
  | some info =>
      rw [identifier, listed] at heard ⊢
      simp only [Option.map_some, Option.all_some, decide_eq_true_eq] at heard ⊢
      obtain ⟨registered, first⟩ := heard
      rw [if_pos registered, disconnects, if_neg Bool.false_ne_true]
      exact setConnectorState_eq false (first.trans mine)

theorem processPacket_linked (linked : Linked s) (inTime : s.InTime .processPacket)
    (run : s.processPacket = some s') : Linked s' := by
  obtain ⟨command, found, rfl⟩ := Option.map_eq_some_iff.mp run
  have further : s.processed + 1 ≤ s.network.queue.length :=
    (List.getElem?_eq_some_iff.mp found).1
  refine { linked with inside := further, tracks := ?_ }
  have tracks := linked.tracks
  cases connects : command.connects with
  | true =>
      have same : s.processConnectorPacket command = s.listConnectorInfo := by
        rw [processConnectorPacket, connects]
        split
        · rfl
        · split <;> rfl
      rw [same]
      refine tracks.congr fun q i _ => ?_
      rw [heldAt_other found q (.inl connects)]
  | false =>
      obtain ⟨before, after⟩ := heldAt_self linked found connects
      cases mine : s.owner command.service with
      | none =>
          have same : s.processConnectorPacket command = s.listConnectorInfo := by
            rw [processConnectorPacket, SFServerConnectionManager.identifier, mine]
            rfl
          rw [same]
          refine tracks.congr fun q i other => ?_
          rw [heldAt_other found q (.inr fun same => ?_)]
          rw [same, mine] at other
          cases other
      | some i =>
          rw [processConnectorPacket_eq mine connects (inTime command found connects)]
          refine tracks.releases mine before fun q => ?_
          by_cases same : q = command.service
          · subst same
            rw [after]
            exact ⟨fun never => absurd never Bool.false_ne_true, fun both => absurd rfl both.2⟩
          · rw [heldAt_other found q (.inr same)]
            exact ⟨fun holds => ⟨holds, same⟩, And.left⟩

theorem step_linked (linked : Linked s) (inTime : s.InTime event) (step : s.Steps event s') :
    Linked s' := by
  cases event with
  | network action => exact runNetwork_linked linked inTime step
  | addConnectorCallback identifier =>
      obtain rfl := Option.some.inj step
      exact { linked with }
  | wake => exact wake_linked linked step
  | visit => exact visit_linked linked step
  | connect made => exact connect_linked linked step
  | getSerial garbage => exact getSerial_linked linked step
  | setConnected => exact setConnected_linked linked inTime step
  | processPacket => exact processPacket_linked linked inTime step

theorem init_linked (maxIDCount : Nat) (maxUserAccept : Int) (connectorIds : List Int) :
    Linked (.init maxIDCount maxUserAccept connectorIds) where
  registry := init_registry maxIDCount maxUserAccept
  told := init_told maxIDCount maxUserAccept
  inside := Nat.le_refl _
  made := fun _ _ mine => by cases mine
  gone := fun _ _ mine => by cases mine
  tracks := by
    refine ⟨fun _ _ mine => ?_, fun _ _ _ mine => ?_, fun i info found _ => ?_,
      fun i _ _ calling => absurd calling (Tracks.idle_of_none i),
      fun _ i _ _ is => absurd ⟨_, _, is⟩ (Tracks.idle_of_none i),
      fun _ i _ _ is => absurd ⟨_, _, is⟩ (Tracks.idle_of_none i), fun _ _ _ _ _ mine => ?_⟩
    · cases mine
    · cases mine
    · obtain ⟨id, -, rfl⟩ := List.mem_map.mp (List.mem_of_getElem? found)
      refine iff_of_false Bool.false_ne_true ?_
      rintro ⟨p, mine, -⟩
      cases mine
    · cases mine

theorem Linked.held_of_live (linked : Linked s) {i : Nat} (live : s.Live i p) :
    s.owner p = some i ∧ heldAt s.network s.processed p = true := by
  obtain ⟨mine, id, found, -⟩ := live
  have holds := ((linked.registry.bound id p).mp found).1
  refine ⟨mine, ?_⟩
  rw [heldAt, entered, holds]
  rfl

/-- With nothing under way a connection that is held is live. -/
theorem Linked.live_iff (linked : Linked s) (quiet : s.Quiet) (i : Nat) :
    s.Live i p ↔ s.owner p = some i ∧ heldAt s.network s.processed p = true := by
  refine ⟨linked.held_of_live, fun ⟨mine, holds⟩ => ⟨mine, ?_⟩⟩
  obtain ⟨settled, silent⟩ := quiet.empty p (by rw [mine]; exact Option.some_ne_none i)
  rw [heldAt, show announces (s.network.queue.drop s.processed) p = false from silent,
    Bool.or_false, entered, Bool.or_eq_true, decide_eq_true_eq, or_iff_left settled] at holds
  refine ⟨(s.network.services p).serial, (linked.registry.bound _ p).mpr ⟨holds, rfl⟩, ?_⟩
  rw [Bool.eq_false_iff]
  intro deleted
  rcases linked.gone p i mine deleted with refused | told
  · rw [refused] at holds
    cases holds
  · rw [(notified_not_holding told).1] at holds
    cases holds

theorem Linked.sound (linked : Linked s) : s.Sound where
  agrees := fun quiet i info found => by
    rw [linked.tracks.flag i info found fun ⟨startUp, stage, is⟩ => by cases quiet.idle _ is]
    exact exists_congr fun p => (linked.live_iff quiet i).symm
  single := fun i p q liveP liveQ => by
    have heldP := linked.held_of_live liveP
    have heldQ := linked.held_of_live liveQ
    exact linked.tracks.single i p q heldP.1 heldQ.1 heldP.2 heldQ.2
  once := fun i calls p live => by
    obtain ⟨s', startUp, visited, is⟩ := calls
    have held := linked.held_of_live live
    have after := visit_linked linked visited
    obtain ⟨start, index, pass, outcome⟩ := visit_cases visited
    have tracks := linked.tracks
    rw [pass] at tracks
    rcases outcome with ⟨-, rfl⟩ | ⟨info, found, ⟨due, rfl⟩ | ⟨-, rfl⟩⟩
    · cases is
    · cases is
      exact tracks.unheld found due held.1 held.2
    · cases is
  retried := fun quiet pass here inside lost => by
    obtain ⟨startUp, i, call⟩ := pass
    obtain rfl : call = none := quiet.idle _ here
    have found : s.listConnectorInfo[i]? = some s.listConnectorInfo[i] :=
      List.getElem?_eq_getElem inside
    have off : (s.listConnectorInfo[i]).connected = false := by
      rw [Bool.eq_false_iff]
      intro on
      obtain ⟨p, holds⟩ := (linked.tracks.flag i _ found fun ⟨start, stage, is⟩ => by
        cases here.symm.trans is).mp on
      exact lost p ((linked.live_iff quiet i).mpr holds)
    refine ⟨{ s with pass := some ⟨startUp, i, some .connecting⟩ }, startUp, ?_, rfl⟩
    rw [Steps, step, visit, here]
    simp only [found, off, or_true, if_true]

theorem run_connected {maxIDCount : Nat} {maxUserAccept : Int} {connectorIds : List Int}
    {events : List ConnectorEvent}
    (run : Run (Guarded InTime Steps) (.init maxIDCount maxUserAccept connectorIds) events s) :
    s.Sound := by
  have linked : Linked s := run.invariant (I := Linked)
    (init_linked maxIDCount maxUserAccept connectorIds)
    fun s event s' linked action => step_linked linked action.1 action.2
  exact linked.sound

/-- A link that is lost is opened again. -/
def newLink : List ConnectorEvent :=
  [.addConnectorCallback 30, .visit, .connect true, .network (.open 0 true), .network (.enter 0),
    .network (.onConnect 0), .network (.postRecv 0 true), .getSerial 0, .setConnected, .visit,
    .network (.handleReadStream 0 .empty), .network (.unRegister 0), .network (.onDisconnect 0),
    .processPacket, .processPacket, .wake, .visit, .connect false, .visit, .wake, .visit,
    .connect true, .network (.open 1 true), .network (.enter 1), .network (.onConnect 1),
    .network (.postRecv 1 true), .getSerial 0, .setConnected, .visit]

theorem newLink_connected : ∃ s : SFServerConnectionManager,
    s.listConnectorInfo = [⟨30, true⟩] ∧ s.network.manager.get 2 = some 1 ∧ s.Sound := by
  have plays : (newLink.foldlM (fun (s : SFServerConnectionManager) event =>
      if s.InTime event then s.step event else none) (.init maxCgsfConcurrentUser 5000 [30])).map
        (fun s => (s.listConnectorInfo, s.network.manager.get 2)) = some ([⟨30, true⟩], some 1) := by
    decide
  obtain ⟨s, result, is⟩ := Option.map_eq_some_iff.mp plays
  simp only [Prod.mk.injEq] at is
  exact ⟨s, is.1, is.2, run_connected
    (Run.guarded_of_foldlM InTime SFServerConnectionManager.step newLink result)⟩

/-- The peer hangs up, and its DISCONNECT is processed before the connector is marked. -/
def lostLink : List ConnectorEvent :=
  [.addConnectorCallback 30, .visit, .connect true, .network (.open 0 true), .network (.enter 0),
    .network (.onConnect 0), .network (.postRecv 0 true), .network (.handleReadStream 0 .empty),
    .network (.unRegister 0), .network (.onDisconnect 0), .processPacket, .processPacket,
    .getSerial 0, .setConnected, .visit, .network (.deleteSessionService 0),
    .network (.setCloseFlag 0), .network (.handleTimeOut 0)]

theorem lostLink_forgotten : ∃ s : SFServerConnectionManager,
    Run Steps (.init maxCgsfConcurrentUser 5000 [30]) lostLink s ∧ s.Quiet ∧
    s.listConnectorInfo = [⟨30, true⟩] ∧ (∀ p, ¬s.Live 0 p) ∧ ¬s.Sound := by
  have plays : (lostLink.foldlM SFServerConnectionManager.step
      (.init maxCgsfConcurrentUser 5000 [30])).map (fun s => (s.listConnectorInfo, s.pass,
        s.unprocessed, (s.network.services 0).point, (s.network.services 0).deleted)) =
      some ([⟨30, true⟩], none, [], .closed, true) := by
    decide
  have owners : (lostLink.foldlM SFServerConnectionManager.step
      (.init maxCgsfConcurrentUser 5000 [30])).map (·.owner) =
      some (Function.update (fun _ => none) 0 (some 0)) := rfl
  obtain ⟨s, result, is⟩ := Option.map_eq_some_iff.mp plays
  simp only [Prod.mk.injEq] at is
  obtain ⟨marked, pass, unprocessed, point, deleted⟩ := is
  rw [result] at owners
  have owner : s.owner = Function.update (fun _ => none) 0 (some 0) := Option.some.inj owners
  have first {p : ServiceRef} (mine : s.owner p ≠ none) : p = 0 := by
    by_contra other
    rw [owner, Function.update_of_ne other] at mine
    exact mine rfl
  have quiet : s.Quiet := by
    refine ⟨fun pass' there => ?_, fun p mine => ?_⟩
    · rw [pass] at there
      cases there
    · obtain rfl := first mine
      rw [point, unprocessed]
      exact ⟨nofun, rfl⟩
  have dead (p : ServiceRef) : ¬s.Live 0 p := by
    rintro ⟨mine, id, -, present⟩
    obtain rfl := first (p := p) (by rw [mine]; exact Option.some_ne_none 0)
    rw [deleted] at present
    cases present
  refine ⟨s, .of_foldlM _ _ result, quiet, marked, dead, fun sound => ?_⟩
  obtain ⟨p, live⟩ := (sound.agrees quiet 0 ⟨30, true⟩ (by rw [marked]; rfl)).mp rfl
  exact dead p live

end Cgsf.Proof.Engine.SFServerConnectionManager
