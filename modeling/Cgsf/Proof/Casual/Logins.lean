import Cgsf.Casual.Logins
import Cgsf.Proof.Casual.Sessions
import Mathlib.Data.List.TakeWhile

/-!
# Logins and their checks

`Faithful` relates the requests on their way and the players of connections to the history. An
answer can then only let in a player whose own connection asked for it under the same name.
-/

namespace Cgsf.Proof.Casual
open Cgsf.Casual Cgsf.Casual.SFLogicEntry Library Std

variable {place : PlayerRef → Option RoomRef} {history : List Event} {t t' : Traced}

theorem owns_snoc {serial : Int} {start : Nat} {event : Event} (owns : Owns history serial start)
    (connect : event ≠ .connect serial) (disconnect : event ≠ .disconnect serial) :
    Owns (history ++ [event]) serial start := by
  obtain ⟨first, since⟩ := owns
  have below : start < history.length := (List.getElem?_eq_some_iff.mp first).1
  refine ⟨by rw [List.getElem?_append_left below, first], fun i later => ?_⟩
  rcases Nat.lt_trichotomy i history.length with inside | rfl | beyond
  · rw [List.getElem?_append_left inside]
    exact since i later
  · rw [List.getElem?_concat_length]
    exact ⟨fun same => connect (Option.some.inj same), fun same => disconnect (Option.some.inj same)⟩
  · rw [List.getElem?_eq_none (by rw [List.length_append, List.length_singleton]; omega)]
    exact ⟨nofun, nofun⟩

theorem owns_start {serial : Int} :
    Owns (history ++ [.connect serial]) serial history.length := by
  refine ⟨List.getElem?_concat_length, fun i later => ?_⟩
  rw [List.getElem?_eq_none (by rw [List.length_append, List.length_singleton]; omega)]
  exact ⟨nofun, nofun⟩

/-- A request as its login packet made it; a player that waits for the answer still has the name. -/
structure Asked (history : List Event) (t : Traced) (message : DBRequest) (source : Nat) : Prop where
  sent : ∃ random, history[source]? =
    some (.data message.serial (.login message.userName message.password) random)
  since : ∀ p, t.server.playerMap[message.serial]? = some p →
    ∀ start, t.taken p = some start → start < source
  name : ∀ p, t.server.playerMap[message.serial]? = some p →
    (t.server.players p).state = .init → (t.server.players p).username = message.userName

structure Faithful (history : List Event) (t : Traced) : Prop where
  good : Good t.server
  time : t.time = history.length
  taken : ∀ serial p, t.server.playerMap[serial]? = some p →
    ∃ start, t.taken p = some start ∧ Owns history serial start
  asked : ∃ requests : List (DBRequest × Nat), t.server.dbRequests = requests.map Prod.fst ∧
    t.sources = requests.map Prod.snd ∧
    ∀ request ∈ requests, Asked history t request.1 request.2

theorem Asked.sent_snoc {message : DBRequest} {source : Nat} (asked : Asked history t message source)
    (event : Event) : ∃ random, (history ++ [event])[source]? =
      some (.data message.serial (.login message.userName message.password) random) := by
  obtain ⟨random, sent⟩ := asked.sent
  exact ⟨random, by rw [List.getElem?_append_left (List.getElem?_eq_some_iff.mp sent).1, sent]⟩

/-- An event that takes nobody and asks nothing. -/
theorem Faithful.carry (faithful : Faithful history t) {event : Event} (good : Good t'.server)
    (time : t'.time = t.time + 1) (taken : t'.taken = t.taken)
    (players : ∀ serial p, t'.server.playerMap[serial]? = some p →
      t.server.playerMap[serial]? = some p ∧ event ≠ .connect serial ∧ event ≠ .disconnect serial ∧
        (t'.server.players p).username = (t.server.players p).username ∧
        ((t'.server.players p).state = .init → (t.server.players p).state = .init))
    (asked : ∀ requests : List (DBRequest × Nat), t.server.dbRequests = requests.map Prod.fst →
      t.sources = requests.map Prod.snd → ∃ requests' : List (DBRequest × Nat),
        t'.server.dbRequests = requests'.map Prod.fst ∧ t'.sources = requests'.map Prod.snd ∧
        ∀ request ∈ requests', request ∈ requests) : Faithful (history ++ [event]) t' where
  good := good
  time := by rw [time, faithful.time, List.length_append, List.length_singleton]
  taken := fun serial p found => by
    obtain ⟨before, connect, disconnect, -⟩ := players serial p found
    obtain ⟨start, is, owns⟩ := faithful.taken serial p before
    exact ⟨start, by rw [taken, is], owns_snoc owns connect disconnect⟩
  asked := by
    obtain ⟨requests, messages, sources, all⟩ := faithful.asked
    obtain ⟨requests', messages', sources', kept⟩ := asked requests messages sources
    refine ⟨requests', messages', sources', fun request member => ?_⟩
    have before := all request (kept request member)
    refine ⟨before.sent_snoc event, fun p found => ?_, fun p found waits => ?_⟩
    · rw [taken]
      exact before.since p (players _ p found).1
    · obtain ⟨there, -, -, name, init⟩ := players _ p found
      rw [name]
      exact before.name p there (init waits)

theorem same_requests {dbRequests : List DBRequest} {sources : List Nat}
    (messages : dbRequests = t.server.dbRequests) (same : sources = t.sources) :
    ∀ requests : List (DBRequest × Nat), t.server.dbRequests = requests.map Prod.fst →
      t.sources = requests.map Prod.snd → ∃ requests' : List (DBRequest × Nat),
        dbRequests = requests'.map Prod.fst ∧ sources = requests'.map Prod.snd ∧
        ∀ request ∈ requests', request ∈ requests :=
  fun requests first second => ⟨requests, messages.trans first, same.trans second, fun _ => id⟩

theorem erased_requests {dbRequests : List DBRequest} {sources : List Nat} {request : Nat}
    (messages : dbRequests = t.server.dbRequests.eraseIdx request)
    (same : sources = t.sources.eraseIdx request) :
    ∀ requests : List (DBRequest × Nat), t.server.dbRequests = requests.map Prod.fst →
      t.sources = requests.map Prod.snd → ∃ requests' : List (DBRequest × Nat),
        dbRequests = requests'.map Prod.fst ∧ sources = requests'.map Prod.snd ∧
        ∀ request ∈ requests', request ∈ requests := by
  intro requests first second
  refine ⟨requests.eraseIdx request, ?_, ?_, fun _ => List.mem_of_mem_eraseIdx⟩
  · rw [messages, first, List.eraseIdx_map]
  · rw [same, second, List.eraseIdx_map]

theorem keeps_init {s s' : SFLogicEntry} (keeps : Keeps s s') (p : PlayerRef)
    (waits : (s'.players p).state = .init) : (s.players p).state = .init := by
  rcases keeps.phase p with same | ⟨-, after, -⟩
  · exact same.symm.trans waits
  · exact absurd waits (loggedIn_ne after).2

theorem keeps_login {s s' : SFLogicEntry} (keeps : Keeps s s') (p : PlayerRef)
    (login : (s'.players p).state = .login) : (s.players p).state = .login := by
  rcases keeps.phase p with same | ⟨-, -, before⟩
  · exact same.symm.trans login
  · exact before login

theorem cString_eq {text : Text} (clean : 0 ∉ text) : cString text = text := by
  rw [cString, List.takeWhile_eq_self_iff]
  intro c member
  refine decide_eq_true ?_
  rintro rfl
  exact clean member

theorem connect_faithful (faithful : Faithful history t) {serial : Int}
    (orderly : Orderly t (.connect serial)) (step : t.Steps (.connect serial) t') :
    Faithful (history ++ [.connect serial]) t' := by
  obtain ⟨s', connects, rfl⟩ := Option.map_eq_some_iff.mp step
  obtain ⟨place, inv, settled⟩ := faithful.good
  obtain ⟨_, place', -, invariant⟩ := step_reaches inv settled connects
  obtain ⟨absent, unasked⟩ := orderly
  have spec := Connects.of_run inv.toPeople connects
  have other {k : Int} {p : PlayerRef} (found : t.server.playerMap[k]? = some p) :
      p ≠ t.server.allocPlayer.1 := by
    rintro rfl
    exact (inv.connected k _ found).2 spec.idle
  have lookup {k : Int} {p : PlayerRef} (found : s'.playerMap[k]? = some p) :
      k = serial ∧ p = t.server.allocPlayer.1 ∨ k ≠ serial ∧ t.server.playerMap[k]? = some p := by
    rw [spec.playerMap, TreeMap.getElem?_insertIfNew] at found
    split at found
    · rename_i here
      exact .inl ⟨(LawfulEqOrd.compare_eq_iff_eq.mp here.1).symm, (Option.some.inj found).symm⟩
    · refine .inr ⟨?_, found⟩
      rintro rfl
      rw [TreeMap.getElem?_eq_none absent] at found
      contradiction
  obtain ⟨requests, messages, sources, all⟩ := faithful.asked
  refine ⟨⟨place', invariant⟩, ?_, fun k p found => ?_, requests, spec.dbRequests.trans messages,
    sources, fun request member => ?_⟩
  · rw [List.length_append, List.length_singleton, ← faithful.time]
  · dsimp only
    rcases lookup found with ⟨rfl, rfl⟩ | ⟨elsewhere, before⟩
    · rw [Function.update_self]
      exact ⟨_, rfl, by rw [faithful.time]; exact owns_start⟩
    · rw [Function.update_of_ne (other before)]
      obtain ⟨start, is, owns⟩ := faithful.taken k p before
      refine ⟨start, is, owns_snoc owns (fun same => ?_) nofun⟩
      cases same
      contradiction
  · have before := all request member
    have unlike : request.1.serial ≠ serial := by
      refine unasked _ ?_
      rw [messages]
      exact List.mem_map_of_mem member
    refine ⟨before.sent_snoc _, fun p found => ?_, fun p found => ?_⟩
    · rcases lookup found with ⟨same, -⟩ | ⟨-, there⟩
      · exact absurd same unlike
      · dsimp only
        rw [Function.update_of_ne (other there)]
        exact before.since p there
    · rcases lookup found with ⟨same, -⟩ | ⟨-, there⟩
      · exact absurd same unlike
      · dsimp only
        rw [spec.others p (other there)]
        exact before.name p there

theorem asks_false {s : SFLogicEntry} {serial : Int} {packet : Packet} {random : Nat} {p : PlayerRef}
    (connection : s.playerMap[serial]? = some p)
    (other : (s.players p).state = .init → ∀ username password, packet ≠ .login username password) :
    Traced.asks s (.data serial packet random) = false := by
  cases packet with
  | login username password =>
      simp only [Traced.asks, connection, decide_eq_false_iff_not]
      exact fun waits => other waits username password rfl
  | _ => rfl

/-- A waiting player asks. -/
theorem login_faithful (faithful : Faithful history t) {serial : Int} {username password : Text}
    {random : Nat} {p : PlayerRef} (connection : t.server.playerMap[serial]? = some p)
    (waits : (t.server.players p).state = .init)
    (orderly : Orderly t (.data serial (.login username password) random))
    (good : Good t'.server)
    (is : t' = { t with
      server := SFPlayerInit.onLogin t.server p username password
      time := t.time + 1, sources := t.sources ++ [t.time] }) :
    Faithful (history ++ [.data serial (.login username password) random]) t' := by
  obtain ⟨place, inv, settled⟩ := faithful.good
  obtain ⟨plain, plain', agrees⟩ := orderly p connection waits
  obtain ⟨requests, messages, sources, all⟩ := faithful.asked
  have mine := (inv.connected serial p connection).1
  subst is
  refine ⟨good, ?_, fun k q found => (faithful.taken k q found).imp fun start owns =>
      ⟨owns.1, owns_snoc owns.2 nofun nofun⟩,
    requests ++ [(⟨serial, username, password⟩, t.time)], ?_, ?_, fun request member => ?_⟩
  · rw [List.length_append, List.length_singleton, ← faithful.time]
  · change t.server.dbRequests ++ [_] = _
    rw [List.map_append, ← messages, cString_eq plain, cString_eq plain']
    simp only [SFLogicEntry.modifyPlayer, Function.update_self, mine]
    rfl
  · rw [List.map_append, ← sources]
    rfl
  · rcases List.mem_append.mp member with old | new
    · have before := all request old
      refine ⟨before.sent_snoc _, before.since, fun q found waiting => ?_⟩
      change ((Function.update t.server.players p _) q).username = _
      by_cases me : q = p
      · subst me
        rw [Function.update_self]
        refine (agrees request.1 ?_ ?_).symm
        · rw [messages]
          exact List.mem_map_of_mem old
        · rw [← mine, (inv.connected _ q found).1]
      · rw [Function.update_of_ne me]
        refine before.name q found ?_
        change ((Function.update t.server.players p _) q).state = .init at waiting
        rwa [Function.update_of_ne me] at waiting
    · obtain rfl := List.mem_singleton.mp new
      refine ⟨⟨random, ?_⟩, fun q found start is => ?_, fun q found _ => ?_⟩
      · dsimp only
        rw [faithful.time]
        exact List.getElem?_concat_length
      · obtain ⟨start', is', owns⟩ := faithful.taken serial q found
        obtain rfl : start' = start := Option.some.inj (is'.symm.trans is)
        dsimp only
        rw [faithful.time]
        exact (List.getElem?_eq_some_iff.mp owns.1).1
      · obtain rfl := Option.some.inj (connection.symm.trans found)
        change ((Function.update t.server.players p _) p).username = _
        rw [Function.update_self]

theorem step_good (good : Good t.server) {event : Event} (step : t.Steps event t') :
    Good t'.server := by
  obtain ⟨place, inv, settled⟩ := good
  obtain ⟨s', moved, rfl⟩ := Option.map_eq_some_iff.mp step
  obtain ⟨_, place', -, invariant⟩ := step_reaches inv settled moved
  exact ⟨place', invariant⟩

theorem step_faithful (faithful : Faithful history t) {event : Event} (orderly : Orderly t event)
    (step : t.Steps event t') : Faithful (history ++ [event]) t' := by
  have good := step_good faithful.good step
  obtain ⟨place, inv, settled⟩ := faithful.good
  have kept {m s' : SFLogicEntry} (keeps : Keeps m s') (map : m.playerMap = t.server.playerMap)
      (players : m.players = t.server.players) (away : ∀ serial, event ≠ .connect serial)
      (stays : ∀ serial, event ≠ .disconnect serial) (serial : Int) (p : PlayerRef)
      (found : s'.playerMap[serial]? = some p) : t.server.playerMap[serial]? = some p ∧
        event ≠ .connect serial ∧ event ≠ .disconnect serial ∧
        (s'.players p).username = (t.server.players p).username ∧
        ((s'.players p).state = .init → (t.server.players p).state = .init) := by
    rw [keeps.same] at found
    rw [← map, ← players]
    exact ⟨found, away serial, stays serial, (keeps.kept p).2.1, keeps_init keeps p⟩
  cases event with
  | connect serial => exact connect_faithful faithful orderly step
  | data serial packet random =>
      obtain ⟨s', moved, rfl⟩ := Option.map_eq_some_iff.mp step
      rw [SFLogicEntry.processPacket, SFLogicEntry.onPlayerData] at moved
      split at moved
      · rename_i nobody
        obtain rfl := Option.some.inj moved
        refine faithful.carry good rfl rfl (kept (.refl _) rfl rfl (by simp) (by simp)) (same_requests rfl ?_)
        cases packet with
        | login => simp only [Traced.asks, nobody, Bool.false_eq_true, if_false]
        | _ => rfl
      · rename_i p connection
        have mine : t.server.playerMap[(t.server.players p).serial]? = some p :=
          (inv.connected serial p connection).1 ▸ connection
        rcases processPacket_cases inv settled mine moved with
          ⟨waits, username, password, rfl, rfl⟩ | ⟨other, keeps⟩
        · refine login_faithful faithful connection waits orderly good ?_
          simp only [Traced.asks, connection, waits, decide_true, if_true]
        · refine faithful.carry good rfl rfl (kept keeps rfl rfl (by simp) (by simp))
            (same_requests (by rw [keeps.same]) ?_)
          simp only [asks_false connection other, Bool.false_eq_true, if_false]
  | timer | shouter =>
      obtain ⟨s', moved, rfl⟩ := Option.map_eq_some_iff.mp step
      obtain rfl := Option.some.inj moved
      exact faithful.carry good rfl rfl (kept (.refl _) rfl rfl (by simp) (by simp)) (same_requests rfl rfl)
  | answer request result =>
      obtain ⟨s', moved, rfl⟩ := Option.map_eq_some_iff.mp step
      rw [SFLogicEntry.processPacket] at moved
      split at moved
      · contradiction
      · rw [SFLogicEntry.onDBResult] at moved
        split at moved
        · obtain rfl := Option.some.inj moved
          exact faithful.carry good rfl rfl (kept (.refl _) rfl rfl (by simp) (by simp)) (erased_requests rfl rfl)
        · rename_i p connection
          rcases processDBResult_cases moved with keeps | ⟨waits, -, -, m, changes, sends⟩
          · exact faithful.carry good rfl rfl (kept keeps rfl rfl (by simp) (by simp))
              (erased_requests (by rw [keeps.same]) rfl)
          · have map : s'.playerMap = t.server.playerMap := by
              rw [sends]
              change m.playerMap = _
              rw [changes.same]
            have messages : s'.dbRequests = t.server.dbRequests.eraseIdx request := by
              rw [sends]
              change m.dbRequests = _
              rw [changes.same]
            have players : s'.players = m.players := by rw [sends]
            refine faithful.carry good rfl rfl (fun k q found => ?_)
              (erased_requests messages rfl)
            dsimp only at found ⊢
            rw [map] at found
            rw [players]
            refine ⟨found, by simp, by simp, ?_, fun waiting => ?_⟩
            · rw [changes.kept q]
            · by_cases me : q = p
              · subst me
                rw [changes.mine] at waiting
                contradiction
              · rwa [changes.others q me] at waiting
  | noAnswer request =>
      obtain ⟨s', moved, rfl⟩ := Option.map_eq_some_iff.mp step
      rw [SFLogicEntry.processPacket] at moved
      split at moved
      · obtain rfl := Option.some.inj moved
        exact faithful.carry good rfl rfl (kept (.refl _) rfl rfl (by simp) (by simp)) (erased_requests rfl rfl)
      · contradiction
  | disconnect serial =>
      obtain ⟨s', moved, rfl⟩ := Option.map_eq_some_iff.mp step
      cases connection : t.server.playerMap[serial]? with
      | none =>
          rw [SFLogicEntry.processPacket, SFLogicEntry.onDisconnectPlayer, connection] at moved
          obtain rfl := Option.some.inj moved
          refine faithful.carry good rfl rfl (fun k q found => ⟨found, by simp, fun same => ?_, rfl, id⟩)
            (same_requests rfl rfl)
          cases same
          rw [connection] at found
          contradiction
      | some p =>
          have disconnects := Disconnects.of_run inv settled connection moved
          refine faithful.carry good rfl rfl (fun k q found => ?_)
            (same_requests disconnects.dbRequests rfl)
          dsimp only at found ⊢
          rw [disconnects.playerMap, TreeMap.getElem?_erase] at found
          split at found
          · contradiction
          · rename_i elsewhere
            have unlike : serial ≠ k := fun same => elsewhere (by
              rw [same]
              exact ReflCmp.compare_self)
            refine ⟨found, by simp, fun same => unlike (Event.disconnect.inj same),
              (disconnects.names q).2, fun waiting => ?_⟩
            have other : q ≠ p := by
              rintro rfl
              exact unlike ((inv.connected serial q connection).1.symm.trans
                (inv.connected k q found).1)
            rcases disconnects.phase q other with same | ⟨-, after, -⟩
            · exact same.symm.trans waiting
            · exact absurd waiting (loggedIn_ne after).2

/-- Only the answer to a request of its own connection lets a player in. -/
theorem step_identified (faithful : Faithful history t) : LoginIdentity history t := by
  intro event t' step p before after
  obtain ⟨place, inv, settled⟩ := faithful.good
  obtain ⟨s', moved, rfl⟩ := Option.map_eq_some_iff.mp step
  have kept {m : SFLogicEntry} (keeps : Keeps m s') (players : m.players = t.server.players) :
      (t.server.players p).state = .login := by
    rw [← players]
    exact keeps_login keeps p after
  cases event with
  | connect serial =>
      have spec := Connects.of_run inv.toPeople moved
      by_cases me : p = t.server.allocPlayer.1
      · subst me
        rw [spec.mine.1] at after
        contradiction
      · rw [spec.others p me] at after
        exact absurd after before
  | data serial packet random =>
      rw [SFLogicEntry.processPacket, SFLogicEntry.onPlayerData] at moved
      split at moved
      · obtain rfl := Option.some.inj moved
        exact absurd after before
      · rename_i q connection
        have mine : t.server.playerMap[(t.server.players q).serial]? = some q :=
          (inv.connected serial q connection).1 ▸ connection
        rcases processPacket_cases inv settled mine moved with
          ⟨waits, username, password, rfl, rfl⟩ | ⟨-, keeps⟩
        · refine absurd ?_ before
          change ((Function.update t.server.players q _) p).state = .login at after
          by_cases me : p = q
          · subst me
            rwa [Function.update_self] at after
          · rwa [Function.update_of_ne me] at after
        · exact absurd (kept keeps rfl) before
  | timer | shouter =>
      obtain rfl := Option.some.inj moved
      exact absurd after before
  | answer request result =>
      rw [SFLogicEntry.processPacket] at moved
      split at moved
      · contradiction
      · rename_i message asked
        rw [SFLogicEntry.onDBResult] at moved
        split at moved
        · obtain rfl := Option.some.inj moved
          exact absurd after before
        · rename_i q connection
          rcases processDBResult_cases moved with keeps | ⟨waits, success, free, m, changes, sends⟩
          · exact absurd (kept keeps rfl) before
          · have players : s'.players = m.players := by rw [sends]
            have me : p = q := by
              by_contra other
              rw [players, changes.others p other] at after
              exact before after
            subst me
            refine ⟨?_, request, by rw [success], ?_⟩
            · rw [sends]
              change m.playerManager[_]? = _
              rw [changes.same, TreeMap.getElem?_insertIfNew, if_pos ⟨ReflCmp.compare_self, free⟩]
            · obtain ⟨requests, messages, sources, all⟩ := faithful.asked
              rw [messages, List.getElem?_map] at asked
              obtain ⟨⟨m', source⟩, there, rfl⟩ := Option.map_eq_some_iff.mp asked
              have made := all _ (List.mem_of_getElem? there)
              obtain ⟨random, sent⟩ := made.sent
              obtain ⟨start, is, owns⟩ := faithful.taken _ p connection
              refine ⟨m'.serial, m'.userName, m'.password, random, start, source, ?_, ?_, sent, is,
                owns, made.since p connection start is, made.name p connection waits⟩
              · rw [messages, List.getElem?_map, there]
                rfl
              · rw [sources, List.getElem?_map, there]
                rfl
  | noAnswer request =>
      rw [SFLogicEntry.processPacket] at moved
      split at moved
      · obtain rfl := Option.some.inj moved
        exact absurd after before
      · contradiction
  | disconnect serial =>
      cases connection : t.server.playerMap[serial]? with
      | none =>
          rw [SFLogicEntry.processPacket, SFLogicEntry.onDisconnectPlayer, connection] at moved
          obtain rfl := Option.some.inj moved
          exact absurd after before
      | some q =>
          have disconnects := Disconnects.of_run inv settled connection moved
          by_cases me : p = q
          · subst me
            rw [disconnects.idle] at after
            contradiction
          · rcases disconnects.phase p me with same | ⟨-, -, login⟩
            · exact absurd (same.symm.trans after) before
            · exact absurd (login after) before

theorem initServer_faithful (p2pService : Bool) (gameModes : List Int) :
    Faithful [] ⟨initServer p2pService gameModes, 0, [], fun _ => none⟩ where
  good := initServer_good p2pService gameModes
  time := rfl
  taken := fun serial p found => by
    change (∅ : TreeMap Int PlayerRef)[serial]? = some p at found
    simp at found
  asked := ⟨[], rfl, rfl, fun _ => nofun⟩

theorem run_identified {p2pService : Bool} {gameModes : List Int}
    (run : Run (Guarded Orderly Traced.Steps) { server := initServer p2pService gameModes }
      history t) : LoginIdentity history t :=
  step_identified (run.invariant_history (initServer_faithful p2pService gameModes)
    fun _ _ _ _ faithful ⟨orderly, step⟩ => step_faithful faithful orderly step)

/-- A second name is sent before the check of the first one ends. -/
def overwrittenName : List Event :=
  [.connect 1, .data 1 (.login [97] [98]) 0, .data 1 (.login [99] []) 0]

set_option maxRecDepth 20000 in
theorem overwrittenName_misleads : ∃ t, Run Traced.Steps { server := initServer false [] }
    overwrittenName t ∧ t.server.dbRequests = [⟨1, [97], [98]⟩, ⟨1, [99], []⟩] ∧
    (t.server.players 0).username = [99] ∧
    (∃ t', t.Steps (.answer 0 0) t' ∧ (t'.server.players 0).state = .login) ∧
    ¬ LoginIdentity overwrittenName t := by
  have plays : (overwrittenName.foldlM Traced.processPacket
      { server := initServer false [] }).map (fun t =>
        (t.server.dbRequests, (t.server.players 0).state, (t.server.players 0).username,
          (t.processPacket (.answer 0 0)).map fun t' => (t'.server.players 0).state)) =
      some ([⟨1, [97], [98]⟩, ⟨1, [99], []⟩], .init, [99], some .login) := by
    decide
  obtain ⟨t, result, is⟩ := Option.map_eq_some_iff.mp plays
  simp only [Prod.mk.injEq] at is
  obtain ⟨messages, before, name, answers⟩ := is
  obtain ⟨t', step, after⟩ := Option.map_eq_some_iff.mp answers
  refine ⟨t, .of_foldlM _ _ result, messages, name, ⟨t', step, after⟩, fun identity => ?_⟩
  obtain ⟨-, request, is, serial, username, password, random, _, source, asked, -, -, -, -, -,
    same⟩ :=
    identity _ t' step 0 (by rw [before]; exact nofun) after
  cases is
  rw [messages] at asked
  cases asked
  rw [name] at same
  exact absurd same (by decide)

/-- A refused login, and another one with the same name. -/
def retriedLogin : List Event :=
  [.connect 1, .data 1 (.login [97] [98]) 0, .answer 0 (-1), .data 1 (.login [97] [99]) 0]

set_option maxRecDepth 20000 in
theorem retriedLogin_identified : ∃ t, t.server.dbRequests = [⟨1, [97], [99]⟩] ∧
    LoginIdentity retriedLogin t ∧
    ∃ t', t.Steps (.answer 0 0) t' ∧ (t'.server.players 0).state = .login := by
  have plays : (retriedLogin.foldlM (fun t event => if Orderly t event then
      Traced.processPacket t event else none) { server := initServer false [] }).map (fun t =>
        (t.server.dbRequests,
          (t.processPacket (.answer 0 0)).map fun t' => (t'.server.players 0).state)) =
      some ([⟨1, [97], [99]⟩], some .login) := by
    decide
  obtain ⟨t, result, is⟩ := Option.map_eq_some_iff.mp plays
  simp only [Prod.mk.injEq] at is
  obtain ⟨t', step, login⟩ := Option.map_eq_some_iff.mp is.2
  exact ⟨t, is.1, run_identified (.guarded_of_foldlM Orderly _ _ result), t', step, login⟩

/-- The trace adds nothing to what the server can do. -/
theorem Traced.run_iff {start : Traced} {s : SFLogicEntry} :
    (∃ t, Run Traced.Steps start history t ∧ t.server = s) ↔
      Run SFLogicEntry.Steps start.server history s := by
  constructor
  · rintro ⟨t, run, rfl⟩
    induction run with
    | start => exact .start
    | next _ step ih =>
        obtain ⟨s', moved, rfl⟩ := Option.map_eq_some_iff.mp step
        exact .next ih moved
  · intro run
    induction run with
    | start => exact ⟨start, .start, rfl⟩
    | next _ moved ih =>
        obtain ⟨t, run, rfl⟩ := ih
        exact ⟨_, .next run (Option.map_eq_some_iff.mpr ⟨_, moved, rfl⟩), rfl⟩

end Cgsf.Proof.Casual
