import Cgsf.Proof.Casual.Identity

/-!
# One session for each name

The registry leads from the name of every player that is logged in to that player. Only a disconnect
can break this: the name of the player that goes is erased, whoever is logged in under it.
-/

namespace Cgsf.Proof.Casual
open Cgsf.Casual Cgsf.Casual.SFLogicEntry Library Std

variable {place : PlayerRef → Option RoomRef} {p : PlayerRef} {s s' : SFLogicEntry}

theorem single_of_registered (registered : ∀ p, loggedIn (s.players p).state = true →
    s.playerManager[(s.players p).username]? = some p) : SingleSession s where
  alone := fun p q left right same => by
    have there := registered p left
    rw [same, registered q right] at there
    exact (Option.some.inj there).symm
  registered := registered

theorem keeps_single (single : SingleSession s) (keeps : Keeps s s') :
    SingleSession s' := single_of_registered fun q logged => by
  rw [keeps.loggedIn_iff] at logged
  rw [(keeps.kept q).2.1, keeps.same]
  exact single.registered q logged

theorem dbRequests_single (single : SingleSession s) (dbRequests : List DBRequest) :
    SingleSession { s with dbRequests } := ⟨single.alone, single.registered⟩

theorem loggedIn_ne {state : PlayerState} (logged : loggedIn state = true) :
    state ≠ .none ∧ state ≠ .init := by
  refine ⟨?_, ?_⟩
  all_goals
    rintro rfl
    contradiction

theorem connect_single (single : SingleSession s) {serial : Int}
    (connects : Connects s serial s') : SingleSession s' := single_of_registered fun q logged => by
  have other : q ≠ s.allocPlayer.1 := by
    rintro rfl
    exact (loggedIn_ne logged).2 connects.mine.1
  rw [connects.others q other] at logged ⊢
  rw [connects.playerManager]
  exact single.registered q logged

theorem onLogin_single (single : SingleSession s) (waits : (s.players p).state = .init)
    (username password : Text) :
    SingleSession (SFPlayerInit.onLogin s p username password) := single_of_registered fun q logged => by
  have is := logged
  simp only [SFPlayerInit.onLogin, SFLogicEntry.modifyPlayer] at is ⊢
  have other : q ≠ p := by
    rintro rfl
    rw [Function.update_self] at is
    exact (loggedIn_ne is).2 waits
  rw [Function.update_of_ne other] at is ⊢
  exact single.registered q is

/-- The name was free, so no other player is logged in under it. -/
theorem login_single (single : SingleSession s)
    (free : (s.players p).username ∉ s.playerManager) {m : SFLogicEntry}
    (changes : ChangesState p .login { s with
      playerManager := s.playerManager.insertIfNew (s.players p).username p } m)
    (sends : SendsOnly m s') : SingleSession s' := single_of_registered fun q logged => by
  rw [sends] at logged ⊢
  change m.playerManager[(m.players q).username]? = some q
  rw [changes.kept q, changes.same]
  change (s.playerManager.insertIfNew (s.players p).username p)[(s.players q).username]? = some q
  rw [TreeMap.getElem?_insertIfNew]
  by_cases me : q = p
  · subst me
    rw [if_pos ⟨ReflCmp.compare_self, free⟩]
  · change loggedIn (m.players q).state = true at logged
    rw [changes.others q me] at logged
    have there := single.registered q logged
    rw [if_neg, there]
    rintro ⟨same, -⟩
    rw [← LawfulEqOrd.compare_eq_iff_eq.mp same] at there
    exact free (TreeMap.mem_iff_isSome_getElem?.mpr (there ▸ rfl))

theorem Disconnects.loggedIn_iff {serial : Int} (disconnects : Disconnects p serial s s')
    {q : PlayerRef} (other : q ≠ p) :
    loggedIn (s'.players q).state = loggedIn (s.players q).state := by
  rcases disconnects.phase q other with same | ⟨before, after, -⟩
  · rw [same]
  · rw [before, after]

theorem disconnect_single_iff (single : SingleSession s) {serial : Int}
    (connection : s.playerMap[serial]? = some p) (disconnects : Disconnects p serial s s') :
    SingleSession s' ↔ Spares s (.disconnect serial) := by
  constructor
  · rintro after k p' is found q other logged same
    cases is
    obtain rfl := Option.some.inj (connection.symm.trans found)
    rw [← disconnects.loggedIn_iff other] at logged
    have there := after.registered q logged
    rw [(disconnects.names q).2, disconnects.playerManager, same, TreeMap.getElem?_erase,
      if_pos ReflCmp.compare_self] at there
    contradiction
  · intro spares
    refine single_of_registered fun q logged => ?_
    have other : q ≠ p := by
      rintro rfl
      exact (loggedIn_ne logged).1 disconnects.idle
    rw [disconnects.loggedIn_iff other] at logged
    have unlike := spares serial p rfl connection q other logged
    rw [(disconnects.names q).2, disconnects.playerManager, TreeMap.getElem?_erase, if_neg]
    · exact single.registered q logged
    · exact fun same => unlike (LawfulEqOrd.compare_eq_iff_eq.mp same).symm

theorem step_single_iff (inv : Invariant place s) (settled : Settled s) (single : SingleSession s)
    {event : Event} (step : s.Steps event s') : SingleSession s' ↔ Spares s event := by
  have spared (after : SingleSession s') (others : ∀ serial, event ≠ .disconnect serial) :
      SingleSession s' ↔ Spares s event :=
    ⟨fun _ serial _ is => absurd is (others serial), fun _ => after⟩
  cases event with
  | connect serial => exact spared (connect_single single (.of_run inv.toPeople step)) (by simp)
  | data serial packet random =>
      refine spared ?_ (by simp)
      rw [SFLogicEntry.Steps, SFLogicEntry.processPacket, SFLogicEntry.onPlayerData] at step
      split at step
      · obtain rfl := Option.some.inj step
        exact single
      · rename_i p connection
        have mine : s.playerMap[(s.players p).serial]? = some p :=
          (inv.connected serial p connection).1 ▸ connection
        rcases processPacket_cases inv settled mine step with
          ⟨waits, username, password, -, rfl⟩ | ⟨-, keeps⟩
        · exact onLogin_single single waits username password
        · exact keeps_single single keeps
  | timer | shouter =>
      obtain rfl := Option.some.inj step
      exact spared single (by simp)
  | answer request result =>
      refine spared ?_ (by simp)
      rw [SFLogicEntry.Steps, SFLogicEntry.processPacket] at step
      split at step
      · contradiction
      · rename_i message _
        have pending := dbRequests_single single (s.dbRequests.eraseIdx request)
        rw [SFLogicEntry.onDBResult] at step
        split at step
        · obtain rfl := Option.some.inj step
          exact pending
        · rcases processDBResult_cases step with keeps | ⟨-, -, free, m, changes, sends⟩
          · exact keeps_single pending keeps
          · exact login_single pending free changes sends
  | noAnswer request =>
      refine spared ?_ (by simp)
      rw [SFLogicEntry.Steps, SFLogicEntry.processPacket] at step
      split at step
      · obtain rfl := Option.some.inj step
        exact dbRequests_single single _
      · contradiction
  | disconnect serial =>
      cases found : s.playerMap[serial]? with
      | none =>
          rw [SFLogicEntry.Steps, SFLogicEntry.processPacket, SFLogicEntry.onDisconnectPlayer,
            found] at step
          obtain rfl := Option.some.inj step
          refine ⟨fun _ k p is there => ?_, fun _ => single⟩
          cases is
          rw [found] at there
          contradiction
      | some p => exact disconnect_single_iff single found (.of_run inv settled found step)

/-- Who is logged in stays so under its name until its own disconnect. -/
theorem step_stays (inv : Invariant place s) (settled : Settled s) {event : Event}
    (step : s.Steps event s') {q : PlayerRef} (logged : loggedIn (s.players q).state = true)
    (other : event ≠ .disconnect (s.players q).serial) :
    loggedIn (s'.players q).state = true ∧ (s'.players q).username = (s.players q).username := by
  have kept {a b : SFLogicEntry} (keeps : Keeps a b) (same : a.players q = s.players q) :
      loggedIn (b.players q).state = true ∧ (b.players q).username = (s.players q).username := by
    rw [keeps.loggedIn_iff, (keeps.kept q).2.1, same]
    exact ⟨logged, rfl⟩
  have unchanged {b : SFLogicEntry} (same : b.players q = s.players q) :
      loggedIn (b.players q).state = true ∧ (b.players q).username = (s.players q).username :=
    kept (.refl b) same
  cases event with
  | connect serial =>
      have connects := Connects.of_run inv.toPeople step
      refine unchanged (connects.others q ?_)
      rintro rfl
      exact (loggedIn_ne logged).1 connects.idle
  | data serial packet random =>
      rw [SFLogicEntry.Steps, SFLogicEntry.processPacket, SFLogicEntry.onPlayerData] at step
      split at step
      · obtain rfl := Option.some.inj step
        exact unchanged rfl
      · rename_i p connection
        have mine : s.playerMap[(s.players p).serial]? = some p :=
          (inv.connected serial p connection).1 ▸ connection
        rcases processPacket_cases inv settled mine step with
          ⟨waits, username, password, -, rfl⟩ | ⟨-, keeps⟩
        · refine unchanged (Function.update_of_ne ?_ ..)
          rintro rfl
          exact (loggedIn_ne logged).2 waits
        · exact kept keeps rfl
  | timer | shouter =>
      obtain rfl := Option.some.inj step
      exact unchanged rfl
  | answer request result =>
      rw [SFLogicEntry.Steps, SFLogicEntry.processPacket] at step
      split at step
      · contradiction
      · rw [SFLogicEntry.onDBResult] at step
        split at step
        · obtain rfl := Option.some.inj step
          exact unchanged rfl
        · rename_i p connection
          rcases processDBResult_cases step with keeps | ⟨waits, -, -, m, changes, sends⟩
          · exact kept keeps rfl
          · have not_me : q ≠ p := by
              rintro rfl
              exact (loggedIn_ne logged).2 waits
            rw [sends]
            exact unchanged (changes.others q not_me)
  | noAnswer request =>
      rw [SFLogicEntry.Steps, SFLogicEntry.processPacket] at step
      split at step
      · obtain rfl := Option.some.inj step
        exact unchanged rfl
      · contradiction
  | disconnect serial =>
      cases found : s.playerMap[serial]? with
      | none =>
          rw [SFLogicEntry.Steps, SFLogicEntry.processPacket, SFLogicEntry.onDisconnectPlayer,
            found] at step
          obtain rfl := Option.some.inj step
          exact unchanged rfl
      | some p =>
          have disconnects := Disconnects.of_run inv settled found step
          have not_me : q ≠ p := by
            rintro rfl
            exact other (by rw [(inv.connected serial q found).1])
          rw [disconnects.loggedIn_iff not_me, (disconnects.names q).2]
          exact ⟨logged, rfl⟩

theorem initServer_single (p2pService : Bool) (gameModes : List Int) :
    SingleSession (initServer p2pService gameModes) := single_of_registered fun _ => nofun

theorem run_good_single {p2pService : Bool} {gameModes : List Int} {history : List Event}
    (run : Run (Guarded Spares Steps) (initServer p2pService gameModes) history s) :
    Good s ∧ SingleSession s := by
  refine @Run.invariant _ _ _ _ (fun s => Good s ∧ SingleSession s)
    ⟨initServer_good _ _, initServer_single _ _⟩ ?_ _ _ run
  rintro s event s' ⟨⟨place, inv, settled⟩, single⟩ ⟨spares, step⟩
  obtain ⟨_, place', _, invariant⟩ := step_reaches inv settled step
  exact ⟨⟨place', invariant⟩, (step_single_iff inv settled single step).mpr spares⟩

theorem run_single {p2pService : Bool} {gameModes : List Int} {history : List Event}
    (run : Run (Guarded Spares Steps) (initServer p2pService gameModes) history s) :
    SingleSession s ∧ ∀ event s', s.Steps event s' →
      (SingleSession s' ↔ Spares s event) ∧
        ∀ p, loggedIn (s.players p).state = true → event ≠ .disconnect (s.players p).serial →
          loggedIn (s'.players p).state = true ∧
            (s'.players p).username = (s.players p).username := by
  obtain ⟨⟨place, inv, settled⟩, single⟩ := run_good_single run
  exact ⟨single, fun event s' step => ⟨step_single_iff inv settled single step,
    fun p logged other => step_stays inv settled step logged other⟩⟩

/-- A second player asks for a name in use, is refused and goes, and then the name is free. -/
def secondSession : List Event :=
  [.connect 1, .data 1 (.login [97] [98]) 0, .answer 0 0, .connect 2,
    .data 2 (.login [97] [99]) 0, .answer 0 0, .disconnect 2, .connect 3,
    .data 3 (.login [97] [98]) 0, .answer 0 0]

set_option maxRecDepth 20000 in
theorem secondSession_shares : ∃ s, Run Steps (initServer false []) secondSession s ∧
    (s.players 0).state = .login ∧ (s.players 2).state = .login ∧
    (s.players 0).username = (s.players 2).username ∧ ¬ SingleSession s := by
  have plays : (secondSession.foldlM SFLogicEntry.processPacket (initServer false [])).map (fun s =>
      ((s.players 0).state, (s.players 2).state, (s.players 0).username,
        (s.players 2).username)) = some (.login, .login, [97], [97]) := by decide
  obtain ⟨s, result, is⟩ := Option.map_eq_some_iff.mp plays
  simp only [Prod.mk.injEq] at is
  obtain ⟨first, second, name, name'⟩ := is
  refine ⟨s, .of_foldlM _ _ result, first, second, name.trans name'.symm, fun single => ?_⟩
  exact absurd (single.alone 0 2 (by rw [first]; rfl) (by rw [second]; rfl)
    (name.trans name'.symm)) (by decide)

/-- The name is asked for a second time, and the one who asked is still connected. -/
def refusedLogin : List Event := secondSession.take 6

set_option maxRecDepth 20000 in
theorem refusedLogin_single : ∃ s, (s.players 0).state = .login ∧ (s.players 1).state = .init ∧
    SingleSession s ∧ ∀ s', s.Steps (.data 1 .enterLobby 0) s' → SingleSession s' := by
  have plays : (refusedLogin.foldlM SFLogicEntry.processPacket (initServer false [])).map (fun s =>
      ((s.players 0).state, (s.players 1).state)) = some (.login, .init) := by decide
  obtain ⟨s, result, is⟩ := Option.map_eq_some_iff.mp plays
  have run : Run (Guarded Spares Steps) (initServer false []) refusedLogin s :=
    (Run.of_foldlM _ _ result).guarded fun event member s serial p is => by
      subst is
      simp [refusedLogin, secondSession] at member
  have single := run_single run
  exact ⟨s, congrArg Prod.fst is, congrArg Prod.snd is, single.1, fun s' step =>
    (single.2 _ s' step).1.mpr fun _ _ => nofun⟩

end Cgsf.Proof.Casual
