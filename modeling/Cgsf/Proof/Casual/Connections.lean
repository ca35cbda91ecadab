import Cgsf.Casual.Logins
import Cgsf.Library.Alternation
import Cgsf.Proof.Casual.Logins

/-!
# The map of players follows the connects and disconnects

As long as the commands of each serial alternate, the serial's last command says whether the map
holds a player for it, and which.
-/

namespace Cgsf.Proof.Casual
open Cgsf.Casual Cgsf.Casual.SFLogicEntry Library Std

variable {history : List Event} {t t' : Traced}

theorem owns_unique {serial : Int} {a b : Nat} (left : Owns history serial a)
    (right : Owns history serial b) : a = b := by
  rcases Nat.lt_trichotomy a b with later | same | later
  · exact absurd right.1 (left.2 b later).1
  · exact same
  · exact absurd left.1 (right.2 a later).1

/-- A serial has a player after its connect, and none after its disconnect. -/
inductive Follows (history : List Event) (t : Traced) (serial : Int) : Prop where
  | here (start : Nat) (p : PlayerRef) (owns : Owns history serial start)
      (taken : t.taken p = some start) (found : t.server.playerMap[serial]? = some p)
      (last : (turns (commands history) serial).getLast? = some true)
  | gone (nobody : ∀ start, ¬ Owns history serial start)
      (absent : t.server.playerMap[serial]? = none)
      (last : (turns (commands history) serial).getLast? ≠ some true)

theorem Follows.mapsLatest (follows : ∀ serial, Follows history t serial) :
    MapsLatest history t := by
  intro serial
  cases follows serial with
  | here start p owns taken found =>
      refine ⟨fun other owns' => ⟨p, ?_, found⟩, fun nobody => absurd owns (nobody start)⟩
      rw [taken, owns_unique owns owns']
  | gone nobody absent => exact ⟨fun start owns => absurd owns (nobody start), fun _ => absent⟩

theorem commands_snoc (history : List Event) (event : Event) :
    commands (history ++ [event]) = commands history ++ (commandOf event).toList := by
  rw [commands, List.filterMap_append]
  cases is : commandOf event <;> simp [commands, is]

/-- An event that does not connect or disconnect the serial. -/
theorem owns_snoc_iff {serial : Int} {start : Nat} {event : Event}
    (connect : event ≠ .connect serial) (disconnect : event ≠ .disconnect serial) :
    Owns (history ++ [event]) serial start ↔ Owns history serial start := by
  refine ⟨fun owns => ?_, fun owns => owns_snoc owns connect disconnect⟩
  have below : start < history.length := by
    have inside := (List.getElem?_eq_some_iff.mp owns.1).1
    rw [List.length_append, List.length_singleton] at inside
    by_contra beyond
    have last : start = history.length := by omega
    have here := owns.1
    rw [last, List.getElem?_concat_length] at here
    exact connect (Option.some.inj here)
  refine ⟨by rw [← owns.1, List.getElem?_append_left below], fun i later => ?_⟩
  have since := owns.2 i later
  by_cases inside : i < history.length
  · rwa [List.getElem?_append_left inside] at since
  · rw [List.getElem?_eq_none (Nat.le_of_not_lt inside)]
    exact ⟨nofun, nofun⟩

theorem turns_other {serial : Int} {event : Event} (connect : event ≠ .connect serial)
    (disconnect : event ≠ .disconnect serial) :
    turns (commands (history ++ [event])) serial = turns (commands history) serial := by
  rw [commands_snoc]
  cases event with
  | connect k => exact turns_snoc_other _ _ fun same => connect (by rw [same])
  | disconnect k => exact turns_snoc_other _ _ fun same => disconnect (by rw [same])
  | _ => exact congrArg (turns · serial) (List.append_nil _)

theorem Follows.other {serial : Int} {event : Event} (follows : Follows history t serial)
    (connect : event ≠ .connect serial) (disconnect : event ≠ .disconnect serial)
    (map : t'.server.playerMap[serial]? = t.server.playerMap[serial]?)
    (taken : ∀ p, t.server.playerMap[serial]? = some p → t'.taken p = t.taken p) :
    Follows (history ++ [event]) t' serial := by
  cases follows with
  | here start p owns is found last =>
      refine .here start p (owns_snoc owns connect disconnect) ?_ (by rw [map, found]) ?_
      · rw [taken p found, is]
      · rw [turns_other connect disconnect, last]
  | gone nobody absent last =>
      refine .gone (fun start owns => ?_) (by rw [map, absent]) ?_
      · exact nobody start ((owns_snoc_iff connect disconnect).mp owns)
      · rw [turns_other connect disconnect]
        exact last

structure Following (history : List Event) (t : Traced) : Prop where
  good : Good t.server
  time : t.time = history.length
  follows : ∀ serial, Follows history t serial

theorem connect_follows (following : Following history t) {serial : Int}
    (alternates : Alternates (turns (commands (history ++ [.connect serial])) serial))
    (step : t.Steps (.connect serial) t') (k : Int) :
    Follows (history ++ [.connect serial]) t' k := by
  obtain ⟨s', connects, rfl⟩ := Option.map_eq_some_iff.mp step
  obtain ⟨place, inv, settled⟩ := following.good
  have spec := Connects.of_run inv.toPeople connects
  have turn : (turns (commands history) serial).getLast? ≠ some true := by
    rw [commands_snoc] at alternates
    change Alternates (turns (commands history ++ [(serial, true)]) serial) at alternates
    rw [turns_snoc_self, Alternates.snoc_iff] at alternates
    exact alternates.2.mp rfl
  by_cases same : k = serial
  · subst same
    cases following.follows k with
    | here _ _ _ _ _ last => exact absurd last turn
    | gone _ absent _ =>
        have free : k ∉ t.server.playerMap := fun member => by
          have there := TreeMap.mem_iff_isSome_getElem?.mp member
          rw [absent] at there
          contradiction
        refine .here history.length t.server.allocPlayer.1 owns_start ?_ ?_ ?_
        · dsimp only
          rw [Function.update_self, following.time]
        · rw [spec.playerMap, TreeMap.getElem?_insertIfNew, if_pos ⟨ReflCmp.compare_self, free⟩]
        · rw [commands_snoc]
          change (turns (commands history ++ [(k, true)]) k).getLast? = some true
          rw [turns_snoc_self, List.getLast?_concat]
  · refine (following.follows k).other (fun is => same (Event.connect.inj is).symm) nofun ?_
      fun p found => ?_
    · rw [spec.playerMap, TreeMap.getElem?_insertIfNew, if_neg]
      exact fun both => same (LawfulEqOrd.compare_eq_iff_eq.mp both.1).symm
    · refine Function.update_of_ne ?_ ..
      rintro rfl
      exact (inv.connected k _ found).2 spec.idle

theorem disconnect_follows (following : Following history t) {serial : Int}
    (step : t.Steps (.disconnect serial) t') (k : Int) :
    Follows (history ++ [.disconnect serial]) t' k := by
  obtain ⟨s', moved, rfl⟩ := Option.map_eq_some_iff.mp step
  obtain ⟨place, inv, settled⟩ := following.good
  have map : (∀ p, t.server.playerMap[serial]? = some p →
      s'.playerMap = t.server.playerMap.erase serial) ∧
      (t.server.playerMap[serial]? = none → s' = t.server) := by
    refine ⟨fun p found => (Disconnects.of_run inv settled found moved).playerMap, fun none => ?_⟩
    rw [SFLogicEntry.processPacket, SFLogicEntry.onDisconnectPlayer, none] at moved
    exact (Option.some.inj moved).symm
  by_cases same : k = serial
  · subst same
    refine .gone (fun start owns => ?_) ?_ ?_
    · have below : start < history.length := by
        by_contra beyond
        have inside := (List.getElem?_eq_some_iff.mp owns.1).1
        rw [List.length_append, List.length_singleton] at inside
        have here := owns.1
        rw [show start = history.length by omega, List.getElem?_concat_length] at here
        simp at here
      exact (owns.2 history.length below).2 List.getElem?_concat_length
    · cases found : t.server.playerMap[k]? with
      | none =>
          dsimp only
          rw [map.2 found, found]
      | some p =>
          dsimp only
          rw [map.1 p found, TreeMap.getElem?_erase, if_pos ReflCmp.compare_self]
    · rw [commands_snoc]
      change (turns (commands history ++ [(k, false)]) k).getLast? ≠ some true
      rw [turns_snoc_self, List.getLast?_concat]
      decide
  · refine (following.follows k).other (by simp) (fun is => same (Event.disconnect.inj is).symm) ?_
      fun _ _ => rfl
    dsimp only
    cases found : t.server.playerMap[serial]? with
    | none => rw [map.2 found]
    | some p =>
        rw [map.1 p found, TreeMap.getElem?_erase, if_neg]
        exact fun is => same (LawfulEqOrd.compare_eq_iff_eq.mp is).symm

theorem step_playerMap {s s' : SFLogicEntry} (good : Good s) {event : Event}
    (step : s.Steps event s') (connect : ∀ serial, event ≠ .connect serial)
    (disconnect : ∀ serial, event ≠ .disconnect serial) : s'.playerMap = s.playerMap := by
  obtain ⟨place, inv, settled⟩ := good
  cases event with
  | connect serial => exact absurd rfl (connect serial)
  | disconnect serial => exact absurd rfl (disconnect serial)
  | timer | shouter =>
      obtain rfl := Option.some.inj step
      rfl
  | data serial packet random =>
      rw [SFLogicEntry.Steps, SFLogicEntry.processPacket, SFLogicEntry.onPlayerData] at step
      split at step
      · obtain rfl := Option.some.inj step
        rfl
      · rename_i p connection
        have mine : s.playerMap[(s.players p).serial]? = some p :=
          (inv.connected serial p connection).1 ▸ connection
        rcases processPacket_cases inv settled mine step with
          ⟨-, username, password, -, rfl⟩ | ⟨-, keeps⟩
        · rfl
        · rw [keeps.same]
  | answer request result =>
      rw [SFLogicEntry.Steps, SFLogicEntry.processPacket] at step
      split at step
      · contradiction
      · rw [SFLogicEntry.onDBResult] at step
        split at step
        · obtain rfl := Option.some.inj step
          rfl
        · rcases processDBResult_cases step with keeps | ⟨-, -, -, m, changes, sends⟩
          · rw [keeps.same]
          · rw [sends]
            change m.playerMap = _
            rw [changes.same]
  | noAnswer request =>
      rw [SFLogicEntry.Steps, SFLogicEntry.processPacket] at step
      split at step
      · obtain rfl := Option.some.inj step
        rfl
      · contradiction

theorem step_following (following : Following history t) {event : Event}
    (alternates : ∀ serial, Alternates (turns (commands (history ++ [event])) serial))
    (step : t.Steps event t') : Following (history ++ [event]) t' := by
  have good := step_good following.good step
  obtain ⟨s', moved, is⟩ := Option.map_eq_some_iff.mp step
  refine ⟨good, ?_, fun k => ?_⟩
  · rw [← is, List.length_append, List.length_singleton, ← following.time]
  · cases event with
    | connect serial => exact connect_follows following (alternates serial) step k
    | disconnect serial => exact disconnect_follows following step k
    | _ =>
        have map := step_playerMap following.good moved nofun nofun
        rw [← is]
        exact (following.follows k).other nofun nofun (by rw [map]) fun _ _ => rfl

theorem run_following {p2pService : Bool} {gameModes : List Int}
    (run : Run Traced.Steps { server := initServer p2pService gameModes } history t)
    (alternates : ∀ serial, Alternates (turns (commands history) serial)) :
    Following history t := by
  induction run with
  | start =>
      refine ⟨initServer_good p2pService gameModes, rfl, fun serial => .gone ?_ ?_ nofun⟩
      · exact fun start owns => nomatch owns.1
      · change (∅ : TreeMap Int PlayerRef)[serial]? = none
        simp
  | @next history t t' event before step ih =>
      refine step_following (ih fun serial => ?_) alternates step
      refine (alternates serial).of_initial (turns_initial ?_ serial)
      rw [commands_snoc]
      exact List.prefix_append _ _

theorem run_mapsLatest {p2pService : Bool} {gameModes : List Int}
    (run : Run Traced.Steps { server := initServer p2pService gameModes } history t)
    (alternates : ∀ serial, Alternates (turns (commands history) serial)) :
    MapsLatest history t :=
  Follows.mapsLatest (run_following run alternates).follows

end Cgsf.Proof.Casual
