import Cgsf.Proof.Casual.Events

/-!
# Rooms, lobby and pool agree in every run
-/

namespace Cgsf.Proof.Casual
open Cgsf.Casual Cgsf.Casual.SFLogicEntry Library Std

variable {place : PlayerRef → Option RoomRef} {p : PlayerRef} {s s' : SFLogicEntry}

theorem Invariant.active_iff (inv : Invariant place s) (k : Nat) (r : RoomRef) :
    s.activeRooms[k]? = some r ↔ k = r ∧ r < maxRoomCount ∧ (s.rooms r).state ≠ .none := by
  rw [inv.held.active k r, and_comm]
  exact and_congr_left fun _ => eq_comm

theorem Invariant.empty_iff (inv : Invariant place s) (k : Nat) (r : RoomRef) :
    s.emptyRooms[k]? = some r ↔ k = r ∧ r < maxRoomCount ∧ (s.rooms r).state = .none := by
  rw [inv.held.empty k r, and_comm]
  exact and_congr_left fun _ => eq_comm

theorem Invariant.room_consistent (inv : Invariant place s) {r : RoomRef} (inside : r < maxRoomCount)
    (used : (s.rooms r).state ≠ .none) : RoomConsistent s r := by
  have ok := inv.held.rooms r inside
  have somebody : (s.rooms r).observers ≠ [] := fun none => used (ok.used.mpr none)
  refine ⟨ok.all.nodup, ⟨List.length_pos_iff.mpr somebody, ok.size⟩, fun k p => ?_,
    fun t k p => ?_, fun t p => ?_, ?_, ok.index, fun p listed => ?_⟩
  · rw [ok.all.lists k p, ok.all.mem]
    rfl
  · rw [(ok.team t).lists k p, ok.all.mem, and_assoc, and_comm (a := teamOf s.players p = t)]
    rfl
  · rw [(ok.team t).mem, ok.all.mem]
    rfl
  · obtain ⟨chief, is, member⟩ := ok.chief somebody
    exact ⟨chief, (ok.all.mem chief).mpr member, is⟩
  · exact inv.roomIndex p r ((ok.all.mem p).mp listed)

theorem Invariant.consistent (inv : Invariant place s) : Consistent s := by
  refine ⟨fun k r found => ?_, fun k k' r left right => ?_, fun p => ?_, fun k p => ?_⟩
  · obtain ⟨-, inside, used⟩ := (inv.active_iff k r).mp found
    exact inv.room_consistent inside used
  · rw [((inv.active_iff k r).mp left).1, ((inv.active_iff k' r).mp right).1]
  · rw [inv.located p]
    constructor
    · intro there
      obtain ⟨r, member⟩ := Option.ne_none_iff_exists'.mp there
      obtain ⟨inside, used, listed⟩ := inv.member_room member
      exact ⟨r, r, (inv.active_iff r r).mpr ⟨rfl, inside, used⟩, listed⟩
    · rintro ⟨k, r, found, listed⟩
      obtain ⟨-, inside, -⟩ := (inv.active_iff k r).mp found
      rw [((inv.held.rooms r inside).all.mem p).mp listed]
      exact Option.some_ne_none r
  · exact inv.lobby k p

theorem run_consistent {p2pService : Bool} {gameModes : List Int} {history : List Event}
    (run : Run Steps (initServer p2pService gameModes) history s) :
    Consistent s ∧ ∀ serial p s', s.playerMap[serial]? = some p →
      s.onDisconnectPlayer serial = some s' → Forgotten s' p serial := by
  obtain ⟨place, inv, settled⟩ := run_good run
  refine ⟨inv.consistent, fun serial p s' connection disconnects => ?_⟩
  have gone := onDisconnectPlayer_spec inv settled connection disconnects
  exact gone.invariant.forgotten gone.gone gone.idle

theorem Invariant.partitioned (inv : Invariant place s) : Partitioned s := by
  refine ⟨inv.empty_iff, inv.active_iff, fun k r found => ?_⟩
  obtain ⟨-, inside, unused⟩ := (inv.empty_iff k r).mp found
  have ok := inv.held.rooms r inside
  have vacant := ok.used.mp unused
  have nobody (p : PlayerRef) : place p ≠ some r := fun member => by
    have listed := (inv.member_room member).2.2
    rw [vacant] at listed
    contradiction
  refine ⟨vacant, ok.all.lists.isEmpty nobody, ?_,
    fun t => ⟨(ok.team t).eq_nil fun p both => nobody p both.1,
      (ok.team t).lists.isEmpty fun p both => nobody p both.1⟩⟩
  rw [TreeMap.isEmpty_iff_forall_not_mem]
  intro k peer
  obtain ⟨p, member, -⟩ := inv.peers r inside k peer
  exact nobody p member

/-- A room is recalled by the event that takes its last member away, and by no other. -/
theorem recalled_iff (inv : Invariant place s) (settled : Settled s) {event : Event}
    (step : s.Steps event s') (r : RoomRef) :
    Recalled s s' r ↔ r < maxRoomCount ∧ ∃ p, (s.rooms r).observers = [p] ∧ Leaving s event p ∧
      p ∉ (s'.rooms r).observers := by
  obtain ⟨p, place', moved, inv', -⟩ := step_reaches inv settled step
  rw [Recalled, inv.active_iff r r, inv'.empty_iff r r]
  constructor
  · rintro ⟨⟨-, inside, used⟩, -, -, unused⟩
    have before := inv.held.rooms r inside
    have after := inv'.held.rooms r inside
    have vacant := after.used.mp unused
    obtain ⟨chief, -, member⟩ := before.chief fun none => used (before.used.mpr none)
    have gone (q : PlayerRef) : place' q ≠ some r := fun there => by
      have listed := (after.all.mem q).mpr there
      rw [vacant] at listed
      contradiction
    cases moved with
    | stays => exact absurd member (gone chief)
    | enters k outside =>
        refine absurd ?_ (gone chief)
        rw [Function.update_of_ne, member]
        rintro rfl
        rw [outside] at member
        contradiction
    | leaves k leaving there =>
        have only (q : PlayerRef) (member : place q = some r) : q = p := by
          by_contra other
          exact gone q (by rw [Function.update_of_ne other, member])
        refine ⟨inside, p, ?_, leaving, ?_⟩
        · refine List.perm_singleton.mp ((List.perm_ext_iff_of_nodup before.all.nodup
            (List.nodup_singleton p)).mpr fun q => ?_)
          rw [before.all.mem, List.mem_singleton]
          refine ⟨only q, ?_⟩
          rintro rfl
          exact only chief member ▸ member
        · rw [vacant]
          exact List.not_mem_nil
  · rintro ⟨inside, q, alone, -, left⟩
    have before := inv.held.rooms r inside
    have after := inv'.held.rooms r inside
    refine ⟨⟨rfl, inside, fun none => ?_⟩, rfl, inside, after.used.mpr ?_⟩
    · rw [before.used.mp none] at alone
      contradiction
    · have member : place q = some r := (before.all.mem q).mp (by simp [alone])
      have stays : place' q ≠ some r := fun there => left ((after.all.mem q).mpr there)
      refine after.all.eq_nil fun k there => stays ?_
      cases moved with
      | stays => exact member
      | enters k outside =>
          rw [Function.update_of_ne, member]
          rintro rfl
          rw [outside] at member
          contradiction
      | leaves _ _ _ =>
          have other : k ≠ p := by
            rintro rfl
            rw [Function.update_self] at there
            contradiction
          rw [Function.update_of_ne other] at there
          have same : k = q := by
            have listed := (before.all.mem k).mpr there
            rwa [alone, List.mem_singleton] at listed
          rw [← same, Function.update_of_ne other, there]

theorem run_partitioned {p2pService : Bool} {gameModes : List Int} {history : List Event}
    (run : Run Steps (initServer p2pService gameModes) history s) :
    Partitioned s ∧
      (∀ event s', s.Steps event s' → ∀ r, Recalled s s' r ↔ r < maxRoomCount ∧
        ∃ p, (s.rooms r).observers = [p] ∧ Leaving s event p ∧ p ∉ (s'.rooms r).observers) ∧
      ∀ serial p s' r, s.playerMap[serial]? = some p → r < maxRoomCount →
        (s.rooms r).observers = [p] → s.Steps (.disconnect serial) s' → Recalled s s' r := by
  obtain ⟨place, inv, settled⟩ := run_good run
  refine ⟨inv.partitioned, fun event s' step => recalled_iff inv settled step,
    fun serial p s' r connection inside alone step => ?_⟩
  have gone := onDisconnectPlayer_spec inv settled connection step
  exact (recalled_iff inv settled step r).mpr ⟨inside, p, alone, ⟨serial, connection, .inl rfl⟩,
    ((gone.invariant.forgotten gone.gone gone.idle).room r inside).1⟩

/-- One player logs in, opens a room and starts it. -/
def oneGame : List Event :=
  [.connect 7, .data 7 (.login [97] [98]) 0, .answer 0 0, .data 7 .enterLobby 0,
    .data 7 (.createRoom 1) 0, .data 7 .loadingStart 0, .data 7 .loadingComplete 0]

theorem oneGame_runs : ∃ s, Run Steps (initServer false [1]) oneGame s ∧
    (s.rooms 0).state = .play ∧ (s.rooms 0).observers = [0] := by
  have plays : (oneGame.foldlM SFLogicEntry.processPacket (initServer false [1])).map (fun s =>
      ((s.rooms 0).state, (s.rooms 0).observers)) = some (.play, [0]) := by decide +kernel
  obtain ⟨s, result, is⟩ := Option.map_eq_some_iff.mp plays
  exact ⟨s, .of_foldlM _ _ result, congrArg Prod.fst is, congrArg Prod.snd is⟩

theorem oneGame_consistent : ∃ s, (s.rooms 0).state = .play ∧ (s.rooms 0).observers = [0] ∧
    Consistent s := by
  obtain ⟨s, run, playing, alone⟩ := oneGame_runs
  exact ⟨s, playing, alone, (run_consistent run).1⟩

theorem oneGame_partitioned : ∃ s, (s.rooms 0).observers = [0] ∧ Partitioned s ∧
    ∀ s', s.playerMap[(7 : Int)]? = some 0 → s.Steps (.disconnect 7) s' → Recalled s s' 0 := by
  obtain ⟨s, run, -, alone⟩ := oneGame_runs
  have parts := run_partitioned run
  exact ⟨s, alone, parts.1, fun s' connection =>
    parts.2.2 7 0 s' 0 connection (by decide) alone⟩

end Cgsf.Proof.Casual
