import Cgsf.Proof.Casual.RoomSteps

/-!
# The invariant of the server

`People` is about the players, the map of connections, the lobby and the pool; `Rooming` adds the
rooms. `place` says which room a player is in.
-/

namespace Cgsf.Proof.Casual
open Cgsf.Casual Cgsf.Casual.SFLogicEntry Library Std

structure People (s : SFLogicEntry) : Prop where
  connected : ∀ k p, s.playerMap[k]? = some p →
    (s.players p).serial = k ∧ (s.players p).state ≠ .none
  present : ∀ p, (s.players p).state ≠ .none → (s.players p).state ≠ .init →
    s.playerMap[(s.players p).serial]? = some p
  lobby : Lists s.lobby (fun p => (s.players p).state = .lobby) (serialOf s.players)
  pooled : s.playerPool.queue.Nodup
  idle : ∀ p ∈ s.playerPool.queue, (s.players p).state = .none ∧ p < s.nextPlayer
  fresh : ∀ p, s.nextPlayer ≤ p → (s.players p).state = .none

structure Rooming (place : PlayerRef → Option RoomRef) (s : SFLogicEntry) : Prop where
  held : Held place s
  roomIndex : ∀ p r, place p = some r → (s.players p).roomIndex = r

structure Peers (place : PlayerRef → Option RoomRef) (s : SFLogicEntry) : Prop where
  peers : ∀ r, r < maxRoomCount → ∀ k ∈ (s.rooms r).peerMap,
    ∃ p, place p = some r ∧ (s.players p).serial = k
  waiting : ∀ r, r < maxRoomCount → (s.rooms r).state = .wait → ∀ k, k ∉ (s.rooms r).peerMap

def Settled (s : SFLogicEntry) : Prop :=
  ∀ r, r < maxRoomCount → (s.rooms r).state ≠ .playReady ∧ (s.rooms r).state ≠ .playEnd

structure Invariant (place : PlayerRef → Option RoomRef) (s : SFLogicEntry) : Prop extends
    People s, Rooming place s, Peers place s where
  located : ∀ p, inRoom (s.players p).state = true ↔ place p ≠ none

namespace People

variable {s s' : SFLogicEntry}

theorem of_same (people : People s) (connections : s'.playerMap = s.playerMap)
    (lobby : s'.lobby = s.lobby) (pool : s'.playerPool = s.playerPool)
    (next : s'.nextPlayer = s.nextPlayer)
    (serials : ∀ q, (s'.players q).serial = (s.players q).serial)
    (none : ∀ q, (s'.players q).state = .none ↔ (s.players q).state = .none)
    (init : ∀ q, (s'.players q).state = .init ↔ (s.players q).state = .init)
    (lobbied : ∀ q, (s'.players q).state = .lobby ↔ (s.players q).state = .lobby) :
    People s' where
  connected := fun k p => by
    rw [connections, serials, Ne, none]
    exact people.connected k p
  present := fun p => by
    rw [connections, serials, Ne, none, Ne, init]
    exact people.present p
  lobby := by
    rw [lobby]
    exact people.lobby.congr (fun q => (lobbied q).symm) fun q _ => (serials q).symm
  pooled := by
    rw [pool]
    exact people.pooled
  idle := fun p => by
    rw [pool, none, next]
    exact people.idle p
  fresh := fun p => by
    rw [none, next]
    exact people.fresh p

theorem serial_injective (people : People s) {p q : PlayerRef} {k : Int}
    (left : s.playerMap[k]? = some p) (right : s.playerMap[(s.players q).serial]? = some q)
    (same : (s.players q).serial = (s.players p).serial) : q = p := by
  rw [same, (people.connected k p left).1, left] at right
  exact (Option.some.inj right).symm

theorem mem_pool (people : People s) {p : PlayerRef} (active : (s.players p).state ≠ .none) :
    p ∉ s.playerPool.queue := fun member => active (people.idle p member).1

theorem lobbyMove_lists (people : People s) {p : PlayerRef} {state : PlayerState}
    (connected : s.playerMap[(s.players p).serial]? = some p)
    (players : ∀ q, q ≠ p → (s'.players q).state = (s.players q).state)
    (serials : ∀ q, (s'.players q).serial = (s.players q).serial)
    (mine : (s'.players p).state = state) :
    Lists (lobbyMove s.lobby (s.players p).serial p (s.players p).state state)
      (fun q => (s'.players q).state = .lobby) (serialOf s'.players) := by
  have serial_same : ∀ q, serialOf s.players q = serialOf s'.players q := fun q =>
    (serials q).symm
  rw [lobbyMove]
  by_cases stays : (s.players p).state = state
  · rw [if_pos stays]
    refine people.lobby.congr (fun q => ?_) fun q _ => serial_same q
    by_cases me : q = p
    · subst me
      rw [mine, stays]
    · rw [players q me]
  · rw [if_neg stays]
    by_cases here : (s.players p).state = .lobby
    · have elsewhere : state ≠ .lobby := fun new => stays (here.trans new.symm)
      rw [if_pos here, if_neg elsewhere]
      refine (people.lobby.erase here).congr (fun q => ?_) fun q _ => serial_same q
      by_cases me : q = p
      · subst me
        rw [mine]
        exact ⟨fun both => absurd rfl both.2, fun new => absurd new elsewhere⟩
      · rw [players q me, and_iff_left me]
    · rw [if_neg here]
      by_cases entering : state = .lobby
      · rw [if_pos entering]
        have fresh (q : PlayerRef) (there : (s.players q).state = .lobby) :
            serialOf s.players q ≠ serialOf s.players p := fun same => by
          have present := people.present q (by rw [there]; decide) (by rw [there]; decide)
          exact here (people.serial_injective connected present same ▸ there)
        refine (people.lobby.insert fresh).congr (fun q => ?_) fun q _ => serial_same q
        by_cases me : q = p
        · subst me
          rw [mine]
          exact ⟨fun _ => entering, fun _ => .inr rfl⟩
        · rw [players q me, or_iff_left me]
      · rw [if_neg entering]
        refine people.lobby.congr (fun q => ?_) fun q _ => serial_same q
        by_cases me : q = p
        · subst me
          rw [mine]
          exact ⟨fun old => absurd old here, fun new => absurd new entering⟩
        · rw [players q me]

/-- A connected player changes its state, and its place in the lobby with it. -/
theorem move (people : People s) {p : PlayerRef} {state : PlayerState}
    (connected : s.playerMap[(s.players p).serial]? = some p) (active : state ≠ .none)
    (connections : s'.playerMap = s.playerMap) (pool : s'.playerPool = s.playerPool)
    (next : s'.nextPlayer = s.nextPlayer)
    (lobby : s'.lobby = lobbyMove s.lobby (s.players p).serial p (s.players p).state state)
    (players : ∀ q, q ≠ p → (s'.players q).state = (s.players q).state)
    (serials : ∀ q, (s'.players q).serial = (s.players q).serial)
    (mine : (s'.players p).state = state) : People s' where
  connected := fun k q => by
    rw [connections, serials]
    intro there
    refine ⟨(people.connected k q there).1, ?_⟩
    by_cases me : q = p
    · subst me
      rwa [mine]
    · rw [players q me]
      exact (people.connected k q there).2
  present := fun q => by
    rw [connections, serials]
    by_cases me : q = p
    · subst me
      exact fun _ _ => connected
    · rw [players q me]
      exact people.present q
  lobby := by
    rw [lobby]
    exact people.lobbyMove_lists connected players serials mine
  pooled := by
    rw [pool]
    exact people.pooled
  idle := fun q member => by
    rw [pool] at member
    have before := people.idle q member
    have other : q ≠ p := by
      rintro rfl
      exact (people.connected _ q connected).2 before.1
    rw [players q other, next]
    exact before
  fresh := fun q new => by
    rw [next] at new
    have before := people.fresh q new
    have other : q ≠ p := by
      rintro rfl
      exact (people.connected _ q connected).2 before
    rw [players q other]
    exact before

end People

namespace Rooming

variable {place : PlayerRef → Option RoomRef} {s s' : SFLogicEntry}

theorem of_same (rooming : Rooming place s) (rooms : s'.rooms = s.rooms)
    (active : s'.activeRooms = s.activeRooms) (empty : s'.emptyRooms = s.emptyRooms)
    (players : ∀ q, place q ≠ none → (s'.players q).serial = (s.players q).serial ∧
      (s'.players q).teamType = (s.players q).teamType ∧
      (s'.players q).roomIndex = (s.players q).roomIndex)
    (connected : ∀ q, place q ≠ none → s'.playerMap[(s.players q).serial]? =
      s.playerMap[(s.players q).serial]?) : Rooming place s' where
  held := rooming.held.of_same rooms active empty
    (fun q member => ⟨(players q member).1, (players q member).2.1⟩) connected
  roomIndex := fun p r member => by
    rw [(players p (by rw [member]; exact Option.some_ne_none r)).2.2]
    exact rooming.roomIndex p r member

theorem member_room (rooming : Rooming place s) {p : PlayerRef} {r : RoomRef}
    (member : place p = some r) :
    r < maxRoomCount ∧ (s.rooms r).state ≠ .none ∧ p ∈ (s.rooms r).observers := by
  have inside := (rooming.held.placed p r member).1
  have ok := rooming.held.rooms r inside
  have listed : p ∈ (s.rooms r).observers := (ok.all.mem p).mpr member
  exact ⟨inside, fun none => List.ne_nil_of_mem listed (ok.used.mp none), listed⟩

theorem members_inRoom (rooming : Rooming place s) {r : RoomRef} (inside : r < maxRoomCount)
    (located : ∀ p, place p ≠ none → inRoom (s.players p).state = true) (t : TeamType) :
    ∀ p ∈ SFRoom.members s r t, inRoom (s.players p).state = true := fun p member => by
  have there := (((rooming.held.rooms r inside).members_mem t p).mp member).1
  exact located p (by rw [there]; exact Option.some_ne_none r)

theorem of_within (rooming : Rooming place s) {r : RoomRef} {state : RoomState}
    (within : Within r state s s') (used : (s.rooms r).state ≠ .none) (uses : state ≠ .none) :
    Rooming place s' := by
  have serials (q : PlayerRef) : (s'.players q).serial = (s.players q).serial := by
    rw [within.kept q]
  have teams (q : PlayerRef) : (s'.players q).teamType = (s.players q).teamType := by
    rw [within.kept q]
  obtain ⟨mode, rooms⟩ := within.room
  refine ⟨rooming.held.of_room rooms (by rw [within.same]) (by rw [within.same])
    (by rw [within.same]) serials (fun q _ _ _ => teams q) (fun _ _ _ => .rfl)
    ⟨fun none => absurd none uses, fun none => absurd none used⟩
    (fun q => rooming.held.placed q r) fun inside => ?_, fun p k member => ?_⟩
  · have ok := rooming.held.rooms r inside
    have same := ok.congr (fun _ => .rfl) (fun p _ => (serials p).symm) fun p _ => (teams p).symm
    exact {
      all := same.all
      team := same.team
      index := ok.index
      size := ok.size
      chief := ok.chief
      used := ⟨fun none => absurd none uses, fun nobody => absurd (ok.used.mpr nobody) used⟩ }
  · rw [within.kept p]
    exact rooming.roomIndex p k member

/-- A player that is in no room joins one. -/
theorem enter (rooming : Rooming place s) {r : RoomRef} {p : PlayerRef} {room : SFRoom}
    (inside : r < maxRoomCount) (outside : place p = none)
    (connected : s.playerMap[(s.players p).serial]? = some p)
    (free : (s.rooms r).observers.length < maxRoomMember)
    (players : ∀ q, (s'.players q).serial = (s.players q).serial ∧ (q ≠ p →
      (s'.players q).teamType = (s.players q).teamType ∧
      (s'.players q).roomIndex = (s.players q).roomIndex))
    (mine : (s'.players p).roomIndex = r)
    (rooms : s'.rooms = Function.update s.rooms r room)
    (joins : room = { joined (s.rooms r) p (s.players p).serial (s'.players p).teamType with
      state := room.state, roomChief := room.roomChief, gameMode := room.gameMode,
      currentGameMode := room.currentGameMode })
    (state : room.state ≠ .none)
    (chief : (s.rooms r).state ≠ .none ∧ room.roomChief = (s.rooms r).roomChief ∨
      room.roomChief = some p)
    (active : Lists s'.activeRooms (fun k => k < maxRoomCount ∧ (s'.rooms k).state ≠ .none) id)
    (empty : Lists s'.emptyRooms (fun k => k < maxRoomCount ∧ (s'.rooms k).state = .none) id)
    (connections : s'.playerMap = s.playerMap) :
    Rooming (Function.update place p (some r)) s' := by
  have ok := rooming.held.rooms r inside
  have other {q : PlayerRef} {k : RoomRef} (member : place q = some k) : q ≠ p := by
    rintro rfl
    rw [outside] at member
    contradiction
  have members (q : PlayerRef) :
      (place q = some r ∨ q = p) ↔ Function.update place p (some r) q = some r := by
    by_cases me : q = p
    · subst me
      simp
    · rw [Function.update_of_ne me, or_iff_left me]
  have holds := (ok.join (by rw [outside]; exact (Option.some_ne_none r).symm)
    (fun q => (players q).1) (fun q not_me => ((players q).2 not_me).1)
    fun q member => rooming.held.serial_fresh connected outside member).congr members
      (fun _ _ => rfl) fun _ _ => rfl
  have observers : room.observers = (s.rooms r).observers ++ [p] := by rw [joins]; rfl
  refine ⟨rooming.held.replace rooms active empty connections (fun q => (players q).1)
    (fun q k member _ => ((players q).2 (other member)).1) (fun q k not_here => ?_)
    (fun q member => ⟨inside, ?_⟩) fun _ => ?_, fun q k member => ?_⟩
  · by_cases me : q = p
    · subst me
      rw [Function.update_self, outside]
      exact ⟨fun same => absurd (Option.some.inj same).symm not_here,
        fun never => absurd never.symm (Option.some_ne_none k)⟩
    · rw [Function.update_of_ne me]
  · rcases (members q).mpr member with there | rfl
    · exact (rooming.held.placed q r there).2
    · exact connected
  · exact {
      all := by rw [joins]; exact holds.all
      team := by rw [joins]; exact holds.team
      index := by rw [joins]; exact ok.index
      size := by
        rw [observers, List.length_append, List.length_singleton]
        exact free
      chief := fun _ => by
        rcases chief with ⟨used, same⟩ | mine
        · obtain ⟨c, is, member⟩ := ok.chief fun nobody => used (ok.used.mpr nobody)
          exact ⟨c, same.trans is, (members c).mp (.inl member)⟩
        · exact ⟨p, mine, (members p).mp (.inr rfl)⟩
      used := ⟨fun none => absurd none state, fun nobody => by
        rw [observers] at nobody
        exact absurd nobody (List.append_ne_nil_of_right_ne_nil _ (List.cons_ne_nil p []))⟩ }
  · by_cases me : q = p
    · subst me
      rw [Function.update_self] at member
      rw [← Option.some.inj member]
      exact_mod_cast mine
    · rw [Function.update_of_ne me] at member
      rw [((players q).2 me).2]
      exact rooming.roomIndex q k member

/-- A member leaves its room, whatever becomes of the room. -/
theorem leave (rooming : Rooming place s) {r : RoomRef} {p : PlayerRef} {room : SFRoom}
    (member : place p = some r)
    (players : ∀ q, (s'.players q).serial = (s.players q).serial ∧
      (s'.players q).teamType = (s.players q).teamType ∧
      (s'.players q).roomIndex = (s.players q).roomIndex)
    (rooms : s'.rooms = Function.update s.rooms r room)
    (leaves : room = { withdrawn (s.rooms r) p (s.players p).serial (s.players p).teamType with
      state := room.state, roomChief := room.roomChief,
      currentGameMode := room.currentGameMode })
    (chief : room.observers ≠ [] → ∃ q, room.roomChief = some q ∧ place q = some r ∧ q ≠ p)
    (used : room.state = .none ↔ room.observers = [])
    (active : Lists s'.activeRooms (fun k => k < maxRoomCount ∧ (s'.rooms k).state ≠ .none) id)
    (empty : Lists s'.emptyRooms (fun k => k < maxRoomCount ∧ (s'.rooms k).state = .none) id)
    (connections : s'.playerMap = s.playerMap) :
    Rooming (Function.update place p none) s' := by
  have inside := (rooming.held.placed p r member).1
  have ok := rooming.held.rooms r inside
  have members (q : PlayerRef) (k : RoomRef) :
      Function.update place p none q = some k ↔ place q = some k ∧ q ≠ p := by
    by_cases me : q = p
    · subst me
      simp
    · rw [Function.update_of_ne me, and_iff_left me]
  have holds := (ok.withdraw member).congr (fun q => (members q r).symm)
    (fun q _ => (players q).1.symm) fun q _ => (players q).2.1.symm
  have observers : room.observers = (s.rooms r).observers.erase p := by rw [leaves]; rfl
  refine ⟨rooming.held.replace rooms active empty connections (fun q => (players q).1)
    (fun q _ _ _ => (players q).2.1) (fun q k not_here => ?_)
    (fun q there => rooming.held.placed q r ((members q r).mp there).1) fun _ => ?_,
    fun q k there => ?_⟩
  · rw [members, and_iff_left_iff_imp]
    rintro there rfl
    rw [member] at there
    exact not_here (Option.some.inj there).symm
  · exact {
      all := by rw [leaves]; exact holds.all
      team := by rw [leaves]; exact holds.team
      index := by rw [leaves]; exact ok.index
      size := by
        rw [observers]
        exact (List.length_erase_le ..).trans ok.size
      chief := fun somebody => by
        obtain ⟨q, is, there, not_me⟩ := chief somebody
        exact ⟨q, is, (members q r).mpr ⟨there, not_me⟩⟩
      used := used }
  · rw [(players q).2.2]
    exact rooming.roomIndex q k ((members q k).mp there).1

end Rooming

end Cgsf.Proof.Casual
