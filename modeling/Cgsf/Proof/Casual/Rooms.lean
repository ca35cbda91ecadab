import Cgsf.Library.Roster
import Cgsf.Proof.Casual.Players

/-!
# The containers of a room

`RoomOk` relates everything that a room stores to one set of members, `Held` does so for all rooms
and for the two maps of the room manager. What the rooms do is to enrol and to withdraw members.
-/

namespace Cgsf.Proof.Casual
open Cgsf.Casual Library Std

def serialOf (players : PlayerRef → SFPlayer) (p : PlayerRef) : Int := (players p).serial

def teamOf (players : PlayerRef → SFPlayer) (p : PlayerRef) : TeamType := (players p).teamType

structure RoomHolds (players : PlayerRef → SFPlayer) (room : SFRoom) (M : PlayerRef → Prop) :
    Prop where
  all : Roster room.observers room.roomMemberMap M (serialOf players)
  team : ∀ t, Roster (room.teams t).observers (room.teams t).memberMap
    (fun p => M p ∧ teamOf players p = t) (serialOf players)

structure RoomOk (players : PlayerRef → SFPlayer) (r : RoomRef) (room : SFRoom)
    (M : PlayerRef → Prop) : Prop extends RoomHolds players room M where
  index : room.roomIndex = r
  size : room.observers.length ≤ maxRoomMember
  chief : room.observers ≠ [] → ∃ p, room.roomChief = some p ∧ M p
  used : room.state = .none ↔ room.observers = []

namespace RoomHolds

variable {players players' : PlayerRef → SFPlayer} {room : SFRoom} {M : PlayerRef → Prop}

theorem congr (holds : RoomHolds players room M) {M' : PlayerRef → Prop}
    (same : ∀ p, M p ↔ M' p) (serials : ∀ p, M p → serialOf players p = serialOf players' p)
    (teams : ∀ p, M p → teamOf players p = teamOf players' p) : RoomHolds players' room M' where
  all := holds.all.congr same serials
  team := fun t => (holds.team t).congr
    (fun p => by
      rw [← same p]
      exact and_congr_right fun member => by rw [teams p member])
    (fun p both => serials p both.1)

end RoomHolds

/-- The room after `p` joined it in a team. -/
def joined (room : SFRoom) (p : PlayerRef) (serial : Int) (team : TeamType) : SFRoom :=
  { room.setTeam team fun members => members.addMember p serial with
    observers := room.observers ++ [p]
    roomMemberMap := room.roomMemberMap.insertIfNew serial p }

/-- The room after `p` left it and its team. -/
def withdrawn (room : SFRoom) (p : PlayerRef) (serial : Int) (team : TeamType) : SFRoom :=
  { room.setTeam team fun members => members.delMember p serial with
    observers := room.observers.erase p
    roomMemberMap := room.roomMemberMap.erase serial }

namespace RoomHolds

variable {players players' : PlayerRef → SFPlayer} {room : SFRoom} {M : PlayerRef → Prop}

/-- A member whose serial and team are set to `serial` and `team` joins. -/
theorem join (holds : RoomHolds players room M) {p : PlayerRef} (new : ¬ M p)
    (serials : ∀ q, serialOf players' q = serialOf players q)
    (teams : ∀ q, q ≠ p → teamOf players' q = teamOf players q)
    (fresh : ∀ q, M q → serialOf players q ≠ serialOf players p) :
    RoomHolds players' (joined room p (serialOf players p) (teamOf players' p))
      (fun q => M q ∨ q = p) where
  all := (holds.all.enroll new fresh).congr (fun _ => .rfl) fun q _ => (serials q).symm
  team := by
    have other {q : PlayerRef} (member : M q) : q ≠ p := fun same => new (same ▸ member)
    intro t
    by_cases mine : t = teamOf players' p
    · subst mine
      have absent : p ∉ (room.teams (teamOf players' p)).observers := fun member =>
        new (((holds.team _).mem p).mp member).1
      have enrolled := (holds.team (teamOf players' p)).enroll (fun both => new both.1)
        (fun q both => fresh q both.1)
      change Roster (Function.update room.teams _ _ _).observers
        (Function.update room.teams _ _ _).memberMap _ _
      rw [Function.update_self]
      simp only [SFTeam.addMember, SFSubject.addObserver, if_neg absent]
      refine enrolled.congr (fun q => ?_) fun q _ => (serials q).symm
      constructor
      · rintro (⟨member, same⟩ | rfl)
        · exact ⟨.inl member, (teams q (other member)).trans same⟩
        · exact ⟨.inr rfl, rfl⟩
      · rintro ⟨member | rfl, same⟩
        · exact .inl ⟨member, (teams q (other member)).symm.trans same⟩
        · exact .inr rfl
    · change Roster (Function.update room.teams _ _ _).observers
        (Function.update room.teams _ _ _).memberMap _ _
      rw [Function.update_of_ne mine]
      refine (holds.team t).congr (fun q => ?_) fun q _ => (serials q).symm
      constructor
      · rintro ⟨member, same⟩
        exact ⟨.inl member, (teams q (other member)).trans same⟩
      · rintro ⟨member | rfl, same⟩
        · exact ⟨member, (teams q (other member)).symm.trans same⟩
        · exact absurd same.symm mine

theorem withdraw (holds : RoomHolds players room M) {p : PlayerRef} (member : M p) :
    RoomHolds players (withdrawn room p (serialOf players p) (teamOf players p))
      (fun q => M q ∧ q ≠ p) where
  all := holds.all.withdraw member
  team := by
    intro t
    change Roster (Function.update room.teams _ _ _).observers
      (Function.update room.teams _ _ _).memberMap _ _
    by_cases mine : t = teamOf players p
    · subst mine
      rw [Function.update_self]
      exact ((holds.team _).withdraw ⟨member, rfl⟩).congr
        (fun q => by simp only [and_assoc, and_comm, and_left_comm]) fun _ _ => rfl
    · rw [Function.update_of_ne mine]
      refine (holds.team t).congr (fun q => ?_) fun _ _ => rfl
      constructor
      · rintro ⟨left, same⟩
        refine ⟨⟨left, ?_⟩, same⟩
        rintro rfl
        exact mine same.symm
      · exact fun both => ⟨both.1.1, both.2⟩

/-- A member goes from its team to another. -/
theorem move (holds : RoomHolds players room M) {p : PlayerRef} (member : M p)
    (serials : ∀ q, serialOf players' q = serialOf players q)
    (teams : ∀ q, q ≠ p → teamOf players' q = teamOf players q)
    (other : teamOf players' p ≠ teamOf players p) :
    RoomHolds players' ((room.setTeam (teamOf players p) fun members =>
      members.delMember p (serialOf players p)).setTeam (teamOf players' p) fun members =>
        members.addMember p (serialOf players p)) M where
  all := holds.all.congr (fun _ => .rfl) fun q _ => (serials q).symm
  team := by
    intro t
    change Roster (Function.update (Function.update room.teams _ _) _ _ _).observers
      (Function.update (Function.update room.teams _ _) _ _ _).memberMap _ _
    by_cases new : t = teamOf players' p
    · subst new
      have absent : p ∉ (room.teams (teamOf players' p)).observers := fun inside =>
        other (((holds.team _).mem p).mp inside).2.symm
      have enrolled := (holds.team (teamOf players' p)).enroll (fun both => other both.2.symm)
        fun q both same => by
          obtain rfl := holds.all.lists.injective both.1 member same
          exact other both.2.symm
      rw [Function.update_self]
      simp only [SFRoom.setTeam, Function.update_of_ne other, SFTeam.addMember,
        SFSubject.addObserver, if_neg absent]
      refine enrolled.congr (fun q => ?_) fun q _ => (serials q).symm
      by_cases me : q = p
      · subst me
        simp [member]
      · simp [me, teams q me]
    · rw [Function.update_of_ne new]
      by_cases old : t = teamOf players p
      · subst old
        rw [Function.update_self]
        refine ((holds.team _).withdraw ⟨member, rfl⟩).congr (fun q => ?_)
          fun q _ => (serials q).symm
        by_cases me : q = p
        · subst me
          simp [other]
        · simp [me, teams q me]
      · rw [Function.update_of_ne old]
        refine (holds.team t).congr (fun q => ?_) fun q _ => (serials q).symm
        by_cases me : q = p
        · subst me
          simp [Ne.symm new, Ne.symm old]
        · simp [teams q me]

theorem members_mem (holds : RoomHolds players room M) (t : TeamType) (p : PlayerRef) :
    p ∈ (room.teams t).members ↔ M p ∧ teamOf players p = t :=
  (holds.team t).lists.mem_values p

theorem members_nil (holds : RoomHolds players room M) (none : ∀ p, ¬ M p) (t : TeamType) :
    (room.teams t).members = [] :=
  List.eq_nil_iff_forall_not_mem.mpr fun p member => none p ((holds.members_mem t p).mp member).1

end RoomHolds

/-- All rooms hold who `place` says is in them, and the room manager knows which are in use. -/
structure Held (place : PlayerRef → Option RoomRef) (s : SFLogicEntry) : Prop where
  rooms : ∀ r, r < maxRoomCount → RoomOk s.players r (s.rooms r) (fun p => place p = some r)
  active : Lists s.activeRooms (fun r => r < maxRoomCount ∧ (s.rooms r).state ≠ .none) id
  empty : Lists s.emptyRooms (fun r => r < maxRoomCount ∧ (s.rooms r).state = .none) id
  placed : ∀ p r, place p = some r →
    r < maxRoomCount ∧ s.playerMap[(s.players p).serial]? = some p

namespace Held

variable {place : PlayerRef → Option RoomRef} {s s' : SFLogicEntry}

/-- Only the serials and teams of players matter. -/
theorem of_same (held : Held place s) (rooms : s'.rooms = s.rooms)
    (active : s'.activeRooms = s.activeRooms) (empty : s'.emptyRooms = s.emptyRooms)
    (players : ∀ q, place q ≠ none → (s'.players q).serial = (s.players q).serial ∧
      (s'.players q).teamType = (s.players q).teamType)
    (connected : ∀ q, place q ≠ none → s'.playerMap[(s.players q).serial]? =
      s.playerMap[(s.players q).serial]?) : Held place s' where
  rooms := fun r inside => by
    have ok := held.rooms r inside
    rw [rooms]
    exact { ok with
      toRoomHolds := ok.congr (fun _ => .rfl)
        (fun p member => (players p (by rw [member]; exact Option.some_ne_none r)).1.symm)
        (fun p member => (players p (by rw [member]; exact Option.some_ne_none r)).2.symm) }
  active := by rw [active, rooms]; exact held.active
  empty := by rw [empty, rooms]; exact held.empty
  placed := fun p r at_room => by
    have somewhere : place p ≠ none := by rw [at_room]; exact Option.some_ne_none r
    rw [(players p somewhere).1, connected p somewhere]
    exact held.placed p r at_room

theorem serial_fresh (held : Held place s) {p q : PlayerRef} {r : RoomRef}
    (connected : s.playerMap[(s.players p).serial]? = some p) (outside : place p = none)
    (member : place q = some r) : serialOf s.players q ≠ serialOf s.players p := by
  intro same
  have there := (held.placed q r member).2
  rw [show (s.players q).serial = (s.players p).serial from same, connected] at there
  obtain rfl := Option.some.inj there
  rw [outside] at member
  contradiction

/-- A change of one room. -/
theorem replace (held : Held place s) {place' : PlayerRef → Option RoomRef} {r : RoomRef}
    {room : SFRoom} (rooms : s'.rooms = Function.update s.rooms r room)
    (active : Lists s'.activeRooms (fun k => k < maxRoomCount ∧ (s'.rooms k).state ≠ .none) id)
    (empty : Lists s'.emptyRooms (fun k => k < maxRoomCount ∧ (s'.rooms k).state = .none) id)
    (connected : s'.playerMap = s.playerMap)
    (serials : ∀ q, (s'.players q).serial = (s.players q).serial)
    (teams : ∀ q r', place q = some r' → r' ≠ r →
      (s'.players q).teamType = (s.players q).teamType)
    (others : ∀ q r', r' ≠ r → (place' q = some r' ↔ place q = some r'))
    (placed : ∀ q, place' q = some r →
      r < maxRoomCount ∧ s.playerMap[(s.players q).serial]? = some q)
    (ok : r < maxRoomCount → RoomOk s'.players r room (fun p => place' p = some r)) :
    Held place' s' where
  rooms := fun k inside => by
    rw [rooms]
    by_cases here : k = r
    · subst here
      rw [Function.update_self]
      exact ok inside
    · rw [Function.update_of_ne here]
      have before := held.rooms k inside
      have holds := before.congr (fun p => (others p k here).symm)
        (fun p _ => (serials p).symm) fun p member => (teams p k member here).symm
      refine ⟨holds, before.index, before.size, fun some => ?_, before.used⟩
      obtain ⟨chief, is, member⟩ := before.chief some
      exact ⟨chief, is, (others chief k here).mpr member⟩
  active := active
  empty := empty
  placed := fun p k member => by
    rw [serials, connected]
    by_cases here : k = r
    · subst here
      exact placed p member
    · exact held.placed p k ((others p k here).mp member)

/-- A change of one room that leaves its state alone. -/
theorem of_room (held : Held place s) {place' : PlayerRef → Option RoomRef} {r : RoomRef}
    {room : SFRoom} (rooms : s'.rooms = Function.update s.rooms r room)
    (active : s'.activeRooms = s.activeRooms) (empty : s'.emptyRooms = s.emptyRooms)
    (connected : s'.playerMap = s.playerMap)
    (serials : ∀ q, (s'.players q).serial = (s.players q).serial)
    (teams : ∀ q r', place q = some r' → r' ≠ r →
      (s'.players q).teamType = (s.players q).teamType)
    (others : ∀ q r', r' ≠ r → (place' q = some r' ↔ place q = some r'))
    (state : room.state = .none ↔ (s.rooms r).state = .none)
    (placed : ∀ q, place' q = some r →
      r < maxRoomCount ∧ s.playerMap[(s.players q).serial]? = some q)
    (ok : r < maxRoomCount → RoomOk s'.players r room (fun p => place' p = some r)) :
    Held place' s' := by
  have states (k : RoomRef) : (s'.rooms k).state = .none ↔ (s.rooms k).state = .none := by
    rw [rooms]
    by_cases here : k = r
    · subst here
      rw [Function.update_self]
      exact state
    · rw [Function.update_of_ne here]
  refine held.replace rooms ?_ ?_ connected serials teams others placed ok
  · rw [active]
    exact held.active.congr (fun k => and_congr_right fun _ => not_congr (states k).symm)
      fun _ _ => rfl
  · rw [empty]
    exact held.empty.congr (fun k => and_congr_right fun _ => (states k).symm) fun _ _ => rfl

end Held

end Cgsf.Proof.Casual
