import Cgsf.Casual.Games

/-!
# What the games keep

One event changes at most one room and the players in it, so an invariant of each room and its
members has to be looked at in that room only.
-/

namespace Cgsf.Proof.Casual
open Cgsf.Casual Hall

variable {h h' : Hall} {event : Event} {r : RoomRef}

/-- A property of a room and of the players in it. -/
def Local (P : RoomView → (PlayerRef → PlayerView) → Prop) : Prop :=
  ∀ room f g, (∀ q ∈ room.members, f q = g q) → P room f → P room g

variable {P : RoomView → (PlayerRef → PlayerView) → Prop}

theorem Local.sets (isLocal : Local P) (seating : h.Seating) {room : RoomView}
    {apart : PlayerRef → Prop} (inside : r < maxRoomCount)
    (old : ∀ k, k < maxRoomCount → P (h.rooms k) h.players) (sets : h.Sets h' r room)
    (spared : h.Spared h' apart) (here : ∀ q, apart q → q ∈ (h.rooms r).members)
    (new : P room h'.players) : ∀ k, k < maxRoomCount → P (h'.rooms k) h'.players := by
  intro k below
  rw [sets]
  by_cases same : k = r
  · subst same
    rw [Function.update_self]
    exact new
  · rw [Function.update_of_ne same]
    refine isLocal _ _ _ (fun q member => ?_) (old k below)
    refine (spared.players q ⟨k, below, member⟩ fun away => ?_).symm
    exact same (seating.alone k r q below inside member (here q away))

theorem Local.keeps (isLocal : Local P) (old : ∀ k, k < maxRoomCount → P (h.rooms k) h.players)
    (rooms : h'.rooms = h.rooms) (spared : h.Spared h' fun _ => False) :
    ∀ k, k < maxRoomCount → P (h'.rooms k) h'.players := by
  intro k below
  rw [rooms]
  exact isLocal _ _ _ (fun q member => (spared.players q ⟨k, below, member⟩ id).symm) (old k below)

theorem sets_of_same (rooms : h'.rooms = h.rooms) (r : RoomRef) : h.Sets h' r (h.rooms r) := by
  rw [Sets, rooms, Function.update_eq_self]

theorem spared_member {apart : PlayerRef → Prop} (spared : h.Spared h' apart)
    (inside : r < maxRoomCount) {q : PlayerRef} (member : q ∈ (h.rooms r).members)
    (not : ¬apart q) : h'.players q = h.players q :=
  spared.players q ⟨r, inside, member⟩ not

theorem move_gameModes (move : Move event h h') : h'.gameModes = h.gameModes := by
  cases move with
  | idle _ spared | opens _ _ _ _ _ _ _ spared _ | enters _ _ _ _ _ spared _
  | starts _ _ _ _ _ spared _ | completes _ _ _ _ _ _ _ spared _ _
  | begins _ _ _ _ _ _ _ _ spared _ | joins _ _ _ _ _ _ _ _ spared _
  | leaves _ _ _ _ _ _ spared => exact spared.modes

/-! ## Phases -/

theorem phased_local :
    Local fun room players => ∀ p ∈ room.members, Fits room.state (players p) := by
  intro room f g same old p member
  rw [← same p member]
  exact old p member

theorem move_phased (seating : h.Seating) (phased : h.Phased) (move : Move event h h') :
    h'.Phased := by
  cases move with
  | idle rooms spared => exact phased_local.keeps phased rooms spared
  | opens p r gameMode inside outside unused room spared mine =>
      refine phased_local.sets seating inside phased room spared (fun _ => False.elim) ?_
      intro q member
      rw [List.mem_singleton.mp member]
      exact mine
  | enters p r inside outside room spared mine =>
      refine phased_local.sets seating inside phased room spared (fun _ => False.elim) ?_
      intro q member
      rcases List.mem_append.mp member with old | new
      · rw [spared_member spared inside old id]
        exact phased r inside q old
      · rw [List.mem_singleton.mp new]
        rcases mine with ⟨waits, entered⟩ | ⟨plays, loading, begun⟩
        · simp only [waits]
          exact entered
        · simp only [plays]
          exact .inr ⟨loading, begun⟩
  | starts r inside waits somebody room spared all =>
      refine phased_local.sets seating inside phased room spared (fun _ => id) ?_
      intro q member
      rw [all q member]
      exact rfl
  | completes p r inside asked member loading room spared mine waits =>
      refine phased_local.sets seating inside phased room spared (fun q me => me ▸ member) ?_
      intro q there
      have before := phased r inside q there
      simp only [Hall.withPeer, loading] at before ⊢
      by_cases me : q = p
      · subst me
        rw [mine]
        exact before
      · rw [spared_member spared inside there me]
        exact before
  | begins p r inside asked member loading ready room spared all =>
      refine phased_local.sets seating inside phased room spared (fun _ => id) ?_
      intro q there
      rw [all q there]
      exact .inl rfl
  | joins p r inside asked member plays loading rooms spared mine =>
      refine phased_local.sets seating inside phased (sets_of_same rooms r) spared
        (fun q me => me ▸ member) ?_
      intro q there
      by_cases me : q = p
      · subst me
        rw [mine, plays]
        exact .inl rfl
      · rw [spared_member spared inside there me]
        exact phased r inside q there
  | leaves p r inside member lost room spared =>
      refine phased_local.sets seating inside phased room spared (fun q me => me ▸ member) ?_
      intro q there
      obtain ⟨other, old⟩ := (seating.nodup r inside).mem_erase_iff.mp there
      rw [if_neg (List.ne_nil_of_mem there), spared_member spared inside old other]
      exact phased r inside q old

/-! ## Loading -/

theorem alive_local : Local fun room players => room.state = .loading →
    ∃ p ∈ room.members, (players p).loadingComplete = false := by
  intro room f g same old loading
  obtain ⟨p, member, loads⟩ := old loading
  exact ⟨p, member, same p member ▸ loads⟩

theorem move_loadingAlive (seating : h.Seating) (alive : h.LoadingAlive)
    (allowed : h.LeavesLoader event) (move : Move event h h') : h'.LoadingAlive := by
  cases move with
  | idle rooms spared => exact alive_local.keeps alive rooms spared
  | opens p r gameMode inside outside unused room spared mine =>
      exact alive_local.sets seating inside alive room spared (fun _ => False.elim) nofun
  | enters p r inside outside room spared mine =>
      refine alive_local.sets seating inside alive room spared (fun _ => False.elim) ?_
      -- Nobody enters while the room is loading.
      intro loading
      rcases mine with ⟨waits, -⟩ | ⟨plays, -⟩
      · exact absurd (waits.symm.trans loading) nofun
      · exact absurd (plays.symm.trans loading) nofun
  | starts r inside waits somebody room spared all =>
      refine alive_local.sets seating inside alive room spared (fun _ => id) fun _ => ?_
      obtain ⟨q, member⟩ := List.exists_mem_of_ne_nil _ somebody
      exact ⟨q, member, congrArg PlayerView.loadingComplete (all q member)⟩
  | completes p r inside asked member loading room spared mine waits =>
      exact alive_local.sets seating inside alive room spared (fun q me => me ▸ member) fun _ => waits
  | begins p r inside asked member loading ready room spared all =>
      exact alive_local.sets seating inside alive room spared (fun _ => id) nofun
  | joins p r inside asked member plays loading rooms spared mine =>
      refine alive_local.sets seating inside alive (sets_of_same rooms r) spared
        (fun q me => me ▸ member) ?_
      intro loading
      exact absurd (plays.symm.trans loading) nofun
  | leaves p r inside member lost room spared =>
      refine alive_local.sets seating inside alive room spared (fun q me => me ▸ member) ?_
      intro loading
      by_cases empty : (h.rooms r).members.erase p = []
      · simp only [empty, if_pos] at loading
        cases loading
      · simp only [if_neg empty] at loading
        obtain nobody | ⟨q, there, loads⟩ := allowed p (lost loading) r inside member loading
        · exact absurd nobody empty
        · obtain ⟨other, old⟩ := (seating.nodup r inside).mem_erase_iff.mp there
          exact ⟨q, there, by rw [spared_member spared inside old other, loads]⟩

/-! ## Peers -/

theorem peers_local : Local fun room players => ∀ k, room.listed k ↔
    ∃ p ∈ room.members, (players p).serial = k ∧ HasLoaded (players p) := by
  intro room f g same old k
  rw [old k]
  refine exists_congr fun p => and_congr_right fun member => ?_
  rw [same p member]

theorem listed_nobody (peers : h.PeersLoaded) (inside : r < maxRoomCount)
    (loads : ∀ p ∈ (h.rooms r).members, ¬HasLoaded (h.players p)) (k : Int) :
    ¬(h.rooms r).listed k := by
  rw [peers r inside k]
  rintro ⟨p, member, -, loaded⟩
  exact loads p member loaded

/-- One more member has loaded, and the others are as they were. -/
theorem withPeer_listed (peers : h.PeersLoaded) (inside : r < maxRoomCount) {p : PlayerRef}
    (member : p ∈ (h.rooms r).members)
    (serials : ∀ q ∈ (h.rooms r).members, (h'.players q).serial = (h.players q).serial)
    (mine : HasLoaded (h'.players p)) (others : ∀ q ∈ (h.rooms r).members, q ≠ p →
      (HasLoaded (h'.players q) ↔ HasLoaded (h.players q))) (k : Int) :
    (h.withPeer r p).listed k ↔
      ∃ q ∈ (h.rooms r).members, (h'.players q).serial = k ∧ HasLoaded (h'.players q) := by
  simp only [Hall.withPeer]
  rw [peers r inside k]
  constructor
  · rintro (rfl | ⟨q, there, serial, loaded⟩)
    · exact ⟨p, member, serials p member, mine⟩
    · refine ⟨q, there, (serials q there).trans serial, ?_⟩
      by_cases me : q = p
      · exact me ▸ mine
      · exact (others q there me).mpr loaded
  · rintro ⟨q, there, serial, loaded⟩
    rw [serials q there] at serial
    by_cases me : q = p
    · exact .inl (me ▸ serial.symm)
    · exact .inr ⟨q, there, serial, (others q there me).mp loaded⟩

theorem move_peersLoaded (seating : h.Seating) (phased : h.Phased) (peers : h.PeersLoaded)
    (allowed : h.LoadsInTime event) (move : Move event h h') : h'.PeersLoaded := by
  cases move with
  | idle rooms spared => exact peers_local.keeps peers rooms spared
  | opens p r gameMode inside outside unused room spared mine =>
      refine peers_local.sets seating inside peers room spared (fun _ => False.elim) fun k => ?_
      have empty (q : PlayerRef) (there : q ∈ (h.rooms r).members) : ¬HasLoaded (h.players q) := by
        have fits := phased r inside q there
        rw [unused] at fits
        exact fits.elim
      refine iff_of_false (listed_nobody peers inside empty k) ?_
      rintro ⟨q, there, -, loaded⟩
      rw [List.mem_singleton.mp there, HasLoaded, mine] at loaded
      rcases loaded with plays | ⟨loading, -⟩
      · cases plays
      · cases loading
  | enters p r inside outside room spared mine =>
      refine peers_local.sets seating inside peers room spared (fun _ => False.elim) fun k => ?_
      rw [peers r inside k]
      have fresh : ¬HasLoaded (h'.players p) := by
        rw [HasLoaded]
        rcases mine with ⟨-, entered⟩ | ⟨-, loading, begun⟩
        · simp [entered]
        · simp [loading, begun]
      constructor
      · rintro ⟨q, there, same⟩
        refine ⟨q, List.mem_append_left _ there, ?_⟩
        rw [spared_member spared inside there id]
        exact same
      · rintro ⟨q, there, serial, loaded⟩
        rcases List.mem_append.mp there with old | new
        · rw [spared_member spared inside old id] at serial loaded
          exact ⟨q, old, serial, loaded⟩
        · exact absurd (List.mem_singleton.mp new ▸ loaded) fresh
  | starts r inside waits somebody room spared all =>
      refine peers_local.sets seating inside peers room spared (fun _ => id) fun k => ?_
      have waiting (q : PlayerRef) (there : q ∈ (h.rooms r).members) : ¬HasLoaded (h.players q) := by
        have fits := phased r inside q there
        rw [waits] at fits
        have entered : (h.players q).state = .room := fits
        simp [HasLoaded, entered]
      refine iff_of_false (listed_nobody peers inside waiting k) ?_
      rintro ⟨q, there, -, loaded⟩
      simp [all q there, HasLoaded] at loaded
  | completes p r inside asked member loading room spared mine waits =>
      refine peers_local.sets seating inside peers room spared (fun q me => me ▸ member) ?_
      have before : (h.players p).state = .loading := by
        have fits := phased r inside p member
        rw [loading] at fits
        exact fits
      refine withPeer_listed peers inside member (fun q there => ?_) ?_ fun q there other => ?_
      · by_cases me : q = p
        · rw [me, mine]
        · rw [spared_member spared inside there me]
      · rw [mine]
        exact .inr ⟨before, rfl⟩
      · rw [spared_member spared inside there other]
  | begins p r inside asked member loading ready room spared all =>
      refine peers_local.sets seating inside peers room spared (fun _ => id) ?_
      have loaded (q : PlayerRef) (there : q ∈ (h.rooms r).members) : HasLoaded (h'.players q) := by
        rw [all q there]
        exact .inl rfl
      refine withPeer_listed peers inside member (fun q there => ?_) (loaded p member)
        fun q there other => iff_of_true (loaded q there) ?_
      · rw [all q there]
      · have fits := phased r inside q there
        rw [loading] at fits
        exact .inr ⟨fits, ready q there other⟩
  | joins p r inside asked member plays loading rooms spared mine =>
      exact absurd plays (allowed p asked loading r inside member)
  | leaves p r inside member lost room spared =>
      refine peers_local.sets seating inside peers room spared (fun q me => me ▸ member) fun k => ?_
      change k ≠ _ ∧ (h.rooms r).listed k ↔ _
      rw [peers r inside k]
      constructor
      · rintro ⟨other, q, there, rfl, loaded⟩
        have not_me : q ≠ p := fun me => other (by rw [me])
        refine ⟨q, (seating.nodup r inside).mem_erase_iff.mpr ⟨not_me, there⟩, ?_⟩
        rw [spared_member spared inside there not_me]
        exact ⟨rfl, loaded⟩
      · rintro ⟨q, there, rfl, loaded⟩
        obtain ⟨other, old⟩ := (seating.nodup r inside).mem_erase_iff.mp there
        rw [spared_member spared inside old other] at loaded ⊢
        exact ⟨fun same => other (seating.serials r inside q old p member same), q, old, rfl, loaded⟩

/-! ## Game modes -/

theorem move_modesValid (seating : h.Seating) (valid : h.ModesValid)
    (allowed : h.StartsRegistered event) (move : Move event h h') : h'.ModesValid := by
  have modes := move_gameModes move
  have isLocal : Local fun room _ => room.state = .play →
      room.currentGameMode = some room.gameMode ∧ room.gameMode ∈ h.gameModes :=
    fun _ _ _ _ => id
  rw [ModesValid, modes]
  cases move with
  | idle rooms spared => exact isLocal.keeps valid rooms spared
  | opens p r gameMode inside outside unused room spared mine =>
      exact isLocal.sets seating inside valid room spared (fun _ => False.elim) nofun
  | enters p r inside outside room spared mine =>
      exact isLocal.sets seating inside valid room spared (fun _ => False.elim) (valid r inside)
  | starts r inside waits somebody room spared all =>
      exact isLocal.sets seating inside valid room spared (fun _ => id) nofun
  | completes p r inside asked member loading room spared mine waits =>
      exact isLocal.sets seating inside valid room spared (fun q me => me ▸ member) (valid r inside)
  | begins p r inside asked member loading ready room spared all =>
      have registered := allowed p asked r inside member loading ready
      exact isLocal.sets seating inside valid room spared (fun _ => id)
        fun _ => ⟨if_pos registered, registered⟩
  | joins p r inside asked member plays loading rooms spared mine =>
      exact isLocal.sets seating inside valid (sets_of_same rooms r) spared
        (fun q me => me ▸ member) (valid r inside)
  | leaves p r inside member lost room spared =>
      refine isLocal.sets seating inside valid room spared (fun q me => me ▸ member) ?_
      intro plays
      by_cases empty : (h.rooms r).members.erase p = []
      · simp only [empty, if_pos] at plays
        cases plays
      · simp only [if_neg empty] at plays
        exact valid r inside plays

end Cgsf.Proof.Casual
