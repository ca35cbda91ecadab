import Cgsf.Proof.MOGame.Regions

/-!
# Who is near

Every entity is in the zone of its place, from one update to the next. So a loop over the zones
around a place misses nobody, and what left a zone in the last update is found through the zones
that it went to.
-/

namespace Cgsf.Proof.MOGame.MapComposite
open Cgsf.MOGame Library

variable {E : Type} (type : E → EntityType)

/-- The entities that are kept in a zone. -/
def members (entities : List E) (zone : E → Nat) (i : Nat) : List E :=
  entities.filter fun e => (type e).isVisible && zone e == i

/-- Every entity is in its zone, and the zones have nobody else. -/
structure Placed (m : MapContent E) (zone : E → Nat) : Prop where
  size : m.zones.length = m.mapWidth * m.mapHeight
  nodup : m.entities.Nodup
  holds : ∀ i z, m.zones[i]? = some z → Holds type z (members type m.entities zone i)
  inside : ∀ e ∈ m.entities, zone e < m.zones.length
  sorted : ∀ z ∈ m.zones, z.destinations.Pairwise (· < ·)
  targets : ∀ z ∈ m.zones, ∀ j ∈ z.destinations, j < m.zones.length

variable {type} {m : MapContent E} {zone : E → Nat}

theorem Holds.bounds {z : MapZone E} {entities : List E} (holds : Holds type z entities)
    (t : IteratorType) : t.first z ≤ t.last z ∧ t.last z ≤ z.objects.length := by
  obtain ⟨_, _, _, layout, -⟩ := holds
  exact layout.bounds t

theorem Holds.withDestinations {z : MapZone E} {entities : List E} (holds : Holds type z entities)
    (destinations : MapRegion) : Holds type { z with destinations } entities := by
  obtain ⟨characters, movers, fixed, ⟨objects, nbCharacters, nbMovingObjects⟩, rest⟩ := holds
  exact ⟨characters, movers, fixed, ⟨objects, nbCharacters, nbMovingObjects⟩, rest⟩

theorem Placed.ready (placed : Placed type m zone) {region : MapRegion}
    (exist : ∀ i ∈ region, i < m.mapWidth * m.mapHeight) : Ready m region := by
  refine ⟨fun z member t => ?_, fun i member => ?_⟩
  · obtain ⟨i, less, rfl⟩ := List.getElem_of_mem member
    exact (placed.holds i _ (List.getElem?_eq_getElem less)).bounds t
  · rw [placed.size]
    rw [path] at member
    split at member
    · exact List.mem_range.mp member
    · exact exist i member

theorem nodup_path {region : MapRegion} (sorted : region.Pairwise (· < ·)) :
    (path m region).Nodup := by
  rw [path]
  split
  · exact List.nodup_range
  · exact sorted.imp Nat.ne_of_lt

theorem Placed.seen (placed : Placed type m zone) (t : IteratorType) {i : Nat}
    (less : i < m.zones.length) :
    (seen m t i).Perm (ofKind type (passes t) (members type m.entities zone i)) := by
  have there := List.getElem?_eq_getElem less
  rw [MapComposite.seen, List.getD_eq_getElem?_getD, there]
  exact (placed.holds i _ there).slice t

theorem mem_members {entities : List E} {i : Nat} {e : E} :
    e ∈ members type entities zone i ↔ e ∈ entities ∧ (type e).isVisible = true ∧ zone e = i := by
  rw [members, List.mem_filter, Bool.and_eq_true, beq_iff_eq]

theorem mem_ofKind {kind : EntityType → Bool} {entities : List E} {e : E} :
    e ∈ ofKind type kind entities ↔ e ∈ entities ∧ kind (type e) = true :=
  List.mem_filter

/-- A loop over a region sees every entity of its kind that is in one of the zones, once. -/
theorem Placed.visitAll (placed : Placed type m zone) (t : IteratorType) {region : MapRegion}
    (sorted : region.Pairwise (· < ·)) (exist : ∀ i ∈ region, i < m.mapWidth * m.mapHeight)
    (some : m.zones ≠ []) :
    ∃ seen, m.visitAll t region = .some seen ∧ seen.Nodup ∧
      ∀ e, e ∈ seen ↔ e ∈ m.entities ∧ (type e).isVisible = true ∧ passes t (type e) = true ∧
        (region = [] ∨ zone e ∈ region) := by
  have ready := placed.ready exist
  have step : path m region ≠ [] := by
    rw [path]
    split
    · rw [Ne, List.range_eq_nil, ← placed.size]
      exact fun none => some (List.eq_nil_of_length_eq_zero none)
    · assumption
  have member (i : Nat) (there : i ∈ path m region) (e : E) :
      e ∈ MapComposite.seen m t i ↔
        e ∈ m.entities ∧ (type e).isVisible = true ∧ passes t (type e) = true ∧ zone e = i := by
    rw [(placed.seen t (ready.exist i there)).mem_iff, mem_ofKind, mem_members]
    tauto
  refine ⟨_, visitAll_spec ready step, ?_, fun e => ?_⟩
  · rw [List.nodup_flatMap]
    refine ⟨fun i there => ?_, (nodup_path sorted).imp_of_mem fun there there' other e left right => ?_⟩
    · rw [(placed.seen t (ready.exist i there)).nodup_iff]
      exact (placed.nodup.filter _).filter _
    · exact other (((member _ there e).mp left).2.2.2.symm.trans ((member _ there' e).mp right).2.2.2)
  · rw [List.mem_flatMap]
    constructor
    · rintro ⟨i, there, seen⟩
      obtain ⟨present, visible, kind, rfl⟩ := (member i there e).mp seen
      refine ⟨present, visible, kind, ?_⟩
      rw [path] at there
      split at there
      · exact .inl ‹_›
      · exact .inr there
    · rintro ⟨present, visible, kind, near⟩
      have there : zone e ∈ path m region := by
        rw [path]
        split
        · rw [List.mem_range, ← placed.size]
          exact placed.inside e present
        · exact near.resolve_left ‹_›
      exact ⟨zone e, there, (member _ there e).mpr ⟨present, visible, kind, rfl⟩⟩

/-! ## What moves an entity -/

section members

variable {entities : List E} {e : E} {i k : Nat}

theorem members_cons_pos (visible : (type e).isVisible = true) (here : zone e = i) :
    members type (e :: entities) zone i = e :: members type entities zone i :=
  List.filter_cons_of_pos (by rw [visible, here, BEq.rfl]; rfl)

theorem members_cons_neg (away : (type e).isVisible = true → zone e ≠ i) :
    members type (e :: entities) zone i = members type entities zone i := by
  refine List.filter_cons_of_neg ?_
  rw [Bool.and_eq_true, beq_iff_eq]
  exact fun both => away both.1 both.2

theorem members_perm {entities' : List E} (same : entities.Perm entities') :
    (members type entities zone i).Perm (members type entities' zone i) :=
  same.filter _

theorem members_congr {zone' : E → Nat} (same : ∀ e ∈ entities, zone' e = zone e) :
    members type entities zone' i = members type entities zone i :=
  List.filter_congr fun e member => by rw [same e member]

variable [DecidableEq E]

theorem members_update (new : e ∉ entities) :
    members type entities (Function.update zone e k) i = members type entities zone i :=
  members_congr fun _ member => Function.update_of_ne (by rintro rfl; exact new member) _ _

end members

/-- One zone is exchanged. -/
theorem Placed.setZone {i : Nat} {z z' : MapZone E} {entities : List E} {zone' : E → Nat}
    (placed : Placed type m zone) (there : m.zones[i]? = some z) (nodup : entities.Nodup)
    (holds : Holds type z' (members type entities zone' i))
    (others : ∀ k, k ≠ i → (members type m.entities zone k).Perm (members type entities zone' k))
    (inside : ∀ e ∈ entities, zone' e < m.zones.length)
    (sorted : z'.destinations.Pairwise (· < ·))
    (targets : ∀ j ∈ z'.destinations, j < m.zones.length) :
    Placed type { m.setZone i z' with entities } zone' := by
  obtain ⟨less, -⟩ := List.getElem?_eq_some_iff.mp there
  have length : (m.setZone i z').zones.length = m.zones.length := List.length_set
  refine ⟨length.trans placed.size, nodup, fun k other found => ?_, fun e member => ?_,
    fun other member => ?_, fun other member j target => ?_⟩
  · by_cases same : k = i
    · subst same
      rw [MapContent.setZone, List.getElem?_set_self less] at found
      obtain rfl := Option.some.inj found
      exact holds
    · rw [MapContent.setZone, List.getElem?_set_ne (Ne.symm same)] at found
      exact (placed.holds k other found).perm (others k same)
  · exact length ▸ inside e member
  · rcases List.mem_or_eq_of_mem_set member with old | rfl
    · exact placed.sorted other old
    · exact sorted
  · refine lt_of_lt_of_eq ?_ length.symm
    rcases List.mem_or_eq_of_mem_set member with old | rfl
    · exact placed.targets other old j target
    · exact targets j target

/-- The zones stay as they are. -/
theorem Placed.congr {entities : List E} {zone' : E → Nat} (placed : Placed type m zone)
    (nodup : entities.Nodup)
    (same : ∀ k, (members type m.entities zone k).Perm (members type entities zone' k))
    (inside : ∀ e ∈ entities, zone' e < m.zones.length) :
    Placed type { m with entities } zone' :=
  ⟨placed.size, nodup, fun k z found => (placed.holds k z found).perm (same k), inside,
    placed.sorted, placed.targets⟩

/-- Where the entities are does not matter to the zones. -/
theorem Placed.moved (placed : Placed type m zone) (position oldPosition : E → Point) :
    Placed type { m with position, oldPosition } zone :=
  ⟨placed.size, placed.nodup, placed.holds, placed.inside, placed.sorted, placed.targets⟩

/-- What was to be seen before is still there, and where somebody leaves a zone it says where to. -/
structure Follows (before after : List (MapZone E)) : Prop where
  length : after.length = before.length
  kept : ∀ (i : Nat) (z z' : MapZone E), before[i]? = some z → after[i]? = some z' →
    ∀ j ∈ z.destinations, j ∈ z'.destinations

theorem Follows.refl (zones : List (MapZone E)) : Follows zones zones :=
  ⟨rfl, fun i z z' there there' j target => by
    obtain rfl := Option.some.inj (there.symm.trans there')
    exact target⟩

theorem Follows.trans {first second third : List (MapZone E)} (before : Follows first second)
    (after : Follows second third) : Follows first third := by
  refine ⟨after.length.trans before.length, fun i z z'' there there'' j target => ?_⟩
  obtain ⟨less, -⟩ := List.getElem?_eq_some_iff.mp there''
  have middle := List.getElem?_eq_getElem (l := second) (i := i) (by rw [← after.length]; exact less)
  exact after.kept i _ z'' middle there'' j (before.kept i z _ there middle j target)

theorem Placed.clearDestinations (placed : Placed type m zone) :
    Placed type m.clearDestinations zone := by
  have length : m.clearDestinations.zones.length = m.zones.length := List.length_map _
  refine ⟨length.trans placed.size, placed.nodup, fun i z found => ?_, fun e member => ?_,
    fun z member => ?_, fun z member => ?_⟩
  · rw [MapContent.clearDestinations, List.getElem?_map] at found
    obtain ⟨z', there, rfl⟩ := Option.map_eq_some_iff.mp found
    exact (placed.holds i z' there).withDestinations []
  · exact length ▸ placed.inside e member
  · obtain ⟨z', -, rfl⟩ := List.mem_map.mp member
    exact .nil
  · obtain ⟨z', -, rfl⟩ := List.mem_map.mp member
    exact fun j target => absurd target List.not_mem_nil

variable [DecidableEq E] {e : E}

theorem Placed.insertIntoZone (placed : Placed type m zone) (new : e ∉ m.entities)
    (within : Within m (m.position e)) :
    ∃ zones, m.insertIntoZone type e = some { m with zones } ∧
      Placed type { m with zones, entities := m.entities ++ [e] }
        (Function.update zone e (m.getZone (m.position e))) := by
  set i := m.getZone (m.position e) with i_eq
  have less : i < m.zones.length := placed.size ▸ within.getZone_lt
  have nodup : (m.entities ++ [e]).Nodup :=
    placed.nodup.append (List.nodup_singleton e) (by simpa using new)
  have here : Function.update zone e i e = i := Function.update_self _ _ _
  have last (k : Nat) : (members type (e :: m.entities) (Function.update zone e i) k).Perm
      (members type (m.entities ++ [e]) (Function.update zone e i) k) :=
    members_perm (List.perm_append_singleton _ _).symm
  have away (k : Nat) (apart : (type e).isVisible = true → k ≠ i) :
      (members type m.entities zone k).Perm
        (members type (m.entities ++ [e]) (Function.update zone e i) k) := by
    refine .trans ?_ (last k)
    rw [members_cons_neg (by rw [here]; exact fun visible => (apart visible).symm),
      members_update new]
  have inside : ∀ other ∈ m.entities ++ [e], Function.update zone e i other < m.zones.length := by
    intro other member
    by_cases same : other = e
    · rw [same, here]
      exact less
    · rw [Function.update_of_ne same]
      refine placed.inside other ((List.mem_append.mp member).resolve_right ?_)
      simpa using same
  rw [MapContent.insertIntoZone]
  by_cases visible : (type e).isVisible = true
  · have there := List.getElem?_eq_getElem less
    have member := List.mem_of_getElem? there
    obtain ⟨z', inserted, same, holds⟩ := (placed.holds _ _ there).insert e
    rw [if_pos visible, ← i_eq]
    simp only [there, inserted, Option.bind_eq_bind, Option.bind_some]
    refine ⟨_, rfl, placed.setZone there nodup ?_ (fun k apart => away k fun _ => apart) inside ?_ ?_⟩
    · refine Holds.perm ?_ (last i)
      rwa [members_cons_pos visible here, members_update new]
    · exact same ▸ placed.sorted _ member
    · exact same ▸ placed.targets _ member
  · rw [if_neg visible]
    exact ⟨_, rfl, placed.congr nodup (fun k => away k fun yes => absurd yes visible) inside⟩

theorem Placed.insert (placed : Placed type m zone) (new : e ∉ m.entities) {p : Point}
    (within : Within m p) :
    ∃ zones oldPosition, m.insert type e p = some { m with
        zones, oldPosition, entities := m.entities ++ [e],
        position := Function.update m.position e p } ∧
      Placed type { m with zones, entities := m.entities ++ [e] }
        (Function.update zone e (m.getZone p)) ∧
      (∀ other ≠ e, oldPosition other = m.oldPosition other) ∧
      ((type e).canMove = true → oldPosition e = p) := by
  have here : Function.update m.position e p e = p := Function.update_self _ _ _
  obtain ⟨zones, inserted, placed'⟩ := (placed.moved (Function.update m.position e p)
    m.oldPosition).insertIntoZone new (by dsimp only; rw [here]; exact ⟨within.1, within.2⟩)
  dsimp only at placed'
  rw [here] at placed'
  refine ⟨zones, if (type e).canMove then Function.update m.oldPosition e p else m.oldPosition, ?_,
    placed'.moved m.position m.oldPosition, fun other apart => ?_, fun moves => ?_⟩
  · rw [MapContent.insert, inserted]
    rfl
  · split
    · exact Function.update_of_ne apart _ _
    · rfl
  · rw [if_pos moves]
    exact Function.update_self _ _ _

theorem Placed.remove (placed : Placed type m zone) (present : e ∈ m.entities)
    (here : zone e = m.getZone (m.position e)) :
    ∃ zones, m.remove type e = some { m with zones, entities := m.entities.erase e } ∧
      Placed type { m with zones, entities := m.entities.erase e } zone := by
  have less : m.getZone (m.position e) < m.zones.length := here ▸ placed.inside e present
  have nodup := placed.nodup.erase e
  have split := List.perm_cons_erase present
  have inside : ∀ other ∈ m.entities.erase e, zone other < m.zones.length := fun other member =>
    placed.inside other (List.mem_of_mem_erase member)
  have away (k : Nat) (apart : (type e).isVisible = true → zone e ≠ k) :
      (members type m.entities zone k).Perm (members type (m.entities.erase e) zone k) := by
    refine (members_perm split).trans ?_
    rw [members_cons_neg apart]
  rw [MapContent.remove]
  by_cases visible : (type e).isVisible = true
  · have there := List.getElem?_eq_getElem less
    have member := List.mem_of_getElem? there
    have holds := (placed.holds _ _ there).perm (members_perm split)
    rw [members_cons_pos visible here] at holds
    obtain ⟨z', removed, same, holds⟩ := holds.remove
    rw [if_pos visible]
    dsimp only
    refine ⟨m.zones.set (m.getZone (m.position e)) z', ?_, placed.setZone there nodup holds
      (fun k apart => away k fun _ => here ▸ apart.symm) inside ?_ ?_⟩
    · change (m.zones[m.getZone (m.position e)]?).bind _ = _
      rw [there, Option.bind_some, removed]
      rfl
    · exact same ▸ placed.sorted _ member
    · exact same ▸ placed.targets _ member
  · rw [if_neg visible]
    exact ⟨_, rfl, placed.congr nodup (fun k => away k fun yes => absurd yes visible) inside⟩

/-- One turn of the last loop of an update. -/
theorem Placed.changeZone (placed : Placed type m zone) (present : e ∈ m.entities)
    (source : (type e).canMove = true → zone e = m.getZone (m.oldPosition e))
    (within : Within m (m.position e)) :
    ∃ zones, m.changeZone type e = some { m with zones } ∧
      Placed type { m with zones } (if (type e).canMove
        then Function.update zone e (m.getZone (m.position e)) else zone) ∧
      Follows m.zones zones ∧
      ((type e).canMove = true → zone e ≠ m.getZone (m.position e) → ∀ z, zones[zone e]? = some z →
        m.getZone (m.position e) ∈ z.destinations) := by
  rw [MapContent.changeZone]
  by_cases moves : (type e).canMove = true
  case neg =>
    rw [if_pos (by simpa using moves), if_neg moves]
    exact ⟨m.zones, rfl, placed, .refl _, fun yes => absurd yes moves⟩
  rw [if_neg (by simpa using moves), if_pos moves, ← source moves]
  dsimp only
  by_cases same : zone e = m.getZone (m.position e)
  · rw [if_pos same, ← same, Function.update_eq_self]
    exact ⟨m.zones, rfl, placed, .refl _, fun _ other => absurd rfl other⟩
  rw [if_neg same]
  have visible : (type e).isVisible = true := by
    cases kind : type e <;> rw [kind] at moves <;> first | rfl | exact absurd moves (by decide)
  set i := zone e with i_eq
  set j := m.getZone (m.position e) with j_eq
  set rest := m.entities.erase e with rest_eq
  have split : m.entities.Perm (e :: rest) := List.perm_cons_erase present
  have new : e ∉ rest := by
    have nodup := split.nodup_iff.mp placed.nodup
    exact (List.nodup_cons.mp nodup).1
  have source : i < m.zones.length := placed.inside e present
  have target : j < m.zones.length := placed.size ▸ within.getZone_lt
  have src := List.getElem?_eq_getElem source
  have dst := List.getElem?_eq_getElem target
  -- the zone that is left
  have holds := (placed.holds _ _ src).perm (members_perm split)
  rw [members_cons_pos visible i_eq.symm] at holds
  obtain ⟨src', removed, left, holds⟩ := (holds.withDestinations
    (addZone m.zones[i].destinations j)).remove
  have placed₁ := placed.setZone src (placed.nodup.erase e) holds
    (fun k apart => (members_perm split).trans
      (.of_eq (members_cons_neg fun _ here => apart (here ▸ i_eq.symm))))
    (fun other member => placed.inside other (List.mem_of_mem_erase member))
    (left ▸ sorted_addZone (placed.sorted _ (List.mem_of_getElem? src)) j)
    (fun k member => by
      rw [left] at member
      rcases mem_addZone.mp member with rfl | old
      · exact target
      · exact placed.targets _ (List.mem_of_getElem? src) k old)
  -- the zone that is entered
  have dst₁ : (m.zones.set i src')[j]? = some m.zones[j] := by
    rw [List.getElem?_set_ne same, dst]
  have here : Function.update zone e j e = j := Function.update_self _ _ _
  obtain ⟨dst', inserted, kept, holds'⟩ := (placed₁.holds j _ dst₁).insert e
  have joined : (members type (e :: rest) (Function.update zone e j) j).Perm
      (members type m.entities (Function.update zone e j) j) := members_perm split.symm
  rw [members_cons_pos visible here, members_update new] at joined
  have placed₂ := placed₁.setZone dst₁ placed.nodup (holds'.perm joined)
    (fun k apart => by
      refine .trans (.of_eq ?_) (members_perm split.symm)
      rw [members_cons_neg fun _ => by rw [here]; exact apart.symm, members_update new])
    (fun other member => by
      change _ < (m.zones.set i src').length
      rw [List.length_set]
      by_cases it : other = e
      · rw [it, here]
        exact target
      · rw [Function.update_of_ne it]
        exact placed.inside other member)
    (kept ▸ placed.sorted _ (List.mem_of_getElem? dst))
    (fun k member => by
      change _ < (m.zones.set i src').length
      rw [List.length_set]
      rw [kept] at member
      exact placed.targets _ (List.mem_of_getElem? dst) k member)
  refine ⟨(m.zones.set i src').set j dst', ?_, placed₂, ⟨?_, ?_⟩, ?_⟩
  · rw [src]
    simp only [removed, dst, inserted, Option.bind_eq_bind, Option.bind_some]
    rfl
  · rw [List.length_set, List.length_set]
  · intro k z z' before after target' member
    by_cases entered : k = j
    · subst entered
      rw [List.getElem?_set_self (by rw [List.length_set]; exact target)] at after
      obtain rfl := Option.some.inj after
      obtain rfl := Option.some.inj (before.symm.trans dst)
      rwa [kept]
    · rw [List.getElem?_set_ne (Ne.symm entered)] at after
      by_cases leaves : k = i
      · subst leaves
        rw [List.getElem?_set_self source] at after
        obtain rfl := Option.some.inj after
        obtain rfl := Option.some.inj (before.symm.trans src)
        rw [left]
        exact mem_addZone.mpr (.inr member)
      · rw [List.getElem?_set_ne (Ne.symm leaves)] at after
        obtain rfl := Option.some.inj (before.symm.trans after)
        exact member
  · intro _ _ z found
    rw [List.getElem?_set_ne (Ne.symm same), List.getElem?_set_self source] at found
    obtain rfl := Option.some.inj found
    rw [left]
    exact mem_addZone.mpr (.inl rfl)

theorem foldlM_changeZone (es : List E) (nodup : es.Nodup) (placed : Placed type m zone)
    (present : ∀ e ∈ es, e ∈ m.entities)
    (source : ∀ e ∈ es, (type e).canMove = true → zone e = m.getZone (m.oldPosition e))
    (within : ∀ e ∈ es, Within m (m.position e)) :
    ∃ zones, es.foldlM (fun m e => m.changeZone type e) m = some { m with zones } ∧
      Placed type { m with zones } (fun e => if e ∈ es ∧ (type e).canMove = true
        then m.getZone (m.position e) else zone e) ∧
      Follows m.zones zones ∧
      ∀ e ∈ es, (type e).canMove = true → zone e ≠ m.getZone (m.position e) →
        ∀ z, zones[zone e]? = some z → m.getZone (m.position e) ∈ z.destinations := by
  induction es generalizing m zone with
  | nil =>
      refine ⟨m.zones, rfl, ?_, .refl _, fun e member => absurd member List.not_mem_nil⟩
      simpa using placed
  | cons e es ih =>
      obtain ⟨new, nodup⟩ := List.nodup_cons.mp nodup
      obtain ⟨zones₁, first, placed₁, follows₁, told₁⟩ := placed.changeZone
        (present e List.mem_cons_self) (source e List.mem_cons_self) (within e List.mem_cons_self)
      set zone₁ := if (type e).canMove = true then Function.update zone e (m.getZone (m.position e))
        else zone with zone₁_eq
      have other (e' : E) (member : e' ≠ e) : zone₁ e' = zone e' := by
        rw [zone₁_eq]
        split
        · exact Function.update_of_ne member _ _
        · rfl
      have apart (e' : E) (member : e' ∈ es) : e' ≠ e := by
        rintro rfl
        exact new member
      obtain ⟨zones, rest, placed₂, follows₂, told₂⟩ := ih (m := { m with zones := zones₁ })
        nodup placed₁ (fun e' member => present e' (List.mem_cons_of_mem _ member))
        (fun e' member => by
          rw [other e' (apart e' member)]
          exact source e' (List.mem_cons_of_mem _ member))
        (fun e' member => by
          obtain ⟨column, row⟩ := within e' (List.mem_cons_of_mem _ member)
          exact ⟨column, row⟩)
      refine ⟨zones, ?_, ?_, follows₁.trans follows₂, fun e' member moves leaves z found => ?_⟩
      · rw [List.foldlM_cons, first]
        exact rest
      · have same : (fun e' => if e' ∈ e :: es ∧ (type e').canMove = true
            then m.getZone (m.position e') else zone e') =
            fun e' => if e' ∈ es ∧ (type e').canMove = true
              then m.getZone (m.position e') else zone₁ e' := by
          funext e'
          by_cases it : e' = e
          · subst it
            by_cases moves : (type e').canMove = true
            · rw [if_pos ⟨List.mem_cons_self, moves⟩, if_neg fun both => new both.1, zone₁_eq,
                if_pos moves, Function.update_self]
            · rw [if_neg fun both => moves both.2, if_neg fun both => moves both.2, zone₁_eq,
                if_neg moves]
          · rw [other e' it]
            exact if_congr (and_congr_left' (List.mem_cons.trans (or_iff_right it))) rfl rfl
        rw [same]
        exact placed₂
      · rcases List.mem_cons.mp member with rfl | later
        · obtain ⟨less, -⟩ := List.getElem?_eq_some_iff.mp found
          have middle := List.getElem?_eq_getElem (l := zones₁) (i := zone e')
            (by rw [← follows₂.length]; exact less)
          exact follows₂.kept _ _ z middle found _ (told₁ moves leaves _ middle)
        · rw [← other e' (apart e' later)] at leaves found
          exact told₂ e' later moves leaves z found

/-! ## An update -/

theorem foldl_move (moves : E → Option Point) (es : List E) (nodup : es.Nodup) (m : MapContent E) :
    ∃ position oldPosition, es.foldl (fun m e => m.move e (moves e)) m =
        { m with position, oldPosition } ∧
      (∀ e, position e = if e ∈ es then (moves e).getD (m.position e) else m.position e) ∧
      ∀ e, oldPosition e =
        if e ∈ es ∧ (moves e).isSome = true then m.position e else m.oldPosition e := by
  induction es generalizing m with
  | nil => exact ⟨m.position, m.oldPosition, rfl, fun e => by simp, fun e => by simp⟩
  | cons e es ih =>
      obtain ⟨new, nodup⟩ := List.nodup_cons.mp nodup
      obtain ⟨position, oldPosition, rest, places, before⟩ := ih nodup (m.move e (moves e))
      have stays (e' : E) (other : e' ≠ e) : (m.move e (moves e)).position e' = m.position e' ∧
          (m.move e (moves e)).oldPosition e' = m.oldPosition e' := by
        cases moves e with
        | none => exact ⟨rfl, rfl⟩
        | some p => exact ⟨Function.update_of_ne other _ _, Function.update_of_ne other _ _⟩
      refine ⟨position, oldPosition, ?_, fun e' => ?_, fun e' => ?_⟩
      · rw [List.foldl_cons, rest]
        cases moves e <;> rfl
      · rw [places]
        by_cases same : e' = e
        · subst same
          rw [if_neg new, if_pos List.mem_cons_self]
          cases moves e' with
          | none => rfl
          | some p => exact Function.update_self _ _ _
        · rw [(stays e' same).1]
          exact if_congr (List.mem_cons.trans (or_iff_right same)).symm rfl rfl
      · rw [before]
        by_cases same : e' = e
        · subst same
          rw [if_neg fun both => new both.1]
          cases moves e' with
          | none => simp [MapContent.move]
          | some p =>
              rw [if_pos ⟨List.mem_cons_self, rfl⟩]
              exact Function.update_self _ _ _
        · rw [(stays e' same).1, (stays e' same).2]
          exact if_congr (and_congr_left' (List.mem_cons.trans (or_iff_right same)).symm) rfl rfl

/-- From one update to the next every entity is in the zone of its place. -/
structure Settled (type : E → EntityType) (m : MapContent E) : Prop where
  placed : Placed type m fun e => m.getZone (m.position e)
  within : ∀ e ∈ m.entities, Within m (m.position e)
  nonempty : 0 < m.mapWidth * m.mapHeight

omit [DecidableEq E] in
theorem Placed.settled (placed : Placed type m zone) (nonempty : 0 < m.mapWidth * m.mapHeight)
    (within : ∀ e ∈ m.entities, Within m (m.position e))
    (same : ∀ e ∈ m.entities, zone e = m.getZone (m.position e)) : Settled type m := by
  refine ⟨placed.congr placed.nodup (fun k => .of_eq (members_congr same)) fun e member => ?_, within,
    nonempty⟩
  exact lt_of_lt_of_eq (within e member).getZone_lt placed.size.symm

/-- What beings may do in an update: they move on the map, or they are immobile and did not cross
the border of a zone when they moved last. -/
def Moves (type : E → EntityType) (m : MapContent E) (moves : E → Option Point) : Prop :=
  ∀ e ∈ m.entities, (type e).canMove = true → match moves e with
    | some p => Within m p
    | none => m.getZone (m.oldPosition e) = m.getZone (m.position e)

theorem Settled.update (settled : Settled type m) {moves : E → Option Point}
    (allowed : Moves type m moves) :
    ∃ zones position oldPosition, m.update type moves = some { m with
        zones, position, oldPosition } ∧
      Settled type { m with zones, position, oldPosition } ∧
      ∀ e ∈ m.entities, m.getZone (position e) ≠ m.getZone (m.position e) →
        ∀ z, zones[m.getZone (m.position e)]? = some z → m.getZone (position e) ∈ z.destinations := by
  have placed := settled.placed
  have some : m.zones ≠ [] := by
    intro none
    have size := placed.size
    rw [none, List.length_nil] at size
    exact absurd settled.nonempty (by rw [← size]; exact lt_irrefl 0)
  obtain ⟨beings, visited, nodup, being_iff⟩ := placed.visitAll .being .nil nofun some
  have being (e : E) (present : e ∈ m.entities) : e ∈ beings ↔ (type e).canMove = true := by
    rw [being_iff]
    refine ⟨fun all => all.2.2.1, fun moves => ⟨present, ?_, moves, .inl rfl⟩⟩
    cases kind : type e <;> rw [kind] at moves <;> first | rfl | exact absurd moves (by decide)
  obtain ⟨position, oldPosition, moved, places, before⟩ := foldl_move moves beings nodup m
  -- where a being is now and where it was
  have steps (e : E) (present : e ∈ m.entities) : Within m (position e) ∧
      ((type e).canMove = true → m.getZone (oldPosition e) = m.getZone (m.position e)) ∧
      ((type e).canMove = false → position e = m.position e) := by
    have inside := settled.within e present
    rw [places, before]
    by_cases kind : (type e).canMove = true
    · have may := allowed e present kind
      rw [if_pos ((being e present).mpr kind)]
      cases step : moves e with
      | none =>
          rw [step] at may
          exact ⟨inside, fun _ => by rw [if_neg (by simp)]; exact may, fun _ => rfl⟩
      | some p =>
          rw [step] at may
          refine ⟨may, fun _ => ?_, fun no => absurd kind (by simp [no])⟩
          rw [if_pos ⟨(being e present).mpr kind, rfl⟩]
    · rw [if_neg fun member => kind ((being e present).mp member)]
      exact ⟨inside, fun yes => absurd yes kind, fun _ => rfl⟩
  have cleared : Placed type { m.clearDestinations with position, oldPosition }
      fun e => m.getZone (m.position e) := placed.clearDestinations.moved position oldPosition
  obtain ⟨zones, run, placed', -, told⟩ := foldlM_changeZone m.entities placed.nodup cleared
    (fun _ member => member) (fun e member kind => ((steps e member).2.1 kind).symm)
    (fun e member => ⟨(steps e member).1.1, (steps e member).1.2⟩)
  refine ⟨zones, position, oldPosition, ?_, placed'.settled settled.nonempty ?_ fun e member => ?_, ?_⟩
  · rw [MapContent.update, visited, Option.bind_eq_bind, Option.bind_some, moved]
    exact run
  · exact fun e member => ⟨(steps e member).1.1, (steps e member).1.2⟩
  · by_cases kind : (type e).canMove = true
    · exact if_pos ⟨member, kind⟩
    · rw [if_neg fun both => kind both.2, ← (steps e member).2.2 (by simpa using kind)]
      rfl
  · intro e member leaves z found
    refine told e member ?_ leaves.symm z found
    by_contra still
    exact leaves (by rw [(steps e member).2.2 (by simpa using still)])

/-! ## Runs -/

/-- What the rest of the game does with a map: who is inserted stands on the map and is not yet
there, who is removed is there, and the beings move on the map. -/
def Orderly (type : E → EntityType) (m : MapContent E) : MapEvent E → Prop
  | .insert e p => e ∉ m.entities ∧ Within m p
  | .remove e => e ∈ m.entities
  | .update moves => Moves type m moves

theorem Settled.step (settled : Settled type m) {event : MapEvent E} (orderly : Orderly type m event) :
    ∃ m', m.step type event = some m' ∧ Settled type m' := by
  cases event with
  | insert e p =>
      obtain ⟨new, within⟩ := orderly
      obtain ⟨zones, oldPosition, inserted, placed, -⟩ := settled.placed.insert new within
      have old (e' : E) (member : e' ∈ m.entities ++ [e]) (other : e' ≠ e) : e' ∈ m.entities := by
        simpa [other] using member
      refine ⟨_, inserted, (placed.moved (Function.update m.position e p) oldPosition).settled
        settled.nonempty (fun e' member => ?_) fun e' member => ?_⟩
      · dsimp only
        by_cases same : e' = e
        · rw [same, Function.update_self]
          exact ⟨within.1, within.2⟩
        · rw [Function.update_of_ne same]
          have inside := settled.within e' (old e' member same)
          exact ⟨inside.1, inside.2⟩
      · dsimp only
        by_cases same : e' = e
        · rw [same, Function.update_self, Function.update_self]
          rfl
        · rw [Function.update_of_ne same, Function.update_of_ne same]
          rfl
  | remove e =>
      obtain ⟨zones, removed, placed⟩ := settled.placed.remove orderly rfl
      refine ⟨_, removed, placed, fun e' member => ?_, settled.nonempty⟩
      have inside := settled.within e' (List.mem_of_mem_erase member)
      exact ⟨inside.1, inside.2⟩
  | update moves =>
      obtain ⟨zones, position, oldPosition, updated, settled, -⟩ := settled.update orderly
      exact ⟨_, updated, settled⟩

omit [DecidableEq E] in
theorem Settled.zones_ne (settled : Settled type m) : m.zones ≠ [] := by
  intro none
  have size := settled.placed.size
  rw [none, List.length_nil] at size
  have some := settled.nonempty
  omega

theorem run_settled {width height : Nat} {history : List (MapEvent E)}
    (nonempty : 0 < (MapContent.ofSize (E := E) width height).mapWidth *
      (MapContent.ofSize (E := E) width height).mapHeight)
    (run : Run (Guarded (Orderly type) fun m event m' => m.step type event = some m')
      (MapContent.ofSize width height) history m) : Settled type m := by
  refine run.invariant ?_ ?_
  · refine ⟨⟨List.length_replicate, .nil, fun i z found => ?_, nofun, fun z member => ?_,
      fun z member => ?_⟩, nofun, nonempty⟩
    · obtain rfl := List.eq_of_mem_replicate (List.mem_of_getElem? found)
      exact ⟨[], [], [], ⟨rfl, rfl, rfl⟩, .nil, .nil, .nil⟩
    · obtain rfl := List.eq_of_mem_replicate member
      exact .nil
    · obtain rfl := List.eq_of_mem_replicate member
      exact fun j target => absurd target List.not_mem_nil
  · rintro m event m' settled ⟨orderly, stepped⟩
    obtain ⟨m₁, same, settled'⟩ := settled.step orderly
    obtain rfl := Option.some.inj (same.symm.trans stepped)
    exact settled'

def visitors (n : Nat) : EntityType := if n = 0 then .character else .monster

/-- A map of four zones with one character. -/
def lone : MapContent Nat :=
  ((MapContent.ofSize 512 512).step visitors (.insert 0 ⟨200, 10⟩)).getD (MapContent.ofSize 512 512)

theorem lone_run : Run (Guarded (Orderly visitors) fun m event m' =>
    m.step visitors event = some m') (MapContent.ofSize 512 512) [.insert 0 ⟨200, 10⟩] lone :=
  .next .start ⟨⟨List.not_mem_nil, ⟨by decide, by decide⟩⟩, rfl⟩

omit [DecidableEq E] in
/-- What was in the zones of `r₁` is in these zones or in those that they were left for. -/
theorem foldlM_destinations (placed : Placed type m zone) (r₁ : MapRegion) {r₂ : MapRegion}
    (exist : ∀ i ∈ r₁, i < m.zones.length) (sorted : r₂.Pairwise (· < ·))
    (bounded : ∀ i ∈ r₂, i < m.zones.length) :
    ∃ r, r₁.foldlM (fun r₂ i => do
        let r₄ := (← m.zones[i]?).destinations
        return if r₄ = [] then r₂ else setUnion r₂ r₄) r₂ = some r ∧
      r.Pairwise (· < ·) ∧ (∀ i ∈ r, i < m.zones.length) ∧ (∀ i ∈ r₂, i ∈ r) ∧
      ∀ i ∈ r₁, ∀ z, m.zones[i]? = some z → ∀ j ∈ z.destinations, j ∈ r := by
  induction r₁ generalizing r₂ with
  | nil => exact ⟨r₂, rfl, sorted, bounded, fun _ member => member, nofun⟩
  | cons i r₁ ih =>
      obtain ⟨z, there⟩ : ∃ z, m.zones[i]? = some z :=
        ⟨_, List.getElem?_eq_getElem (exist i List.mem_cons_self)⟩
      have member := List.mem_of_getElem? there
      set r₃ := if z.destinations = [] then r₂ else setUnion r₂ z.destinations with r₃_eq
      have union (j : Nat) : j ∈ r₃ ↔ j ∈ r₂ ∨ j ∈ z.destinations := by
        rw [r₃_eq]
        split
        · rename_i none
          rw [none, or_iff_left List.not_mem_nil]
        · exact mem_setUnion
      have sorted₃ : r₃.Pairwise (· < ·) := by
        rw [r₃_eq]
        split
        · exact sorted
        · exact sorted_setUnion sorted (placed.sorted z member)
      obtain ⟨r, run, sorted', bounded', kept, told⟩ := ih
        (fun k later => exist k (List.mem_cons_of_mem _ later)) sorted₃ fun j target =>
          ((union j).mp target).elim (bounded j) (placed.targets z member j)
      refine ⟨r, ?_, sorted', bounded', fun j old => kept j ((union j).mpr (.inl old)),
        fun k listed z' found j target => ?_⟩
      · rw [List.foldlM_cons, there]
        exact run
      · rcases List.mem_cons.mp listed with rfl | later
        · obtain rfl := Option.some.inj (there.symm.trans found)
          exact kept j ((union j).mpr (.inr target))
        · exact told k later z' found j target

end Cgsf.Proof.MOGame.MapComposite
