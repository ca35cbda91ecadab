import Cgsf.Proof.MOGame.FindPath

/-!
# What earlier searches left behind

A search reads of a tile only what it noted there itself, so the notes of earlier searches never
show. The ids of the lists tell them apart.
-/

namespace Cgsf.Proof.MOGame.FindPath
open Cgsf.MOGame Cgsf.MOGame.FindPath Library

variable {map : Map} {walkmask : UInt8} {dest : Point} {maxCost : Int} {start : Point}
variable {Q : Type} {queue : PriorityQueue Location Q Location.Less} {curr : Location}

/-- Two notes on the tile `p` from which the search reads the same. -/
structure SameNote (start p : Point) (i j : PathInfo) : Prop where
  gcost : i.gcost = j.gcost
  way : p ≠ start → i.hcost = j.hcost ∧ i.parentX = j.parentX ∧ i.parentY = j.parentY

/-- Two objects that know the same of this search. -/
structure Alike (map : Map) (start : Point) (f g : FindPath) : Prop where
  left : Covers map f
  right : Covers map g
  ids : f.mOnClosedList ≠ f.mOnOpenList ∧ g.mOnClosedList ≠ g.mOnOpenList
  origin : Closed map f start
  closed : ∀ p, Closed map f p ↔ Closed map g p
  opened : ∀ p, Opened map f p ↔ Opened map g p
  notes : ∀ p, Closed map f p ∨ Opened map f p → SameNote start p (infoAt f p) (infoAt g p)

structure AlikeSearch (map : Map) (dest start : Point)
    (queue : PriorityQueue Location Q Location.Less) (s t : Search Q) : Prop where
  find : Alike map start s.find t.find
  openList : s.openList = t.openList
  foundPath : s.foundPath = t.foundPath
  found : s.foundPath = true →
    OnMap map dest ∧ SameNote start dest (infoAt s.find dest) (infoAt t.find dest)

theorem Covers.closed_setInfo_of_ne {f : FindPath} (covers : Covers map f) {p v : Point}
    (inside : OnMap map v) (new : ¬Closed map f v) (known : Closed map f p) (info : PathInfo) :
    Closed map (f.setInfo v.x v.y info) p := by
  refine ⟨known.1, ?_⟩
  rw [covers.info_of_closed inside new known]
  exact known.2

theorem Alike.setInfo {f g : FindPath} (alike : Alike map start f g) {v : Point}
    (inside : OnMap map v) (new : ¬Closed map f v) {i j : PathInfo} (same : SameNote start v i j)
    (closed : i.whichList = f.mOnClosedList ↔ j.whichList = g.mOnClosedList)
    (opened : i.whichList = f.mOnOpenList ↔ j.whichList = g.mOnOpenList) :
    Alike map start (f.setInfo v.x v.y i) (g.setInfo v.x v.y j) := by
  have read (q : Point) (there : OnMap map q) := alike.left.infoAt_setInfo inside there i
  have read' (q : Point) (there : OnMap map q) := alike.right.infoAt_setInfo inside there j
  refine ⟨alike.left.setInfo v i, alike.right.setInfo v j, alike.ids,
    alike.left.closed_setInfo_of_ne inside new alike.origin i, fun q => ?_, fun q => ?_,
    fun q known => ?_⟩
  · rw [Closed, Closed]
    refine and_congr_right fun there => ?_
    rw [read q there, read' q there]
    split
    · exact closed
    · have before := alike.closed q
      rwa [Closed, Closed, and_congr_right_iff, forall_prop_of_true there] at before
  · rw [Opened, Opened]
    refine and_congr_right fun there => ?_
    rw [read q there, read' q there]
    split
    · exact opened
    · have before := alike.opened q
      rwa [Opened, Opened, and_congr_right_iff, forall_prop_of_true there] at before
  · have there : OnMap map q := known.elim And.left And.left
    rw [read q there, read' q there]
    split
    · rename_i here
      exact here ▸ same
    · rename_i other
      refine alike.notes q ?_
      rw [Closed, Opened, read q there, if_neg other] at known
      exact known

section search

variable {s t : Search Q}

/-- The same note is taken in both searches. -/
theorem AlikeSearch.note (alike : AlikeSearch map dest start queue s t) (openList : Q) {v : Point}
    (inside : OnMap map v) (new : ¬Closed map s.find v) {i j : PathInfo}
    (same : SameNote start v i j)
    (closed : i.whichList = s.find.mOnClosedList ↔ j.whichList = t.find.mOnClosedList)
    (opened : i.whichList = s.find.mOnOpenList ↔ j.whichList = t.find.mOnOpenList)
    {foundPath : Bool} (found : foundPath = true → s.foundPath = true ∨ v = dest) :
    AlikeSearch map dest start queue ⟨s.find.setInfo v.x v.y i, openList, foundPath⟩
      ⟨t.find.setInfo v.x v.y j, openList, foundPath⟩ := by
  refine ⟨alike.find.setInfo inside new same closed opened, rfl, rfl, fun yes => ?_⟩
  have there : OnMap map dest := (found yes).elim (fun before => (alike.found before).1)
    fun here => here ▸ inside
  refine ⟨there, ?_⟩
  dsimp only
  rw [alike.find.left.infoAt_setInfo inside there, alike.find.right.infoAt_setInfo inside there]
  split
  · rename_i here
    exact here ▸ same
  · rename_i other
    exact (alike.found ((found yes).resolve_right fun here => other here.symm)).2

theorem AlikeSearch.checkAdjacent {s' t' : Search Q} (alike : AlikeSearch map dest start queue s t)
    (known : Closed map s.find (Location.tile curr)) {dx dy : Int}
    (run : checkAdjacent queue map walkmask dest maxCost curr s (dx, dy) = some s')
    (run' : checkAdjacent queue map walkmask dest maxCost curr t (dx, dy) = some t') :
    AlikeSearch map dest start queue s' t' ∧ Closed map s'.find (Location.tile curr) := by
  have stays {s₁ t₁ : Search Q} (left : some s = some s₁) (right : some t = some t₁) :
      AlikeSearch map dest start queue s₁ t₁ ∧ Closed map s₁.find (Location.tile curr) := by
    cases left
    cases right
    exact ⟨alike, known⟩
  rw [FindPath.checkAdjacent] at run run'
  dsimp only at run run'
  split at run
  · rename_i nowhere
    rw [if_pos nowhere] at run'
    exact stays run run'
  rename_i somewhere
  rw [if_neg somewhere] at run'
  have inside : OnMap map ⟨curr.x + dx, curr.y + dy⟩ := by
    simpa [OnMap] using (not_or.mp somewhere).2
  have note := (alike.find.left.getInfo_eq inside).1
  have note' := (alike.find.right.getInfo_eq inside).1
  have closed_iff := alike.find.closed ⟨curr.x + dx, curr.y + dy⟩
  have opened_iff := alike.find.opened ⟨curr.x + dx, curr.y + dy⟩
  rw [Closed, Closed, and_congr_right_iff, forall_prop_of_true inside] at closed_iff
  rw [Opened, Opened, and_congr_right_iff, forall_prop_of_true inside] at opened_iff
  dsimp only at note note'
  rw [note, Option.bind_eq_bind, Option.bind_some] at run
  rw [note', Option.bind_eq_bind, Option.bind_some] at run'
  split at run
  · rename_i skipped
    rw [if_pos (skipped.imp_left closed_iff.mp)] at run'
    exact stays run run'
  rename_i usable
  rw [if_neg fun skipped => usable (skipped.imp_left closed_iff.mpr)] at run'
  have new : ¬Closed map s.find ⟨curr.x + dx, curr.y + dy⟩ := fun closed =>
    usable (.inl closed.2)
  split at run
  · rename_i cut
    rw [if_pos cut] at run'
    exact stays run run'
  rename_i round
  rw [if_neg round] at run'
  have currNote := (alike.find.left.getInfo_eq known.1).1
  have currNote' := (alike.find.right.getInfo_eq known.1).1
  have source := (alike.find.notes _ (.inl known)).gcost
  simp only [Location.tile] at currNote currNote' source
  rw [currNote, Option.bind_some] at run
  rw [currNote', Option.bind_some, ← source] at run'
  split at run
  · rename_i far
    rw [if_pos far] at run'
    exact stays run run'
  rename_i near
  rw [if_neg near, ← alike.openList] at run'
  have unclosed : (infoAt s.find ⟨curr.x + dx, curr.y + dy⟩).whichList ≠ s.find.mOnClosedList ∧
      (infoAt t.find ⟨curr.x + dx, curr.y + dy⟩).whichList ≠ t.find.mOnClosedList :=
    ⟨fun list => new ⟨inside, list⟩, fun list => new ⟨inside, closed_iff.mpr list⟩⟩
  split at run
  · rename_i unlisted
    rw [if_pos (opened_iff.not.mp unlisted)] at run'
    split at run
    · rename_i other
      rw [if_pos other, ← alike.foundPath] at run'
      cases run
      cases run'
      refine ⟨alike.note _ inside new ?_ ?_ ?_ .inl,
        alike.find.left.closed_setInfo_of_ne inside new known _⟩
      · exact ⟨rfl, fun _ => ⟨rfl, rfl, rfl⟩⟩
      · exact iff_of_false alike.find.ids.1.symm alike.find.ids.2.symm
      · exact iff_of_true rfl rfl
    · rename_i target
      rw [if_neg target] at run'
      cases run
      cases run'
      rw [not_or, not_not, not_not] at target
      refine ⟨alike.note _ inside new ?_ ?_ ?_ fun _ => .inr (Point.mk.injEq .. ▸ target),
        alike.find.left.closed_setInfo_of_ne inside new known _⟩
      · exact ⟨rfl, fun _ => ⟨rfl, rfl, rfl⟩⟩
      · exact iff_of_false unclosed.1 unclosed.2
      · exact opened_iff
  rename_i listed
  rw [if_neg (opened_iff.not.not.mp listed)] at run'
  have opened : Opened map s.find ⟨curr.x + dx, curr.y + dy⟩ := ⟨inside, not_not.mp listed⟩
  obtain ⟨gcost, way⟩ := alike.find.notes _ (.inr opened)
  have other : (⟨curr.x + dx, curr.y + dy⟩ : Point) ≠ start := fun here =>
    new (here ▸ alike.find.origin)
  rw [← gcost, ← (way other).1] at run'
  split at run
  · rename_i better
    rw [if_pos better, ← alike.foundPath] at run'
    cases run
    cases run'
    refine ⟨alike.note _ inside new ?_ ?_ ?_ .inl,
      alike.find.left.closed_setInfo_of_ne inside new known _⟩
    · exact ⟨rfl, fun _ => ⟨rfl, rfl, rfl⟩⟩
    · exact closed_iff
    · exact opened_iff
  · rename_i worse
    rw [if_neg worse] at run'
    exact stays run run'

theorem AlikeSearch.foldlM {s' t' : Search Q} (alike : AlikeSearch map dest start queue s t)
    (known : Closed map s.find (Location.tile curr)) (ds : List (Int × Int))
    (run : ds.foldlM (FindPath.checkAdjacent queue map walkmask dest maxCost curr) s = some s')
    (run' : ds.foldlM (FindPath.checkAdjacent queue map walkmask dest maxCost curr) t = some t') :
    AlikeSearch map dest start queue s' t' := by
  induction ds generalizing s t with
  | nil =>
      cases run
      cases run'
      exact alike
  | cons d ds ih =>
      rw [List.foldlM_cons] at run run'
      obtain ⟨s₁, first, rest⟩ := Option.bind_eq_some_iff.mp run
      obtain ⟨t₁, first', rest'⟩ := Option.bind_eq_some_iff.mp run'
      obtain ⟨alike, known⟩ := alike.checkAdjacent known first first'
      exact ih alike known rest rest'

/-- Both searches leave the tile that they just closed. -/
theorem AlikeSearch.leave (target : OnMap map dest) {fuel fuel' : Nat} {s t s₁ t₁ s₂ t₂ : Search Q}
    {first : Location}
    (loop : ∀ {fuel' : Nat} {s t : Search Q},
      Noted map walkmask dest maxCost start s.find (queue.elements s.openList) →
      Noted map walkmask dest maxCost start t.find (queue.elements t.openList) →
      AlikeSearch map dest start queue s t → s.foundPath = false →
      searchLoop queue map walkmask dest maxCost fuel s = some s₂ →
      searchLoop queue map walkmask dest maxCost fuel' t = some t₂ →
      AlikeSearch map dest start queue s₂ t₂)
    (top : queue.top s.openList = some first) (top' : queue.top t.openList = some first)
    (covers : Covers map s.find ∧ Covers map t.find) (inside : OnMap map (Location.tile first))
    (new : ¬Closed map s.find (Location.tile first) ∧ ¬Closed map t.find (Location.tile first))
    (left : s₁ = { s with
      openList := queue.pop s.openList, find := close s.find (Location.tile first) })
    (left' : t₁ = { t with
      openList := queue.pop t.openList, find := close t.find (Location.tile first) })
    (noted : Noted map walkmask dest maxCost start s₁.find (queue.elements s₁.openList))
    (noted' : Noted map walkmask dest maxCost start t₁.find (queue.elements t₁.openList))
    (alike : AlikeSearch map dest start queue s₁ t₁) (unfound : s.foundPath = false)
    (run : searchLoop queue map walkmask dest maxCost (fuel + 1) s = some s₂)
    (run' : searchLoop queue map walkmask dest maxCost (fuel' + 1) t = some t₂) :
    AlikeSearch map dest start queue s₂ t₂ := by
  subst left left'
  have closed := (covers.1.closed_close (q := Location.tile first) inside).mpr (.inr rfl)
  have closed' := (covers.2.closed_close (q := Location.tile first) inside).mpr (.inr rfl)
  have unfound' : t.foundPath = false := alike.foundPath ▸ unfound
  obtain ⟨s', go, expanded⟩ := expand target closed noted unfound
  obtain ⟨t', go', expanded'⟩ := expand target closed' noted' unfound'
  have next := alike.foldlM closed directions go go'
  rw [searchLoop_leave unfound top covers.1 inside new.1 go] at run
  rw [searchLoop_leave unfound' top' covers.2 inside new.2 go'] at run'
  cases found : s'.foundPath with
  | false => exact loop expanded.noted expanded'.noted next found run run'
  | true =>
      obtain _ | fuel := fuel
      · cases run
      obtain _ | fuel' := fuel'
      · cases run'
      rw [searchLoop_found found] at run
      rw [searchLoop_found (next.foundPath ▸ found)] at run'
      cases run
      cases run'
      exact next

theorem AlikeSearch.searchLoop (target : OnMap map dest) {fuel fuel' : Nat} {s t s₂ t₂ : Search Q}
    (noted : Noted map walkmask dest maxCost start s.find (queue.elements s.openList))
    (noted' : Noted map walkmask dest maxCost start t.find (queue.elements t.openList))
    (alike : AlikeSearch map dest start queue s t) (unfound : s.foundPath = false)
    (run : searchLoop queue map walkmask dest maxCost fuel s = some s₂)
    (run' : searchLoop queue map walkmask dest maxCost fuel' t = some t₂) :
    AlikeSearch map dest start queue s₂ t₂ := by
  induction fuel generalizing fuel' s t with
  | zero => cases run
  | succ fuel ih =>
      obtain _ | fuel' := fuel'
      · cases run'
      cases top : queue.top s.openList with
      | none =>
          rw [FindPath.searchLoop, top] at run
          rw [FindPath.searchLoop, ← alike.openList, top] at run'
          cases run
          cases run'
          exact alike
      | some first =>
          have top' : queue.top t.openList = some first := alike.openList ▸ top
          have unfound' : t.foundPath = false := alike.foundPath ▸ unfound
          have split (e : Location) := queue.mem_top (b := e) top
          have split' (e : Location) := queue.mem_top (b := e) top'
          have pops := congrArg queue.pop alike.openList
          rcases noted.listed first ((split first).mpr (.inl rfl)) with closed | ⟨opened, -⟩
          · have closed' := (alike.find.closed _).mp closed
            rw [searchLoop_skip unfound top noted.covers closed] at run
            rw [searchLoop_skip unfound' top' noted'.covers closed'] at run'
            exact ih (s := { s with openList := queue.pop s.openList })
              (t := { t with openList := queue.pop t.openList }) (noted.skip closed split)
              (noted'.skip closed' split') ⟨alike.find, pops, alike.foundPath, alike.found⟩ unfound
              run run'
          · have opened' := (alike.find.opened _).mp opened
            have new : ¬Closed map s.find (Location.tile first) := fun closed =>
              noted.fresh.apart closed opened
            have new' : ¬Closed map t.find (Location.tile first) := fun closed =>
              noted'.fresh.apart closed opened'
            obtain ⟨gcost, way⟩ := alike.find.notes _ (.inr opened)
            have note := alike.note (queue.pop s.openList) opened.1 new
              (i := { infoAt s.find (Location.tile first) with whichList := s.find.mOnClosedList })
              (j := { infoAt t.find (Location.tile first) with whichList := t.find.mOnClosedList })
              ⟨gcost, way⟩ (iff_of_true rfl rfl)
              (iff_of_false alike.find.ids.1 alike.find.ids.2) .inl
            exact AlikeSearch.leave target ih top top' ⟨noted.covers, noted'.covers⟩ opened.1
              ⟨new, new'⟩ rfl rfl (noted.close opened split) (noted'.close opened' split')
              ⟨note.find, pops, alike.foundPath, note.found⟩ unfound run run'

theorem Alike.extract_step {f g : FindPath} (alike : Alike map start f g) {p : Point}
    (inside : OnMap map p) (same : SameNote start p (infoAt f p) (infoAt g p)) (fuel : Nat)
    (path : Path)
    (rest : p ≠ start →
      f.extract start fuel (parent f p).x (parent f p).y (p :: path) =
        g.extract start fuel (parent f p).x (parent f p).y (p :: path)) :
    f.extract start (fuel + 1) p.x p.y path = g.extract start (fuel + 1) p.x p.y path := by
  rw [extract, extract, (alike.left.getInfo_eq inside).1, (alike.right.getInfo_eq inside).1]
  by_cases here : p = start
  · rw [here, if_neg (by simp), if_neg (by simp)]
  · obtain ⟨-, x, y⟩ := same.way here
    refine if_congr Iff.rfl ?_ rfl
    change f.extract start fuel (parent f p).x (parent f p).y _ =
      g.extract start fuel (infoAt g p).parentX (infoAt g p).parentY _
    rw [← x, ← y]
    exact rest here

theorem Found.extract_alike {f g : FindPath} (found : Found map walkmask dest maxCost start f)
    (alike : Alike map start f g) (fuel : Nat) {p : Point} (path : Path) (closed : Closed map f p) :
    f.extract start fuel p.x p.y path = g.extract start fuel p.x p.y path := by
  induction fuel generalizing p path with
  | zero => rfl
  | succ fuel ih =>
      exact alike.extract_step closed.1 (alike.notes p (.inl closed)) fuel path fun other =>
        ih (p :: path) (found.linked p closed other).closed

end search

/-! ## The whole search -/

variable (dest queue) in
theorem begun_alike (openList : Q) {f g : FindPath} (fresh : Fresh f) (fresh' : Fresh g)
    (inside : OnMap map start) :
    AlikeSearch map dest start queue ⟨close (begun map start f) start, openList, false⟩
      ⟨close (begun map start g) start, openList, false⟩ := by
  have known {f : FindPath} (fresh : Fresh f) (q : Point) :
      (Closed map (close (begun map start f) start) q ↔ q = start) ∧
        ¬Opened map (close (begun map start f) start) q := by
    obtain ⟨covers, fresh, blank, -⟩ := begun_spec fresh inside
    obtain ⟨unclosed, unopened⟩ := blank.unlisted fresh covers q
    rw [covers.closed_close inside, or_iff_right unclosed, covers.opened_close fresh inside]
    exact ⟨Iff.rfl, fun both => unopened both.1⟩
  obtain ⟨covers, ⟨ids, -⟩, -, zero⟩ := begun_spec fresh inside
  obtain ⟨covers', ⟨ids', -⟩, -, zero'⟩ := begun_spec fresh' inside
  refine ⟨⟨covers.setInfo _ _, covers'.setInfo _ _, ⟨?_, ?_⟩, (known fresh start).1.mpr rfl,
    fun q => (known fresh q).1.trans (known fresh' q).1.symm,
    fun q => iff_of_false (known fresh q).2 (known fresh' q).2, fun q either => ?_⟩, rfl, rfl, nofun⟩
  · exact ids ▸ (Nat.succ_ne_self _).symm
  · exact ids' ▸ (Nat.succ_ne_self _).symm
  · have here : q = start := (known fresh q).1.mp (either.resolve_right (known fresh q).2)
    subst here
    have same := covers.cost_close inside inside
    have same' := covers'.cost_close inside inside
    exact ⟨(same.trans zero).trans (same'.trans zero').symm, fun other => absurd rfl other⟩

theorem begun_searched (target : OnMap map dest) {f g : FindPath} (fresh : Fresh f)
    (fresh' : Fresh g) (inside : OnMap map start) {fuel fuel' : Nat} {s t : Search Q}
    (run : searchLoop queue map walkmask dest maxCost (fuel + 1)
      ⟨begun map start f, queue.push queue.empty ⟨start.x, start.y, 0⟩, false⟩ = some s)
    (run' : searchLoop queue map walkmask dest maxCost (fuel' + 1)
      ⟨begun map start g, queue.push queue.empty ⟨start.x, start.y, 0⟩, false⟩ = some t) :
    AlikeSearch map dest start queue s t := by
  obtain ⟨covers, fresh₁, blank, zero⟩ := begun_spec fresh inside
  obtain ⟨covers', fresh₁', blank', zero'⟩ := begun_spec fresh' inside
  have alike := begun_alike dest queue
    (queue.pop (queue.push queue.empty ⟨start.x, start.y, 0⟩)) fresh fresh' inside
  generalize begun map start f = f₀ at *
  generalize begun map start g = g₀ at *
  obtain ⟨top, nil⟩ := top_single
    (q := queue.push queue.empty ⟨start.x, start.y, 0⟩) (a := ⟨start.x, start.y, 0⟩)
    ((queue.elements_push _ _).trans (by rw [queue.elements_empty]))
  have new := (blank.unlisted fresh₁ covers start).1
  have new' := (blank'.unlisted fresh₁' covers' start).1
  have noted := noted_first walkmask dest maxCost covers fresh₁ blank inside zero
  have noted' := noted_first walkmask dest maxCost covers' fresh₁' blank' inside zero'
  set openList := queue.push queue.empty ⟨start.x, start.y, 0⟩
  refine AlikeSearch.leave (s := ⟨f₀, openList, false⟩) (t := ⟨g₀, openList, false⟩)
    target (AlikeSearch.searchLoop target) top top ⟨covers, covers'⟩ inside ⟨new, new'⟩ rfl rfl ?_ ?_ ?_ rfl
    run run'
  · dsimp only
    rw [nil]
    exact noted
  · dsimp only
    rw [nil]
    exact noted'
  · exact alike

variable (walkmask dest maxCost queue) in
theorem findPath_alike {f g : FindPath} (fresh : Fresh f) (fresh' : Fresh g)
    (inside : OnMap map start) :
    (findPath queue map walkmask dest maxCost f start).map Prod.snd =
      (findPath queue map walkmask dest maxCost g start).map Prod.snd := by
  by_cases walkable : map.getWalk dest.x dest.y walkmask = true
  case neg =>
    have blocked : (!map.getWalk dest.x dest.y walkmask) = true := by simpa using walkable
    rw [findPath, findPath, if_pos blocked, if_pos blocked]
    rfl
  have target : OnMap map dest := onMap_of_walk map walkmask walkable
  obtain ⟨s, run, ends⟩ := begun_ends walkmask maxCost queue target fresh inside
  obtain ⟨t, run', -⟩ := begun_ends walkmask maxCost queue target fresh' inside
  have alike := begun_searched target fresh fresh' inside run run'
  rw [findPath_eq fresh inside walkable, findPath_eq fresh' inside walkable, run, run',
    Option.bind_some, Option.bind_some, ← alike.foundPath]
  cases ends with
  | exhausted no _ _ _ =>
      rw [no]
      rfl
  | found yes found =>
      have same := (alike.found yes).2
      have last := alike.find.extract_step target same (infoAt s.find dest).gcost.toNat [] fun _ =>
        found.extract_alike alike.find _ [dest] found.last.closed
      rw [if_pos yes, if_pos yes, (alike.find.left.getInfo_eq target).1,
        (alike.find.right.getInfo_eq target).1, Option.bind_eq_bind, Option.bind_some,
        Option.bind_eq_bind, Option.bind_some, ← same.gcost, last]
      cases t.find.extract start ((infoAt s.find dest).gcost.toNat + 1) dest.x dest.y [] <;> rfl

/-- The way back through the gap of the wall. -/
def wayBack : PathRequest := ⟨wallMap, ⟨2, 0⟩, ⟨0, 0⟩, Map.blockmaskWall, 20⟩

end Cgsf.Proof.MOGame.FindPath
