import Cgsf.Library.Transition
import Cgsf.MOGame.Map
import Mathlib

/-!
# The search for a path

A straight move costs 101 and a diagonal one 141; the estimate never falls by more. So what is
closed is reached in the cheapest way, and the target is found from a tile whose estimate is less by
at most 1 than what the last move costs.
-/

namespace Cgsf.Proof.MOGame.FindPath
open Cgsf.MOGame Cgsf.MOGame.FindPath Library

variable (map : Map) (walkmask : UInt8) (dest : Point) (maxCost : Int)

/-- A move to a tile next to `p`; a diagonal one needs both tiles beside it. -/
structure Moves (p q : Point) : Prop where
  other : q ≠ p
  near : |q.x - p.x| ≤ 1 ∧ |q.y - p.y| ≤ 1
  walk : map.getWalk q.x q.y walkmask = true
  corner : q.x ≠ p.x → q.y ≠ p.y →
    map.getWalk p.x q.y walkmask = true ∧ map.getWalk q.x p.y walkmask = true

theorem diagonalCost_eq : diagonalCost = 141 := rfl

theorem moveCost_cases (dx dy : Int) :
    (dx = 0 ∨ dy = 0) ∧ moveCost dx dy = 101 ∨ ¬(dx = 0 ∨ dy = 0) ∧ moveCost dx dy = 141 := by
  by_cases straight : dx = 0 ∨ dy = 0
  · exact .inl ⟨straight, by rw [moveCost, if_pos straight, if_pos straight]; rfl⟩
  · exact .inr ⟨straight, by rw [moveCost, if_neg straight, if_neg straight]; rfl⟩

theorem moveCost_pos (dx dy : Int) : 0 < moveCost dx dy := by
  rcases moveCost_cases dx dy with ⟨-, eq⟩ | ⟨-, eq⟩ <;> omega

theorem estimate_eq (x y : Int) :
    estimate dest x y =
      100 * max |x - dest.x| |y - dest.y| + 41 * min |x - dest.x| |y - dest.y| := by
  rw [estimate, diagonalCost_eq, basicCost]
  rcases abs_cases (|x - dest.x| - |y - dest.y|) with ⟨eq, sign⟩ | ⟨eq, sign⟩ <;> omega

theorem abs_add_near (a d : Int) : |a| - |d| ≤ |a + d| ∧ |a + d| ≤ |a| + |d| :=
  ⟨by rw [sub_le_iff_le_add]; simpa using abs_add_le (a + d) (-d), abs_add_le a d⟩

theorem estimate_move {x y dx dy : Int} (near : |dx| ≤ 1 ∧ |dy| ≤ 1) :
    estimate dest x y ≤ moveCost dx dy + estimate dest (x + dx) (y + dy) := by
  have horizontal := abs_add_near (x - dest.x) dx
  have vertical := abs_add_near (y - dest.y) dy
  rw [estimate_eq, estimate_eq, add_sub_right_comm, add_sub_right_comm y]
  rcases moveCost_cases dx dy with ⟨rfl | rfl, eq⟩ | ⟨-, eq⟩
  · rw [abs_zero] at horizontal
    omega
  · rw [abs_zero] at vertical
    omega
  · omega

theorem estimate_nonneg (x y : Int) : 0 ≤ estimate dest x y := by
  have horizontal := abs_nonneg (x - dest.x)
  have vertical := abs_nonneg (y - dest.y)
  rw [estimate_eq]
  omega

theorem estimate_dest : estimate dest dest.x dest.y = 0 := by
  rw [estimate_eq, sub_self, sub_self, abs_zero]
  rfl

/-- The last move costs at most 1 more than it was estimated. -/
theorem moveCost_last {x y : Int} (near : |dest.x - x| ≤ 1 ∧ |dest.y - y| ≤ 1)
    (other : x ≠ dest.x ∨ y ≠ dest.y) :
    moveCost (dest.x - x) (dest.y - y) ≤ estimate dest x y + 1 := by
  have horizontal := abs_nonneg (x - dest.x)
  have vertical := abs_nonneg (y - dest.y)
  have apart : |x - dest.x| = 0 ↔ x - dest.x = 0 := abs_eq_zero
  have above : |y - dest.y| = 0 ↔ y - dest.y = 0 := abs_eq_zero
  rw [abs_sub_comm, abs_sub_comm dest.y] at near
  rw [estimate_eq]
  rcases moveCost_cases (dest.x - x) (dest.y - y) with ⟨straight, eq⟩ | ⟨diagonal, eq⟩ <;> omega

def grid : GuidedGraph Point Int where
  Moves := Moves map walkmask
  cost p q := moveCost (q.x - p.x) (q.y - p.y)
  estimate p := estimate dest p.x p.y
  cost_nonneg _ _ _ := (moveCost_pos _ _).le
  consistent p q moves := by
    have step := estimate_move dest (x := p.x) (y := p.y) moves.near
    rwa [add_sub_cancel, add_sub_cancel] at step

/-! ## The notes on the tiles -/

def OnMap (p : Point) : Prop := map.contains p.x p.y = true

theorem onMap_iff {p : Point} :
    OnMap map p ↔ 0 ≤ p.x ∧ 0 ≤ p.y ∧ p.x < map.mWidth ∧ p.y < map.mHeight := by
  simp [OnMap, Map.contains]

theorem onMap_of_walk {x y : Int} (walk : map.getWalk x y walkmask = true) :
    map.contains x y = true :=
  (Bool.and_eq_true_iff.mp walk).1

variable {map}

/-- The place of a tile in the list. -/
def place (map : Map) (p : Point) : Nat := (p.x + p.y * map.mWidth).toNat

theorem place_bounds {p : Point} (inside : OnMap map p) :
    0 ≤ p.x + p.y * map.mWidth ∧ p.x + p.y * map.mWidth < map.mWidth * map.mHeight := by
  obtain ⟨left, top, right, bottom⟩ := (onMap_iff map).mp inside
  have row : 0 ≤ p.y * map.mWidth := mul_nonneg top map.width_nonneg
  have rows : (p.y + 1) * map.mWidth ≤ map.mHeight * map.mWidth :=
    mul_le_mul_of_nonneg_right (by omega) map.width_nonneg
  rw [add_mul, one_mul, mul_comm map.mHeight] at rows
  omega

theorem place_inj {p q : Point} (inside : OnMap map p) (inside' : OnMap map q)
    (same : place map p = place map q) : p = q := by
  obtain ⟨left, -, right, -⟩ := (onMap_iff map).mp inside
  obtain ⟨left', -, right', -⟩ := (onMap_iff map).mp inside'
  have bounds := place_bounds inside
  have bounds' := place_bounds inside'
  have eq : p.x + p.y * map.mWidth = q.x + q.y * map.mWidth := by
    rw [place, place] at same
    omega
  have columns : p.x = q.x := by
    rw [← Int.emod_eq_of_lt left right, ← Int.emod_eq_of_lt left' right',
      ← Int.add_mul_emod_self_right p.x p.y, eq, Int.add_mul_emod_self_right]
  have rows : p.y = q.y := by
    rw [columns, add_right_inj] at eq
    exact mul_right_cancel₀ (by omega) eq
  cases p
  cases q
  simp_all

/-- The notes belong to this map. -/
structure Covers (map : Map) (f : FindPath) : Prop where
  width : f.mWidth = map.mWidth
  size : map.mWidth * map.mHeight ≤ f.mPathInfos.length

def infoAt (f : FindPath) (p : Point) : PathInfo := (f.getInfo p.x p.y).getD {}

theorem Covers.place_lt {f : FindPath} (covers : Covers map f) {p : Point} (inside : OnMap map p) :
    place map p < f.mPathInfos.length := by
  have bounds := place_bounds inside
  have size := covers.size
  rw [place]
  omega

theorem Covers.getInfo_eq {f : FindPath} (covers : Covers map f) {p : Point}
    (inside : OnMap map p) :
    f.getInfo p.x p.y = some (infoAt f p) ∧ f.mPathInfos[place map p]? = some (infoAt f p) := by
  have found : f.getInfo p.x p.y = f.mPathInfos[place map p]? := by
    rw [getInfo, covers.width, if_neg (not_lt.mpr (place_bounds inside).1)]
    rfl
  rw [infoAt, found, List.getElem?_eq_getElem (covers.place_lt inside)]
  exact ⟨rfl, rfl⟩

theorem Covers.infos_setInfo {f : FindPath} (covers : Covers map f) (p : Point) (info : PathInfo) :
    (f.setInfo p.x p.y info).mPathInfos = f.mPathInfos.set (place map p) info := by
  rw [FindPath.setInfo, covers.width]
  rfl

theorem Covers.setInfo {f : FindPath} (covers : Covers map f) (p : Point) (info : PathInfo) :
    Covers map (f.setInfo p.x p.y info) :=
  ⟨covers.width, by rw [FindPath.setInfo, List.length_set]; exact covers.size⟩

theorem Covers.infoAt_setInfo {f : FindPath} (covers : Covers map f) {p q : Point}
    (inside : OnMap map p) (inside' : OnMap map q) (info : PathInfo) :
    infoAt (f.setInfo p.x p.y info) q = if q = p then info else infoAt f q := by
  have read := ((covers.setInfo p info).getInfo_eq inside').2
  rw [covers.infos_setInfo] at read
  split
  · rename_i same
    rw [same, List.getElem?_set_self (covers.place_lt inside)] at read
    rw [same]
    exact (Option.some.inj read).symm
  · rename_i other
    rw [List.getElem?_set_ne fun same => other (place_inj inside inside' same).symm,
      (covers.getInfo_eq inside').2] at read
    exact (Option.some.inj read).symm

/-- Every tile was on one of the lists of an earlier search or is on one of this one's. -/
structure Fresh (f : FindPath) : Prop where
  ids : f.mOnOpenList = f.mOnClosedList + 1
  noted : ∀ info ∈ f.mPathInfos, info.whichList ≤ f.mOnOpenList

theorem Fresh.setInfo {f : FindPath} (fresh : Fresh f) (x y : Int) {info : PathInfo}
    (known : info.whichList ≤ f.mOnOpenList) : Fresh (f.setInfo x y info) := by
  refine ⟨fresh.ids, fun other member => ?_⟩
  rcases List.mem_or_eq_of_mem_set member with old | rfl
  · exact fresh.noted other old
  · exact known

def Closed (map : Map) (f : FindPath) (p : Point) : Prop :=
  OnMap map p ∧ (infoAt f p).whichList = f.mOnClosedList

def Opened (map : Map) (f : FindPath) (p : Point) : Prop :=
  OnMap map p ∧ (infoAt f p).whichList = f.mOnOpenList

def parent (f : FindPath) (p : Point) : Point := ⟨(infoAt f p).parentX, (infoAt f p).parentY⟩

theorem Fresh.apart {f : FindPath} (fresh : Fresh f) {p : Point} (closed : Closed map f p)
    (opened : Opened map f p) : False := by
  have ids := fresh.ids
  rw [← opened.2, closed.2] at ids
  omega

/-- How many tiles can still be closed. -/
def unclosed (f : FindPath) : Nat :=
  f.mPathInfos.countP fun info : PathInfo => decide (info.whichList ≠ f.mOnClosedList)

theorem Covers.unclosed_setInfo {f : FindPath} (covers : Covers map f) {p : Point}
    (inside : OnMap map p) (new : ¬Closed map f p) (info : PathInfo) :
    unclosed (f.setInfo p.x p.y info) + (if info.whichList = f.mOnClosedList then 1 else 0) =
      unclosed f := by
  have short := covers.place_lt inside
  have value : f.mPathInfos[place map p] = infoAt f p :=
    Option.some.inj ((List.getElem?_eq_getElem short).symm.trans (covers.getInfo_eq inside).2)
  have other : decide ((infoAt f p).whichList ≠ f.mOnClosedList) = true :=
    decide_eq_true fun same => new ⟨inside, same⟩
  have positive : 0 < unclosed f :=
    List.countP_pos_iff.mpr ⟨_, List.getElem_mem short, value ▸ other⟩
  change (f.setInfo p.x p.y info).mPathInfos.countP (fun info : PathInfo =>
    decide (info.whichList ≠ f.mOnClosedList)) + _ = _
  rw [covers.infos_setInfo, List.countP_set short, value, if_pos other]
  change unclosed f - 1 + _ + _ = unclosed f
  by_cases closes : info.whichList = f.mOnClosedList
  · rw [if_pos closes, if_neg (by simp [closes])]
    omega
  · rw [if_neg closes, if_pos (by simp [closes])]
    omega

/-! ## What a search knows -/

def cost (f : FindPath) (p : Point) : Int := (infoAt f p).gcost

def Location.tile (location : Location) : Point := ⟨location.x, location.y⟩

/-- The way to a tile goes over its parent. -/
structure Link (map : Map) (walkmask : UInt8) (dest : Point) (maxCost : Int) (f : FindPath)
    (p : Point) : Prop where
  closed : Closed map f (parent f p)
  moves : Moves map walkmask (parent f p) p
  sum : cost f p = cost f (parent f p) + (grid map walkmask dest).cost (parent f p) p
  within : cost f p ≤ maxCost * basicCost
  nonneg : 0 ≤ cost f (parent f p)

/-- The parents lead from every closed or open tile over closed ones to the start, and the costs
are those of this way. Every open tile waits with its present cost; what else waits is not less. -/
structure Noted (map : Map) (walkmask : UInt8) (dest : Point) (maxCost : Int) (start : Point)
    (f : FindPath) (waiting : List Location) : Prop where
  covers : Covers map f
  fresh : Fresh f
  origin : Closed map f start ∧ cost f start = 0
  linked : ∀ p, Closed map f p ∨ Opened map f p → p ≠ start →
    Link map walkmask dest maxCost f p
  estimated : ∀ p, Opened map f p → (infoAt f p).hcost = estimate dest p.x p.y
  waits : ∀ p, Opened map f p → ⟨p.x, p.y, cost f p + estimate dest p.x p.y⟩ ∈ waiting
  listed : ∀ e ∈ waiting, Closed map f (Location.tile e) ∨ Opened map f (Location.tile e) ∧
    cost f (Location.tile e) + estimate dest e.x e.y ≤ e.fcost
  target : ¬Opened map f dest ∧ (Closed map f dest → dest = start)

variable {Q : Type} (queue : PriorityQueue Location Q Location.Less)

/-- What looking at the tile `v` from the tile `p` does: nothing is missing there, or the way over
`p` is noted. -/
inductive Checks (map : Map) (walkmask : UInt8) (dest : Point) (maxCost : Int) (p v : Point)
    (s : Search Q) : Search Q → Prop where
  | settled (known : Moves map walkmask p v →
      cost s.find p + (grid map walkmask dest).cost p v ≤ maxCost * basicCost →
      ¬Closed map s.find v → Opened map s.find v ∧
        cost s.find v ≤ cost s.find p + (grid map walkmask dest).cost p v) :
      Checks map walkmask dest maxCost p v s s
  | opens (moves : Moves map walkmask p v) (new : ¬Closed map s.find v) (other : v ≠ dest)
      (gcost : Int) (sum : gcost = cost s.find p + (grid map walkmask dest).cost p v)
      (within : gcost ≤ maxCost * basicCost)
      (better : Opened map s.find v → gcost ≤ cost s.find v) :
      Checks map walkmask dest maxCost p v s { s with
        find := s.find.setInfo v.x v.y ⟨gcost, estimate dest v.x v.y, s.find.mOnOpenList, p.x, p.y⟩
        openList := queue.push s.openList ⟨v.x, v.y, gcost + estimate dest v.x v.y⟩ }
  | finds (moves : Moves map walkmask p v) (new : ¬Closed map s.find v) (target : v = dest)
      (gcost : Int) (sum : gcost = cost s.find p + (grid map walkmask dest).cost p v)
      (within : gcost ≤ maxCost * basicCost) :
      Checks map walkmask dest maxCost p v s { s with
        find := s.find.setInfo v.x v.y
          ⟨gcost, estimate dest v.x v.y, (infoAt s.find v).whichList, p.x, p.y⟩
        foundPath := true }

variable {queue} {walkmask} {dest} {maxCost} {start : Point} {s : Search Q} {curr : Location}

theorem checkAdjacent_checks
    (noted : Noted map walkmask dest maxCost start s.find (queue.elements s.openList))
    (closed : Closed map s.find (Location.tile curr)) {dx dy : Int} (near : |dx| ≤ 1 ∧ |dy| ≤ 1) :
    ∃ s', checkAdjacent queue map walkmask dest maxCost curr s (dx, dy) = some s' ∧
      Checks queue map walkmask dest maxCost (Location.tile curr) ⟨curr.x + dx, curr.y + dy⟩ s
        s' := by
  have apart : curr.x + dx - curr.x = dx ∧ curr.y + dy - curr.y = dy := by omega
  rw [checkAdjacent]
  dsimp only
  split
  · rename_i nowhere
    refine ⟨s, rfl, .settled fun moves => ?_⟩
    rcases nowhere with ⟨rfl, rfl⟩ | outside
    · refine absurd ?_ moves.other
      rw [add_zero, add_zero]
      rfl
    · have inside := onMap_of_walk map walkmask moves.walk
      simp_all
  rename_i somewhere
  obtain ⟨elsewhere, inside⟩ : ¬(dx = 0 ∧ dy = 0) ∧ OnMap map ⟨curr.x + dx, curr.y + dy⟩ := by
    simpa [OnMap] using somewhere
  have note := (noted.covers.getInfo_eq inside).1
  have currNote := (noted.covers.getInfo_eq closed.1).1
  simp only [Location.tile] at note currNote
  rw [note, Option.bind_eq_bind, Option.bind_some]
  split
  · rename_i skipped
    refine ⟨s, rfl, .settled fun moves _ new => ?_⟩
    rcases skipped with known | blocked
    · exact absurd ⟨inside, known⟩ new
    · rw [moves.walk] at blocked
      contradiction
  rename_i usable
  obtain ⟨unknown, walk⟩ := not_or.mp usable
  have new : ¬Closed map s.find ⟨curr.x + dx, curr.y + dy⟩ := fun known => unknown known.2
  split
  · rename_i cut
    refine ⟨s, rfl, .settled fun moves _ _ => ?_⟩
    obtain ⟨above, beside⟩ := moves.corner (by simpa [Location.tile] using cut.1.1)
      (by simpa [Location.tile] using cut.1.2)
    simp_all [Location.tile]
  rename_i round
  have moves : Moves map walkmask (Location.tile curr) ⟨curr.x + dx, curr.y + dy⟩ := by
    refine ⟨fun same => ?_, ?_, by simpa using walk, fun left up => ?_⟩
    · simp [Location.tile, Point.mk.injEq] at same
      exact elsewhere same
    · simpa only [Location.tile, apart] using near
    · simp only [Location.tile, ne_eq, add_eq_left] at left up
      have both : map.getWalk curr.x (curr.y + dy) walkmask = true ∧
          map.getWalk (curr.x + dx) curr.y walkmask = true := by simpa [left, up] using round
      exact both
  rw [currNote, Option.bind_some]
  have sum : (infoAt s.find ⟨curr.x, curr.y⟩).gcost + moveCost dx dy =
      cost s.find (Location.tile curr) +
        (grid map walkmask dest).cost (Location.tile curr) ⟨curr.x + dx, curr.y + dy⟩ := by
    simp only [grid, Location.tile, apart, cost]
  rw [sum]
  split
  · rename_i far
    exact ⟨s, rfl, .settled fun _ near _ => absurd near (not_le.mpr far)⟩
  rename_i near
  have within := not_lt.mp near
  split
  · rename_i unlisted
    split
    · rename_i other
      refine ⟨_, rfl, .opens moves new (fun same => ?_) _ rfl within fun opened => ?_⟩
      · rw [← same] at other
        simp at other
      · exact absurd opened.2 unlisted
    · rename_i target
      refine ⟨_, rfl, .finds moves new ?_ _ rfl within⟩
      rw [not_or, not_not, not_not] at target
      exact Point.mk.injEq .. ▸ target
  rename_i listed
  have opened : Opened map s.find ⟨curr.x + dx, curr.y + dy⟩ := ⟨inside, not_not.mp listed⟩
  split
  · rename_i better
    have other : (⟨curr.x + dx, curr.y + dy⟩ : Point) ≠ dest :=
      fun same => noted.target.1 (same ▸ opened)
    refine ⟨_, rfl, ?_⟩
    rw [noted.estimated _ opened, opened.2]
    exact .opens moves new other _ rfl within fun _ => better.le
  · rename_i worse
    exact ⟨s, rfl, .settled fun _ _ _ => ⟨opened, not_lt.mp worse⟩⟩

/-! ## A note on a tile that is not closed -/

section rewritten

variable {f : FindPath} {v q : Point} {info : PathInfo}

theorem Covers.opened_setInfo (covers : Covers map f) (inside : OnMap map v) (other : q ≠ v) :
    Opened map (f.setInfo v.x v.y info) q ↔ Opened map f q := by
  refine and_congr_right fun there => ?_
  rw [covers.infoAt_setInfo inside there, if_neg other]
  rfl

theorem Covers.closed_setInfo (covers : Covers map f) (inside : OnMap map v)
    (new : ¬Closed map f v) (stays : info.whichList ≠ f.mOnClosedList) :
    Closed map (f.setInfo v.x v.y info) q ↔ Closed map f q := by
  by_cases same : q = v
  · subst same
    refine iff_of_false (fun closed => stays ?_) new
    have list := closed.2
    rwa [covers.infoAt_setInfo inside closed.1, if_pos rfl] at list
  · refine and_congr_right fun there => ?_
    rw [covers.infoAt_setInfo inside there, if_neg same]
    rfl

theorem Covers.info_of_closed (covers : Covers map f) (inside : OnMap map v)
    (new : ¬Closed map f v) (closed : Closed map f q) :
    infoAt (f.setInfo v.x v.y info) q = infoAt f q := by
  rw [covers.infoAt_setInfo inside closed.1, if_neg]
  rintro rfl
  exact new closed

theorem parent_congr {f f' : FindPath} (same : infoAt f' q = infoAt f q) :
    parent f' q = parent f q := by
  rw [parent, parent, same]

theorem cost_congr {f f' : FindPath} (same : infoAt f' q = infoAt f q) : cost f' q = cost f q := by
  rw [cost, cost, same]

/-- What was known of the other tiles is still known. -/
theorem Noted.linked_of_ne {waiting : List Location}
    (noted : Noted map walkmask dest maxCost start f waiting) (inside : OnMap map v)
    (new : ¬Closed map f v) (stays : info.whichList ≠ f.mOnClosedList) (other : q ≠ v)
    (known : Closed map (f.setInfo v.x v.y info) q ∨ Opened map (f.setInfo v.x v.y info) q)
    (later : q ≠ start) : Link map walkmask dest maxCost (f.setInfo v.x v.y info) q := by
  have covers := noted.covers
  rw [covers.closed_setInfo inside new stays, covers.opened_setInfo inside other] at known
  have there : OnMap map q := known.elim And.left And.left
  have same : infoAt (f.setInfo v.x v.y info) q = infoAt f q := by
    rw [covers.infoAt_setInfo inside there, if_neg other]
  obtain ⟨closed, moves, sum, within, nonneg⟩ := noted.linked q known later
  have before : infoAt (f.setInfo v.x v.y info) (parent f q) = infoAt f (parent f q) :=
    covers.info_of_closed inside new closed
  refine ⟨?_, ?_, ?_, ?_, ?_⟩
  · rwa [parent_congr same, covers.closed_setInfo inside new stays]
  · rwa [parent_congr same]
  · rwa [parent_congr same, cost_congr same, cost_congr before]
  · rwa [cost_congr same]
  · rwa [parent_congr same, cost_congr before]

/-- The tile itself is now reached over `p`. -/
theorem Covers.link_setInfo (covers : Covers map f) {p : Point} {gcost : Int} (hcost : Int)
    {list : Nat} (closed : Closed map f p) (moves : Moves map walkmask p v) (new : ¬Closed map f v)
    (stays : list ≠ f.mOnClosedList)
    (sum : gcost = cost f p + (grid map walkmask dest).cost p v)
    (within : gcost ≤ maxCost * basicCost) (nonneg : 0 ≤ cost f p) :
    Link map walkmask dest maxCost (f.setInfo v.x v.y ⟨gcost, hcost, list, p.x, p.y⟩) v ∧
      parent (f.setInfo v.x v.y ⟨gcost, hcost, list, p.x, p.y⟩) v = p := by
  have inside : OnMap map v := onMap_of_walk map walkmask moves.walk
  have read : infoAt (f.setInfo v.x v.y ⟨gcost, hcost, list, p.x, p.y⟩) v =
      ⟨gcost, hcost, list, p.x, p.y⟩ := by
    rw [covers.infoAt_setInfo inside inside, if_pos rfl]
  have parent_eq : parent (f.setInfo v.x v.y ⟨gcost, hcost, list, p.x, p.y⟩) v = p := by
    rw [parent, read]
  have cost_eq : cost (f.setInfo v.x v.y ⟨gcost, hcost, list, p.x, p.y⟩) v = gcost := by
    rw [cost, read]
  refine ⟨⟨?_, ?_, ?_, ?_, ?_⟩, parent_eq⟩
  · rwa [parent_eq, covers.closed_setInfo inside new stays]
  · rwa [parent_eq]
  · rwa [parent_eq, cost_eq, cost_congr (covers.info_of_closed inside new closed)]
  · rwa [cost_eq]
  · rwa [parent_eq, cost_congr (covers.info_of_closed inside new closed)]

/-- A new way to a tile that is not closed. -/
theorem Noted.rewritten {waiting waiting' : List Location}
    (noted : Noted map walkmask dest maxCost start f waiting) (inside : OnMap map v)
    (new : ¬Closed map f v) (stays : info.whichList ≠ f.mOnClosedList)
    (list : info.whichList ≤ f.mOnOpenList)
    (link : Link map walkmask dest maxCost (f.setInfo v.x v.y info) v)
    (more : ∀ e ∈ waiting, e ∈ waiting')
    (opened : Opened map (f.setInfo v.x v.y info) v → v ≠ dest ∧
      info.hcost = estimate dest v.x v.y ∧
      ⟨v.x, v.y, info.gcost + estimate dest v.x v.y⟩ ∈ waiting')
    (listed : ∀ e ∈ waiting', e ∈ waiting ∨ Location.tile e = v ∧
      Opened map (f.setInfo v.x v.y info) v ∧ info.gcost + estimate dest e.x e.y ≤ e.fcost)
    (better : Opened map f v → Opened map (f.setInfo v.x v.y info) v ∧ info.gcost ≤ cost f v) :
    Noted map walkmask dest maxCost start (f.setInfo v.x v.y info) waiting' := by
  have covers := noted.covers
  have closed_iff (q : Point) := covers.closed_setInfo (q := q) inside new stays
  have read : infoAt (f.setInfo v.x v.y info) v = info := by
    rw [covers.infoAt_setInfo inside inside, if_pos rfl]
  have other {q : Point} (there : OnMap map q) (ne : q ≠ v) :
      infoAt (f.setInfo v.x v.y info) q = infoAt f q := by
    rw [covers.infoAt_setInfo inside there, if_neg ne]
  refine ⟨covers.setInfo v _, noted.fresh.setInfo _ _ list, ?_, ?_, ?_, ?_, ?_, ?_⟩
  · obtain ⟨closed, zero⟩ := noted.origin
    rw [closed_iff, cost_congr (covers.info_of_closed inside new closed)]
    exact ⟨closed, zero⟩
  · intro q known later
    by_cases same : q = v
    · exact same ▸ link
    · exact noted.linked_of_ne inside new stays same known later
  · intro q open'
    by_cases same : q = v
    · subst same
      rw [read]
      exact (opened open').2.1
    · rw [other open'.1 same]
      exact noted.estimated q ((covers.opened_setInfo inside same).mp open')
  · intro q open'
    by_cases same : q = v
    · subst same
      rw [cost, read]
      exact (opened open').2.2
    · rw [cost_congr (other open'.1 same)]
      exact more _ (noted.waits q ((covers.opened_setInfo inside same).mp open'))
  · intro e member
    rcases listed e member with old | ⟨same, open', bound⟩
    · rcases noted.listed e old with closed | ⟨before, bound⟩
      · exact .inl ((closed_iff _).mpr closed)
      · by_cases same : Location.tile e = v
        · rw [same] at before bound ⊢
          obtain ⟨now, less⟩ := better before
          rw [cost, read]
          exact .inr ⟨now, le_trans (by omega) bound⟩
        · rw [cost_congr (other before.1 same), covers.opened_setInfo inside same]
          exact .inr ⟨before, bound⟩
    · rw [same, cost, read]
      exact .inr ⟨open', bound⟩
  · rw [closed_iff]
    refine ⟨fun open' => ?_, noted.target.2⟩
    by_cases same : dest = v
    · exact (opened (same ▸ open')).1 same.symm
    · exact noted.target.1 ((covers.opened_setInfo inside same).mp open')

end rewritten

/-- What a look at the tile `v` from the closed tile `p` leaves behind. -/
structure Advanced (map : Map) (walkmask : UInt8) (dest : Point) (maxCost : Int) (start : Point)
    (queue : PriorityQueue Location Q Location.Less) (p v : Point) (s s' : Search Q) : Prop where
  noted : Noted map walkmask dest maxCost start s'.find (queue.elements s'.openList)
  closed_iff : ∀ q, Closed map s'.find q ↔ Closed map s.find q
  notes : ∀ q, Closed map s.find q → infoAt s'.find q = infoAt s.find q
  opened : ∀ q, Opened map s.find q → Opened map s'.find q ∧ cost s'.find q ≤ cost s.find q
  way : Moves map walkmask p v →
    cost s.find p + (grid map walkmask dest).cost p v ≤ maxCost * basicCost →
    ¬Closed map s.find v → v = dest ∧ s'.foundPath = true ∨ Opened map s'.find v ∧
      cost s'.find v ≤ cost s.find p + (grid map walkmask dest).cost p v
  found : s'.foundPath = true →
    (Link map walkmask dest maxCost s'.find dest ∧ parent s'.find dest = p ∧ dest ≠ start) ∨
      s.foundPath = true ∧ infoAt s'.find dest = infoAt s.find dest
  stays : s.foundPath = true → s'.foundPath = true
  unclosed_eq : unclosed s'.find = unclosed s.find
  length_le : (queue.elements s'.openList).length ≤ (queue.elements s.openList).length + 1

theorem Noted.nonneg {f : FindPath} {waiting : List Location} {p : Point}
    (noted : Noted map walkmask dest maxCost start f waiting) (closed : Closed map f p) :
    0 ≤ cost f p := by
  by_cases same : p = start
  · rw [same, noted.origin.2]
  · have link := noted.linked p (.inl closed) same
    rw [link.sum]
    exact add_nonneg link.nonneg ((grid map walkmask dest).cost_nonneg _ _ link.moves)

theorem Noted.advanced {p v : Point} {s' : Search Q}
    (noted : Noted map walkmask dest maxCost start s.find (queue.elements s.openList))
    (target : OnMap map dest) (closed : Closed map s.find p)
    (checks : Checks queue map walkmask dest maxCost p v s s') :
    Advanced map walkmask dest maxCost start queue p v s s' := by
  have covers := noted.covers
  cases checks with
  | settled known =>
      exact ⟨noted, fun _ => Iff.rfl, fun _ _ => rfl, fun _ before => ⟨before, le_rfl⟩,
        fun moves near new => .inr (known moves near new), fun found => .inr ⟨found, rfl⟩, id, rfl,
        Nat.le_succ _⟩
  | opens moves new other gcost sum within better =>
      have inside : OnMap map v := onMap_of_walk map walkmask moves.walk
      have stays : s.find.mOnOpenList ≠ s.find.mOnClosedList := by
        rw [noted.fresh.ids]
        omega
      have link := (covers.link_setInfo (estimate dest v.x v.y) closed moves new stays sum within
        (noted.nonneg closed)).1
      have read := covers.infoAt_setInfo inside inside
        ⟨gcost, estimate dest v.x v.y, s.find.mOnOpenList, p.x, p.y⟩
      rw [if_pos rfl] at read
      have now : Opened map (s.find.setInfo v.x v.y
          ⟨gcost, estimate dest v.x v.y, s.find.mOnOpenList, p.x, p.y⟩) v :=
        ⟨inside, by rw [read]; rfl⟩
      refine ⟨noted.rewritten inside new stays le_rfl link ?_ ?_ ?_ ?_,
        fun _ => covers.closed_setInfo inside new stays,
        fun _ known => covers.info_of_closed inside new known, fun q before => ?_,
        fun _ _ _ => .inr ⟨now, ?_⟩, fun found => .inr ⟨found, ?_⟩, id, ?_, ?_⟩
      · exact fun e member => queue.mem_push.mpr (.inr member)
      · exact fun _ => ⟨other, rfl, queue.mem_push.mpr (.inl rfl)⟩
      · intro e member
        rcases queue.mem_push.mp member with rfl | old
        · exact .inr ⟨rfl, now, le_rfl⟩
        · exact .inl old
      · exact fun before => ⟨now, better before⟩
      · by_cases same : q = v
        · subst same
          rw [cost, read]
          exact ⟨now, better before⟩
        · rw [covers.opened_setInfo inside same, cost, covers.infoAt_setInfo inside before.1,
            if_neg same]
          exact ⟨before, le_rfl⟩
      · rw [cost, read]
        exact sum.le
      · rw [covers.infoAt_setInfo inside target, if_neg fun same => other same.symm]
      · have count := covers.unclosed_setInfo inside new
          ⟨gcost, estimate dest v.x v.y, s.find.mOnOpenList, p.x, p.y⟩
        rwa [if_neg stays] at count
      · exact (queue.length_push _ _).le
  | finds moves new same gcost sum within =>
      subst same
      have stays : (infoAt s.find v).whichList ≠ s.find.mOnClosedList := fun list =>
        new ⟨target, list⟩
      have other : v ≠ start := fun same => new (same ▸ noted.origin.1)
      have unlisted : ¬Opened map s.find v := noted.target.1
      obtain ⟨link, parent_eq⟩ := covers.link_setInfo (estimate v v.x v.y) closed moves new stays
        sum within (noted.nonneg closed)
      have list : (infoAt s.find v).whichList ≤ s.find.mOnOpenList :=
        noted.fresh.noted _ (List.mem_of_getElem? (covers.getInfo_eq target).2)
      have never : ¬Opened map (s.find.setInfo v.x v.y
          ⟨gcost, estimate v v.x v.y, (infoAt s.find v).whichList, p.x, p.y⟩) v := by
        intro opened
        have list := opened.2
        rw [covers.infoAt_setInfo target target, if_pos rfl] at list
        exact unlisted ⟨target, list⟩
      refine ⟨noted.rewritten target new stays list link (fun _ member => member)
          (fun opened => absurd opened never) (fun _ member => .inl member)
          (fun opened => absurd opened unlisted),
        fun _ => covers.closed_setInfo target new stays,
        fun _ known => covers.info_of_closed target new known, fun q before => ?_,
        fun _ _ _ => .inl ⟨rfl, rfl⟩, fun _ => .inl ⟨link, parent_eq, other⟩, fun _ => rfl, ?_,
        Nat.le_succ _⟩
      · have other : q ≠ v := fun same => unlisted (same ▸ before)
        rw [covers.opened_setInfo target other, cost, covers.infoAt_setInfo target before.1,
          if_neg other]
        exact ⟨before, le_rfl⟩
      · have count := covers.unclosed_setInfo target new
          ⟨gcost, estimate v v.x v.y, (infoAt s.find v).whichList, p.x, p.y⟩
        rwa [if_neg stays] at count

/-- The closed tile `p` is being left in all directions; the tiles `done` were looked at. -/
structure Expanded (map : Map) (walkmask : UInt8) (dest : Point) (maxCost : Int) (start : Point)
    (queue : PriorityQueue Location Q Location.Less) (p : Point) (done : List Point)
    (s s' : Search Q) : Prop where
  noted : Noted map walkmask dest maxCost start s'.find (queue.elements s'.openList)
  closed_iff : ∀ q, Closed map s'.find q ↔ Closed map s.find q
  notes : ∀ q, Closed map s.find q → infoAt s'.find q = infoAt s.find q
  opened : ∀ q, Opened map s.find q → Opened map s'.find q ∧ cost s'.find q ≤ cost s.find q
  way : ∀ v ∈ done, Moves map walkmask p v →
    cost s.find p + (grid map walkmask dest).cost p v ≤ maxCost * basicCost →
    ¬Closed map s.find v → v = dest ∧ s'.foundPath = true ∨ Opened map s'.find v ∧
      cost s'.find v ≤ cost s.find p + (grid map walkmask dest).cost p v
  found : s'.foundPath = true →
    Link map walkmask dest maxCost s'.find dest ∧ parent s'.find dest = p ∧ dest ≠ start
  unclosed_eq : unclosed s'.find = unclosed s.find
  length_le : (queue.elements s'.openList).length ≤
    (queue.elements s.openList).length + done.length

theorem Expanded.advance {p v : Point} {done : List Point} {s₁ s₂ : Search Q}
    (expanded : Expanded map walkmask dest maxCost start queue p done s s₁)
    (closed : Closed map s.find p)
    (advanced : Advanced map walkmask dest maxCost start queue p v s₁ s₂) :
    Expanded map walkmask dest maxCost start queue p (done ++ [v]) s s₂ := by
  have source : cost s₁.find p = cost s.find p := cost_congr (expanded.notes p closed)
  refine ⟨advanced.noted, fun q => (advanced.closed_iff q).trans (expanded.closed_iff q),
    fun q known => ?_, fun q before => ?_, fun u listed moves near new => ?_, fun found => ?_,
    advanced.unclosed_eq.trans expanded.unclosed_eq, ?_⟩
  · rw [advanced.notes q ((expanded.closed_iff q).mpr known), expanded.notes q known]
  · obtain ⟨now, less⟩ := expanded.opened q before
    obtain ⟨later, least⟩ := advanced.opened q now
    exact ⟨later, least.trans less⟩
  · rcases List.mem_append.mp listed with old | last
    · rcases expanded.way u old moves near new with ⟨same, found⟩ | ⟨now, less⟩
      · exact .inl ⟨same, advanced.stays found⟩
      · obtain ⟨later, least⟩ := advanced.opened u now
        exact .inr ⟨later, least.trans less⟩
    · obtain rfl := List.mem_singleton.mp last
      rw [← source] at near ⊢
      exact advanced.way moves near fun known => new ((expanded.closed_iff u).mp known)
  · rcases advanced.found found with now | ⟨before, same⟩
    · exact now
    · obtain ⟨⟨known, moves, sum, within, nonneg⟩, parent_eq, other⟩ := expanded.found before
      have still := (advanced.closed_iff _).mpr known
      have source := cost_congr (advanced.notes _ known)
      refine ⟨⟨?_, ?_, ?_, ?_, ?_⟩, (parent_congr same).trans parent_eq, other⟩
      · rwa [parent_congr same]
      · rwa [parent_congr same]
      · rwa [parent_congr same, cost_congr same, source]
      · rwa [cost_congr same]
      · rwa [parent_congr same, source]
  · have more := advanced.length_le
    have before := expanded.length_le
    rw [List.length_append, List.length_singleton]
    omega

def neighbour (curr : Location) (direction : Int × Int) : Point :=
  ⟨curr.x + direction.1, curr.y + direction.2⟩

theorem foldlM_expanded {s₁ : Search Q} {done : List Point} (target : OnMap map dest)
    (closed : Closed map s.find (Location.tile curr)) (ds : List (Int × Int))
    (near : ∀ d ∈ ds, |d.1| ≤ 1 ∧ |d.2| ≤ 1)
    (expanded : Expanded map walkmask dest maxCost start queue (Location.tile curr) done s s₁) :
    ∃ s', ds.foldlM (checkAdjacent queue map walkmask dest maxCost curr) s₁ = some s' ∧
      Expanded map walkmask dest maxCost start queue (Location.tile curr)
        (done ++ ds.map (neighbour curr)) s s' := by
  induction ds generalizing s₁ done with
  | nil => exact ⟨s₁, rfl, by rwa [List.map_nil, List.append_nil]⟩
  | cons d ds ih =>
      have there := (expanded.closed_iff _).mpr closed
      obtain ⟨s₂, run, checks⟩ :=
        checkAdjacent_checks expanded.noted there (near d List.mem_cons_self)
      obtain ⟨s', rest, all⟩ := ih (fun other member => near other (List.mem_cons_of_mem _ member))
        (expanded.advance closed (expanded.noted.advanced target there checks))
      refine ⟨s', ?_, ?_⟩
      · rw [List.foldlM_cons, run]
        exact rest
      · rwa [List.map_cons, List.append_cons]

theorem mem_directions {dx dy : Int} : (dx, dy) ∈ directions ↔ |dx| ≤ 1 ∧ |dy| ≤ 1 := by
  rw [abs_le, abs_le]
  simp [directions]
  omega

theorem moves_neighbour {v : Point} (moves : Moves map walkmask (Location.tile curr) v) :
    v ∈ directions.map (neighbour curr) := by
  refine List.mem_map.mpr ⟨(v.x - curr.x, v.y - curr.y), mem_directions.mpr moves.near, ?_⟩
  rw [neighbour, add_sub_cancel, add_sub_cancel]

theorem expand (target : OnMap map dest) (closed : Closed map s.find (Location.tile curr))
    (noted : Noted map walkmask dest maxCost start s.find (queue.elements s.openList))
    (unfound : s.foundPath = false) :
    ∃ s', directions.foldlM (checkAdjacent queue map walkmask dest maxCost curr) s = some s' ∧
      Expanded map walkmask dest maxCost start queue (Location.tile curr)
        (directions.map (neighbour curr)) s s' :=
  have none : Expanded map walkmask dest maxCost start queue (Location.tile curr) [] s s :=
    ⟨noted, fun _ => Iff.rfl, fun _ _ => rfl, fun _ before => ⟨before, le_rfl⟩,
      fun _ listed => absurd listed List.not_mem_nil,
      fun found => absurd found (by simp [unfound]), rfl, Nat.le_refl _⟩
  foldlM_expanded target closed directions (fun _ member => mem_directions.mp member) none

/-! ## The open list -/

/-- The least way to every closed tile is known. -/
def Explores (map : Map) (walkmask : UInt8) (dest : Point) (maxCost : Int) (start : Point)
    (f : FindPath) : Prop :=
  (grid map walkmask dest).Explored start (maxCost * basicCost) (Closed map f) (Opened map f)
    (cost f)

/-- The target was found from a tile to which the way is the least. -/
structure Found (map : Map) (walkmask : UInt8) (dest : Point) (maxCost : Int) (start : Point)
    (f : FindPath) : Prop where
  covers : Covers map f
  fresh : Fresh f
  origin : Closed map f start ∧ cost f start = 0
  linked : ∀ p, Closed map f p → p ≠ start → Link map walkmask dest maxCost f p
  last : Link map walkmask dest maxCost f dest
  other : dest ≠ start
  least : ∀ path c, (grid map walkmask dest).Walk start path dest c → c ≤ maxCost * basicCost →
    cost f dest ≤ c + 1

theorem grid_estimate (p : Point) :
    (grid map walkmask dest).estimate p = estimate dest p.x p.y :=
  rfl

/-- The tile `p` was just closed: the ways to the closed tiles are the least, the tiles next to the
others are open, and no way to the target is cheaper than `p` promises. -/
structure Leaving (map : Map) (walkmask : UInt8) (dest : Point) (maxCost : Int) (start p : Point)
    (f : FindPath) : Prop where
  least : ∀ v, Closed map f v → ∀ path c, (grid map walkmask dest).Walk start path v c →
    c ≤ maxCost * basicCost → cost f v ≤ c
  frontier : ∀ u v, Closed map f u → u ≠ p → Moves map walkmask u v →
    cost f u + (grid map walkmask dest).cost u v ≤ maxCost * basicCost → ¬Closed map f v →
    Opened map f v ∧ cost f v ≤ cost f u + (grid map walkmask dest).cost u v
  promise : dest ≠ start → ∀ path c, (grid map walkmask dest).Walk start path dest c →
    c ≤ maxCost * basicCost → cost f p + estimate dest p.x p.y ≤ c

theorem leaving_of_explored {f : FindPath} {p : Point} {closed opened : Point → Prop}
    {g : Point → Int}
    (explored : (grid map walkmask dest).Explored start (maxCost * basicCost) closed opened g)
    (new : ¬closed p) (first : ∀ w, opened w → g p + estimate dest p.x p.y ≤
      g w + estimate dest w.x w.y) (target : closed dest → dest = start)
    (closes : ∀ v, Closed map f v ↔ closed v ∨ v = p)
    (opens : ∀ v, opened v → v ≠ p → Opened map f v)
    (costs : ∀ v, OnMap map v → cost f v = g v) :
    Leaving map walkmask dest maxCost start p f := by
  have inside (v : Point) (known : closed v ∨ v = p) : cost f v = g v :=
    costs v ((closes v).mpr known).1
  refine ⟨fun v known path c walk near => ?_, fun u v known other moves near unknown => ?_,
    fun ne path c walk near => ?_⟩
  · have before := (closes v).mp known
    rw [inside v before]
    rcases before with before | rfl
    · exact explored.least v before path c walk near
    · exact explored.least_of_first new first walk near
  · have before := ((closes u).mp known).resolve_right other
    obtain ⟨later, apart⟩ := not_or.mp ((closes v).not.mp unknown)
    rw [inside u (.inl before)] at near ⊢
    obtain ⟨there, bound⟩ := explored.frontier u v before moves near later
    rw [costs v (onMap_of_walk map walkmask moves.walk)]
    exact ⟨opens v there apart, bound⟩
  · obtain ⟨w, there, bound⟩ := explored.ahead walk near fun known => ne (target known)
    rw [inside p (.inr rfl)]
    refine (first w there).trans (bound.trans_eq ?_)
    rw [grid_estimate, estimate_dest, add_zero]

theorem Leaving.explores {p : Point} {s s' : Search Q}
    (leaving : Leaving map walkmask dest maxCost start p s.find)
    (expanded : Expanded map walkmask dest maxCost start queue p (directions.map fun d =>
      ⟨p.x + d.1, p.y + d.2⟩) s s')
    (unfound : s'.foundPath = false) :
    Explores map walkmask dest maxCost start s'.find := by
  have costs (v : Point) (known : Closed map s'.find v) : cost s'.find v = cost s.find v :=
    cost_congr (expanded.notes v ((expanded.closed_iff v).mp known))
  refine ⟨fun new => absurd expanded.noted.origin.1 new, fun v known path c walk near => ?_,
    fun u v known moves near new => ?_⟩
  · rw [costs v known]
    exact leaving.least v ((expanded.closed_iff v).mp known) path c walk near
  · rw [costs u known] at near ⊢
    have before := (expanded.closed_iff u).mp known
    rw [expanded.closed_iff] at new
    by_cases same : u = p
    · subst same
      have listed : v ∈ directions.map fun d => (⟨u.x + d.1, u.y + d.2⟩ : Point) :=
        (moves_neighbour moves : v ∈ directions.map (neighbour ⟨u.x, u.y, 0⟩))
      rcases expanded.way v listed moves near new with ⟨-, found⟩ | opened
      · rw [unfound] at found
        contradiction
      · exact opened
    · obtain ⟨there, bound⟩ := leaving.frontier u v before same moves near new
      obtain ⟨later, less⟩ := expanded.opened v there
      exact ⟨later, less.trans bound⟩

theorem Leaving.found {p : Point} {done : List Point} {s s' : Search Q}
    (leaving : Leaving map walkmask dest maxCost start p s.find) (closed : Closed map s.find p)
    (expanded : Expanded map walkmask dest maxCost start queue p done s s')
    (found : s'.foundPath = true) : Found map walkmask dest maxCost start s'.find := by
  obtain ⟨link, same, other⟩ := expanded.found found
  refine ⟨expanded.noted.covers, expanded.noted.fresh, expanded.noted.origin,
    fun q known => expanded.noted.linked q (.inl known), link, other, fun path c walk near => ?_⟩
  have promise := leaving.promise other path c walk near
  have moves := link.moves
  have sum := link.sum
  rw [same] at moves sum
  have last : (grid map walkmask dest).cost p dest ≤ estimate dest p.x p.y + 1 := by
    refine moveCost_last dest moves.near ?_
    rw [← not_and_or, ← Point.mk.injEq]
    exact fun eq => moves.other eq.symm
  rw [cost_congr (expanded.notes p closed)] at sum
  omega

/-! ## Closing a tile -/

section closing

variable {f : FindPath} {p q : Point}

def close (f : FindPath) (p : Point) : FindPath :=
  f.setInfo p.x p.y { infoAt f p with whichList := f.mOnClosedList }

theorem Covers.infoAt_close (covers : Covers map f) (inside : OnMap map p) (there : OnMap map q) :
    infoAt (close f p) q =
      if q = p then { infoAt f p with whichList := f.mOnClosedList } else infoAt f q :=
  covers.infoAt_setInfo inside there _

theorem Covers.parent_close (covers : Covers map f) (inside : OnMap map p) (there : OnMap map q) :
    parent (close f p) q = parent f q := by
  rw [parent, covers.infoAt_close inside there]
  split
  · rename_i same
    rw [same]
    rfl
  · rfl

theorem Covers.cost_close (covers : Covers map f) (inside : OnMap map p) (there : OnMap map q) :
    cost (close f p) q = cost f q := by
  rw [cost, covers.infoAt_close inside there]
  split
  · rename_i same
    rw [same]
    rfl
  · rfl

theorem Covers.closed_close (covers : Covers map f) (inside : OnMap map p) :
    Closed map (close f p) q ↔ Closed map f q ∨ q = p := by
  by_cases same : q = p
  · subst same
    refine iff_of_true ⟨inside, ?_⟩ (.inr rfl)
    rw [covers.infoAt_close inside inside, if_pos rfl]
    rfl
  · rw [or_iff_left same]
    refine and_congr_right fun there => ?_
    rw [covers.infoAt_close inside there, if_neg same]
    rfl

theorem Covers.opened_close (covers : Covers map f) (fresh : Fresh f) (inside : OnMap map p) :
    Opened map (close f p) q ↔ Opened map f q ∧ q ≠ p := by
  by_cases same : q = p
  · subst same
    refine iff_of_false (fun opened => ?_) fun both => both.2 rfl
    have list := opened.2
    rw [covers.infoAt_close inside inside, if_pos rfl] at list
    have ids := fresh.ids
    change f.mOnClosedList = f.mOnOpenList at list
    omega
  · rw [and_iff_left same]
    refine and_congr_right fun there => ?_
    rw [covers.infoAt_close inside there, if_neg same]
    rfl

theorem Fresh.close (fresh : Fresh f) (p : Point) : Fresh (close f p) :=
  fresh.setInfo _ _ (by rw [fresh.ids]; exact Nat.le_succ _)

theorem Noted.close {waiting rest : List Location} {first : Location}
    (noted : Noted map walkmask dest maxCost start f waiting)
    (opened : Opened map f (Location.tile first)) (split : ∀ e, e ∈ waiting ↔ e = first ∨ e ∈ rest) :
    Noted map walkmask dest maxCost start (close f (Location.tile first)) rest := by
  have covers := noted.covers
  have inside := opened.1
  have closed_iff (q : Point) := covers.closed_close (q := q) inside
  have opened_iff (q : Point) := covers.opened_close (q := q) noted.fresh inside
  refine ⟨covers.setInfo _ _, noted.fresh.close _, ?_, ?_, ?_, ?_, ?_, ?_⟩
  · obtain ⟨known, zero⟩ := noted.origin
    rw [closed_iff, covers.cost_close inside known.1]
    exact ⟨.inl known, zero⟩
  · intro q known later
    have before : Closed map f q ∨ Opened map f q := by
      rw [closed_iff, opened_iff] at known
      rcases known with (closed | rfl) | both
      · exact .inl closed
      · exact .inr opened
      · exact .inr both.1
    have there : OnMap map q := before.elim And.left And.left
    obtain ⟨closed, moves, sum, within, nonneg⟩ := noted.linked q before later
    refine ⟨?_, ?_, ?_, ?_, ?_⟩
    · rw [covers.parent_close inside there]
      exact (closed_iff _).mpr (.inl closed)
    · rwa [covers.parent_close inside there]
    · rwa [covers.parent_close inside there, covers.cost_close inside there,
        covers.cost_close inside closed.1]
    · rwa [covers.cost_close inside there]
    · rwa [covers.parent_close inside there, covers.cost_close inside closed.1]
  · intro q known
    obtain ⟨before, other⟩ := (opened_iff q).mp known
    rw [covers.infoAt_close inside before.1, if_neg other]
    exact noted.estimated q before
  · intro q known
    obtain ⟨before, other⟩ := (opened_iff q).mp known
    rw [covers.cost_close inside before.1]
    refine ((split _).mp (noted.waits q before)).resolve_left fun same => other ?_
    rw [← same]
    rfl
  · intro e member
    rw [closed_iff, opened_iff]
    rcases noted.listed e ((split e).mpr (.inr member)) with closed | ⟨before, bound⟩
    · exact .inl (.inl closed)
    · by_cases same : Location.tile e = Location.tile first
      · exact .inl (.inr same)
      · rw [covers.cost_close inside before.1]
        exact .inr ⟨⟨before, same⟩, bound⟩
  · rw [closed_iff, opened_iff]
    refine ⟨fun both => noted.target.1 both.1, fun known => ?_⟩
    rcases known with closed | same
    · exact noted.target.2 closed
    · exact absurd (same ▸ opened) noted.target.1

/-- The location of a tile that was closed in the meantime. -/
theorem Noted.skip {waiting rest : List Location} {first : Location}
    (noted : Noted map walkmask dest maxCost start f waiting)
    (closed : Closed map f (Location.tile first)) (split : ∀ e, e ∈ waiting ↔ e = first ∨ e ∈ rest) :
    Noted map walkmask dest maxCost start f rest := by
  refine { noted with waits := fun q opened => ?_, listed := fun e member => ?_ }
  · refine ((split _).mp (noted.waits q opened)).resolve_left fun same => ?_
    rw [← same] at closed
    exact noted.fresh.apart closed opened
  · exact noted.listed e ((split e).mpr (.inr member))

end closing

/-- What the loop over the open list ends with. -/
inductive Ends (map : Map) (walkmask : UInt8) (dest : Point) (maxCost : Int) (start : Point)
    (s : Search Q) : Prop where
  | found (yes : s.foundPath = true) (found : Found map walkmask dest maxCost start s.find)
  | exhausted (no : s.foundPath = false) (fresh : Fresh s.find)
      (closed : ∀ path c v, (grid map walkmask dest).Walk start path v c →
        c ≤ maxCost * basicCost → Closed map s.find v)
      (target : Closed map s.find dest → dest = start)

theorem searchLoop_found {fuel : Nat} (found : s.foundPath = true) :
    searchLoop queue map walkmask dest maxCost (fuel + 1) s = some s := by
  rw [searchLoop]
  split
  · rfl
  · rw [if_pos found]

/-- A tile is taken off the list, closed and left. -/
theorem searchLoop_leave {fuel : Nat} {first : Location} (unfound : s.foundPath = false)
    (top : queue.top s.openList = some first) (covers : Covers map s.find)
    (inside : OnMap map (Location.tile first)) (new : ¬Closed map s.find (Location.tile first))
    {s' : Search Q}
    (run : directions.foldlM (checkAdjacent queue map walkmask dest maxCost first)
      { s with openList := queue.pop s.openList, find := close s.find (Location.tile first) } =
        some s') :
    searchLoop queue map walkmask dest maxCost (fuel + 1) s =
      searchLoop queue map walkmask dest maxCost fuel s' := by
  have note := (covers.getInfo_eq inside).1
  have unlisted : (infoAt s.find (Location.tile first)).whichList ≠ s.find.mOnClosedList :=
    fun list => new ⟨inside, list⟩
  simp only [Location.tile] at note unlisted
  rw [searchLoop, top]
  dsimp only
  rw [if_neg (by simp [unfound]), note, Option.bind_eq_bind, Option.bind_some, if_neg unlisted]
  exact congrArg (fun answer : Option (Search Q) => answer.bind _) run

theorem searchLoop_skip {fuel : Nat} {first : Location} (unfound : s.foundPath = false)
    (top : queue.top s.openList = some first) (covers : Covers map s.find)
    (closed : Closed map s.find (Location.tile first)) :
    searchLoop queue map walkmask dest maxCost (fuel + 1) s =
      searchLoop queue map walkmask dest maxCost fuel
        { s with openList := queue.pop s.openList } := by
  have note := (covers.getInfo_eq closed.1).1
  have list := closed.2
  simp only [Location.tile] at note list
  rw [searchLoop, top]
  dsimp only
  rw [if_neg (by simp [unfound]), note, Option.bind_eq_bind, Option.bind_some, if_pos list]

/-- What is left after a tile was closed and all its neighbours were looked at: the loop goes on
there, or the target was found. -/
theorem leave_ends (target : OnMap map dest) {fuel : Nat} {s s₁ : Search Q} {first : Location}
    (loop : ∀ {s : Search Q}, Noted map walkmask dest maxCost start s.find
      (queue.elements s.openList) → Explores map walkmask dest maxCost start s.find →
      s.foundPath = false →
      10 * unclosed s.find + (queue.elements s.openList).length < fuel →
      ∃ s', searchLoop queue map walkmask dest maxCost fuel s = some s' ∧
        Ends map walkmask dest maxCost start s')
    (top : queue.top s.openList = some first) (covers : Covers map s.find)
    (inside : OnMap map (Location.tile first)) (new : ¬Closed map s.find (Location.tile first))
    (left : s₁ = { s with
      openList := queue.pop s.openList, find := close s.find (Location.tile first) })
    (noted : Noted map walkmask dest maxCost start s₁.find (queue.elements s₁.openList))
    (leaving : Leaving map walkmask dest maxCost start (Location.tile first) s₁.find)
    (unfound : s.foundPath = false)
    (enough : 10 * unclosed s.find + (queue.elements s.openList).length < fuel + 1) :
    ∃ s', searchLoop queue map walkmask dest maxCost (fuel + 1) s = some s' ∧
      Ends map walkmask dest maxCost start s' := by
  subst left
  have closed := (covers.closed_close (q := Location.tile first) inside).mpr (.inr rfl)
  obtain ⟨s', run, expanded⟩ := expand target closed noted unfound
  have count : unclosed (close s.find (Location.tile first)) + 1 = unclosed s.find := by
    have counted := covers.unclosed_setInfo inside new
      { infoAt s.find (Location.tile first) with whichList := s.find.mOnClosedList }
    rwa [if_pos rfl] at counted
  have popped := queue.length_pop top
  have pushed := expanded.length_le
  have same := expanded.unclosed_eq
  change unclosed s'.find = unclosed (close s.find (Location.tile first)) at same
  change _ ≤ (queue.elements (queue.pop s.openList)).length + 9 at pushed
  rw [searchLoop_leave unfound top covers inside new run]
  cases found : s'.foundPath with
  | true =>
      obtain _ | fuel := fuel
      · omega
      · exact ⟨s', searchLoop_found found, .found found (leaving.found closed expanded found)⟩
  | false =>
      exact loop expanded.noted (leaving.explores expanded found) found (by omega)

/-- From a state between two turns the loop comes to an end. -/
theorem searchLoop_ends (target : OnMap map dest) (fuel : Nat) {s : Search Q}
    (noted : Noted map walkmask dest maxCost start s.find (queue.elements s.openList))
    (explores : Explores map walkmask dest maxCost start s.find) (unfound : s.foundPath = false)
    (enough : 10 * unclosed s.find + (queue.elements s.openList).length < fuel) :
    ∃ s', searchLoop queue map walkmask dest maxCost fuel s = some s' ∧
      Ends map walkmask dest maxCost start s' := by
  induction fuel generalizing s with
  | zero => omega
  | succ fuel ih =>
      have covers := noted.covers
      cases top : queue.top s.openList with
      | none =>
          refine ⟨s, by rw [searchLoop, top], .exhausted unfound noted.fresh ?_ noted.target.2⟩
          intro path c v walk near
          refine explores.closed_of_none (fun w opened => ?_) walk near
          have waits := noted.waits w opened
          rw [(queue.top_eq_none _).mp top] at waits
          exact List.not_mem_nil waits
      | some first =>
          have split (e : Location) := queue.mem_top (b := e) top
          have length := queue.length_pop top
          rcases noted.listed first ((split first).mpr (.inl rfl)) with closed | ⟨opened, bound⟩
          · rw [searchLoop_skip unfound top covers closed]
            exact ih (noted.skip closed split) explores unfound (by
              change 10 * unclosed s.find + (queue.elements (queue.pop s.openList)).length < fuel
              omega)
          · have inside := opened.1
            have new : ¬Closed map s.find (Location.tile first) := fun closed =>
              noted.fresh.apart closed opened
            refine leave_ends target ih top covers inside new rfl (noted.close opened split) ?_
              unfound enough
            refine leaving_of_explored explores new (fun w other => ?_) noted.target.2
              (fun v => covers.closed_close inside)
              (fun v before apart => (covers.opened_close noted.fresh inside).mpr ⟨before, apart⟩)
              (fun v there => covers.cost_close inside there)
            have order := queue.top_first _ _ top _ (noted.waits w other)
            exact bound.trans (not_lt.mp order)

/-! ## The first turn -/

/-- No tile is on a list of this search. -/
def Blank (f : FindPath) : Prop := ∀ info ∈ f.mPathInfos, info.whichList < f.mOnClosedList

variable (map) in
theorem prepare_spec {f : FindPath} (fresh : Fresh f) :
    Covers map (f.prepare map) ∧ Fresh (f.prepare map) ∧ Blank (f.prepare map) := by
  have positive : 0 ≤ map.mWidth * map.mHeight := mul_nonneg map.width_nonneg map.height_nonneg
  have long {infos : List PathInfo} : map.mWidth * map.mHeight ≤
      ((infos ++ List.replicate ((map.mWidth * map.mHeight).toNat - infos.length)
        ({} : PathInfo)).length : Int) := by
    rw [List.length_append, List.length_replicate]
    omega
  have blank : Blank (f.prepare map) ∧ (f.prepare map).mOnOpenList =
      (f.prepare map).mOnClosedList + 1 := by
    have ids := fresh.ids
    rw [prepare]
    split
    · refine ⟨fun info member => ?_, by dsimp only; omega⟩
      rcases List.mem_append.mp member with old | new
      · have known := fresh.noted info old
        dsimp only
        omega
      · rw [List.eq_of_mem_replicate new]
        exact Nat.succ_pos _
    · refine ⟨fun info member => ?_, rfl⟩
      rcases List.mem_append.mp member with old | new
      · obtain ⟨before, -, rfl⟩ := List.mem_map.mp old
        exact Nat.one_pos
      · rw [List.eq_of_mem_replicate new]
        exact Nat.one_pos
  refine ⟨⟨rfl, ?_⟩, ⟨blank.2, fun info member => ?_⟩, blank.1⟩
  · rw [prepare]
    exact long
  · have known := blank.1 info member
    have ids := blank.2
    omega

theorem Blank.unlisted {f : FindPath} (blank : Blank f) (fresh : Fresh f) (covers : Covers map f)
    (p : Point) : ¬Closed map f p ∧ ¬Opened map f p := by
  have less (inside : OnMap map p) : (infoAt f p).whichList < f.mOnClosedList :=
    blank _ (List.mem_of_getElem? (covers.getInfo_eq inside).2)
  have ids := fresh.ids
  constructor
  · intro closed
    have := less closed.1
    rw [closed.2] at this
    omega
  · intro opened
    have := less opened.1
    rw [opened.2] at this
    omega

variable (walkmask dest maxCost) in
theorem noted_first {f : FindPath} (covers : Covers map f) (fresh : Fresh f) (blank : Blank f)
    (inside : OnMap map start) (zero : cost f start = 0) :
    Noted map walkmask dest maxCost start (close f start) [] := by
  have closed_iff (q : Point) : Closed map (close f start) q ↔ q = start := by
    rw [covers.closed_close inside, or_iff_right (blank.unlisted fresh covers q).1]
  have never (q : Point) : ¬Opened map (close f start) q := by
    rw [covers.opened_close fresh inside]
    exact fun both => (blank.unlisted fresh covers q).2 both.1
  refine ⟨covers.setInfo _ _, fresh.close _, ⟨(closed_iff _).mpr rfl, ?_⟩, fun q known later => ?_,
    fun q opened => absurd opened (never q), fun q opened => absurd opened (never q),
    fun e member => absurd member List.not_mem_nil, never dest, (closed_iff dest).mp⟩
  · rw [covers.cost_close inside inside, zero]
  · rcases known with closed | opened
    · exact absurd ((closed_iff q).mp closed) later
    · exact absurd opened (never q)

theorem top_single {q : Q} {a : Location} (single : (queue.elements q).Perm [a]) :
    queue.top q = some a ∧ queue.elements (queue.pop q) = [] := by
  cases top : queue.top q with
  | none =>
      rw [(queue.top_eq_none q).mp top] at single
      exact absurd single.nil_eq.symm (List.cons_ne_nil a [])
  | some b =>
      obtain ⟨rfl, nil⟩ := List.cons.inj (List.perm_singleton.mp
        ((queue.elements_top q b top).symm.trans single))
      exact ⟨rfl, nil⟩

theorem searchLoop_start (target : OnMap map dest) {f : FindPath} {openList : Q} {fuel : Nat}
    (covers : Covers map f) (fresh : Fresh f) (blank : Blank f) (inside : OnMap map start)
    (zero : cost f start = 0) (single : (queue.elements openList).Perm [⟨start.x, start.y, 0⟩])
    (enough : 10 * unclosed f + 1 < fuel + 1) :
    ∃ s', searchLoop queue map walkmask dest maxCost (fuel + 1) ⟨f, openList, false⟩ = some s' ∧
      Ends map walkmask dest maxCost start s' := by
  obtain ⟨top, nil⟩ := top_single single
  have noted := noted_first walkmask dest maxCost covers fresh blank inside zero
  refine leave_ends target (searchLoop_ends target fuel) top covers inside
    (blank.unlisted fresh covers start).1 rfl (by rw [nil]; exact noted) ?_ rfl
    (by rw [single.length_eq]; exact enough)
  have explored : (grid map walkmask dest).Explored start (maxCost * basicCost) (fun _ => False)
      (· = start) (cost f) :=
    ⟨fun _ => ⟨rfl, zero.le⟩, fun _ known => known.elim, fun _ _ known => known.elim⟩
  refine leaving_of_explored explored id (fun w same => ?_) False.elim (fun v => ?_)
    (fun v same other => absurd same other) (fun v there => covers.cost_close inside there)
  · rw [same]
    rfl
  · change Closed map (close f start) v ↔ False ∨ v = start
    rw [covers.closed_close inside, iff_false_intro (blank.unlisted fresh covers v).1]

/-! ## The whole search -/

/-- Following the parents gives the way that was found. -/
theorem Found.extract {f : FindPath} (found : Found map walkmask dest maxCost start f)
    (fuel : Nat) {p : Point} (path : Path) (closed : Closed map f p) (nonneg : 0 ≤ cost f p)
    (enough : cost f p < fuel) :
    ∃ before, FindPath.extract f start fuel p.x p.y path = some (before ++ path) ∧
      (grid map walkmask dest).Walk start before p (cost f p) := by
  induction fuel generalizing p path with
  | zero => omega
  | succ fuel ih =>
      rw [FindPath.extract]
      by_cases same : p = start
      · subst same
        rw [if_neg (by simp), found.origin.2]
        exact ⟨[], rfl, .start⟩
      · have link := found.linked p closed same
        have step : 0 < (grid map walkmask dest).cost (parent f p) p := moveCost_pos _ _
        have sum := link.sum
        obtain ⟨before, run, walk⟩ := ih (p :: path) link.closed link.nonneg (by omega)
        refine ⟨before ++ [p], ?_, sum ▸ walk.move link.moves⟩
        have apart : p.x ≠ start.x ∨ p.y ≠ start.y := by
          rw [← not_and_or, ← Point.mk.injEq]
          exact same
        rw [if_pos apart, (found.covers.getInfo_eq closed.1).1, List.append_assoc]
        exact run

theorem Found.extract_dest {f : FindPath} (found : Found map walkmask dest maxCost start f) :
    ∃ path, FindPath.extract f start ((cost f dest).toNat + 1) dest.x dest.y [] = some path ∧
      path ≠ [] ∧ (grid map walkmask dest).Walk start path dest (cost f dest) := by
  have link := found.last
  have step : 0 < (grid map walkmask dest).cost (parent f dest) dest := moveCost_pos _ _
  have sum := link.sum
  have nonneg := link.nonneg
  obtain ⟨before, run, walk⟩ := found.extract (cost f dest).toNat [dest] link.closed nonneg
    (by omega)
  refine ⟨before ++ [dest], ?_, by simp, sum ▸ walk.move link.moves⟩
  have apart : dest.x ≠ start.x ∨ dest.y ≠ start.y := by
    rw [← not_and_or, ← Point.mk.injEq]
    exact found.other
  have inside : OnMap map dest := onMap_of_walk map walkmask link.moves.walk
  rw [FindPath.extract, if_pos apart, (found.covers.getInfo_eq inside).1]
  exact run

/-- What `findPath` promises: a path that it gives is a way to the target within the limit, at most
1 more expensive than any other; if it gives none there is none. -/
structure Answers (map : Map) (walkmask : UInt8) (dest : Point) (maxCost : Int) (start : Point)
    (path : Path) : Prop where
  way : path ≠ [] → ∃ c, (grid map walkmask dest).Walk start path dest c ∧
    c ≤ maxCost * basicCost ∧
    ∀ path' c', (grid map walkmask dest).Walk start path' dest c' → c ≤ c' + 1
  missing : path = [] → start ≠ dest → ∀ path' c',
    (grid map walkmask dest).Walk start path' dest c' → maxCost * basicCost < c'

/-- The notes with which the loop over the open list begins. -/
def begun (map : Map) (start : Point) (f : FindPath) : FindPath :=
  (f.prepare map).setInfo start.x start.y { infoAt (f.prepare map) start with gcost := 0 }

theorem begun_spec {f : FindPath} (fresh : Fresh f) (inside : OnMap map start) :
    Covers map (begun map start f) ∧ Fresh (begun map start f) ∧ Blank (begun map start f) ∧
      cost (begun map start f) start = 0 := by
  obtain ⟨covers, fresh, blank⟩ := prepare_spec map fresh
  have listed : infoAt (f.prepare map) start ∈ (f.prepare map).mPathInfos :=
    List.mem_of_getElem? (covers.getInfo_eq inside).2
  refine ⟨covers.setInfo start _, fresh.setInfo _ _ ?_, fun info member => ?_, ?_⟩
  · exact fresh.noted (infoAt (f.prepare map) start) listed
  · rcases List.mem_or_eq_of_mem_set member with old | rfl
    · exact blank info old
    · exact blank (infoAt (f.prepare map) start) listed
  · rw [cost, begun, covers.infoAt_setInfo inside inside, if_pos rfl]

theorem findPath_eq {f : FindPath} (fresh : Fresh f) (inside : OnMap map start)
    (walkable : map.getWalk dest.x dest.y walkmask = true) :
    findPath queue map walkmask dest maxCost f start =
      (searchLoop queue map walkmask dest maxCost (10 * (begun map start f).mPathInfos.length + 2)
        ⟨begun map start f, queue.push queue.empty ⟨start.x, start.y, 0⟩, false⟩).bind fun s =>
          if s.foundPath then do
            let found ← s.find.getInfo dest.x dest.y
            let path ← s.find.extract start (found.gcost.toNat + 1) dest.x dest.y []
            return (s.find, path)
          else return (s.find, []) := by
  obtain ⟨covers, -, -⟩ := prepare_spec map fresh
  rw [findPath, if_neg (by simp [walkable])]
  dsimp only
  rw [(covers.getInfo_eq inside).1]
  rfl

variable (walkmask maxCost queue) in
/-- The loop over the open list comes to an end. -/
theorem begun_ends (target : OnMap map dest) {f : FindPath} (fresh : Fresh f)
    (inside : OnMap map start) :
    ∃ s', searchLoop queue map walkmask dest maxCost
      (10 * (begun map start f).mPathInfos.length + 2)
      ⟨begun map start f, queue.push queue.empty ⟨start.x, start.y, 0⟩, false⟩ = some s' ∧
        Ends map walkmask dest maxCost start s' := by
  obtain ⟨covers, fresh, blank, zero⟩ := begun_spec fresh inside
  have most : unclosed (begun map start f) ≤ (begun map start f).mPathInfos.length :=
    List.countP_le_length
  exact searchLoop_start target covers fresh blank inside zero
    ((queue.elements_push _ _).trans (by rw [queue.elements_empty])) (by omega)

variable (walkmask dest maxCost queue) in
theorem findPath_answers {f : FindPath} (fresh : Fresh f) (inside : OnMap map start) :
    ∃ f' path, findPath queue map walkmask dest maxCost f start = some (f', path) ∧ Fresh f' ∧
      Answers map walkmask dest maxCost start path := by
  by_cases walkable : map.getWalk dest.x dest.y walkmask = true
  case neg =>
    rw [findPath, if_pos (by simpa using walkable)]
    refine ⟨f, [], rfl, fresh, fun path => absurd rfl path, fun _ other path c walk => ?_⟩
    cases walk with
    | start => exact absurd rfl other
    | move before moves => exact absurd moves.walk walkable
  have target : OnMap map dest := onMap_of_walk map walkmask walkable
  obtain ⟨s', run, ends⟩ := begun_ends walkmask maxCost queue target fresh inside
  rw [findPath_eq fresh inside walkable, run, Option.bind_some]
  cases ends with
  | found yes found =>
      obtain ⟨path, followed, some, walk⟩ := found.extract_dest
      rw [if_pos yes, (found.covers.getInfo_eq target).1, Option.bind_eq_bind, Option.bind_some]
      refine ⟨s'.find, path, ?_, found.fresh, ⟨fun _ => ⟨_, walk, found.last.within, ?_⟩,
        fun none => absurd none some⟩⟩
      · rw [cost] at followed
        rw [followed]
        rfl
      · intro path' c' walk'
        by_cases near : c' ≤ maxCost * basicCost
        · exact found.least path' c' walk' near
        · have within := found.last.within
          omega
  | exhausted no fresh closed target =>
      rw [no]
      refine ⟨s'.find, [], rfl, fresh, ⟨fun some => absurd rfl some, fun _ other path' c' walk' => ?_⟩⟩
      by_contra near
      exact other (target (closed path' c' dest walk' (not_lt.mp near))).symm

/-- A start on the map. -/
def Starts (_ : FindPath) (request : PathRequest) : Prop := OnMap request.map request.start

theorem run_fresh {history : List PathRequest} {f : FindPath}
    (run : Run (Guarded Starts fun f request f' => ∃ path, request.serve queue f = some (f', path))
      {} history f) : Fresh f := by
  refine run.invariant ⟨rfl, fun info member => absurd member List.not_mem_nil⟩ ?_
  rintro f request f' fresh ⟨inside, path, served⟩
  obtain ⟨g, path', run, fresh', -⟩ :=
    findPath_answers request.walkmask request.dest request.maxCost queue fresh inside
  obtain ⟨rfl, -⟩ := Prod.mk.inj (Option.some.inj (run.symm.trans served))
  exact fresh'

def wallTile : MetaTile := { blockmask := Map.blockmaskWall }

/-- A wall with a gap at its end. -/
def wallMap : Map where
  mWidth := 3
  mHeight := 3
  mTileWidth := 32
  mTileHeight := 32
  mMetaTiles := [{}, wallTile, {}, {}, wallTile, {}, {}, {}, {}]
  width_nonneg := by decide
  height_nonneg := by decide
  tiles_length := by decide

def roundWall : PathRequest := ⟨wallMap, ⟨0, 0⟩, ⟨2, 0⟩, Map.blockmaskWall, 20⟩

def locations : PriorityQueue Location (List Location) Location.Less :=
  PriorityQueue.ofList Location.fcost

end Cgsf.Proof.MOGame.FindPath
