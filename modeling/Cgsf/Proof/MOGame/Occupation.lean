import Cgsf.MOGame.GameState
import Cgsf.Library.Transition
import Mathlib.Algebra.BigOperators.Group.List.Basic
import Mathlib.Algebra.Order.Ring.Int

/-!
# Where actors stand

Every actor is counted at least once at the tile it stands on, so that its tile is blocked and is
there to be freed. An insertion counts it once more, and nothing ever takes that back.
-/

namespace Cgsf.Proof.MOGame.Occupation
open Cgsf.MOGame Library

section
variable {map : Map} {x y x' y' : Int}

theorem index_lt (inside : map.contains x y = true) :
    (x + y * map.mWidth).toNat < map.mMetaTiles.length := by
  simp only [Map.contains, decide_eq_true_eq] at inside
  have rows : y * map.mWidth ≤ (map.mHeight - 1) * map.mWidth :=
    mul_le_mul_of_nonneg_right (by omega) map.width_nonneg
  have start : 0 ≤ y * map.mWidth := mul_nonneg inside.2.1 map.width_nonneg
  have length := map.tiles_length
  rw [mul_comm] at length
  rw [sub_mul, one_mul] at rows
  omega

theorem index_inj (inside : map.contains x y = true) (inside' : map.contains x' y' = true)
    (same : (x + y * map.mWidth).toNat = (x' + y' * map.mWidth).toNat) : x = x' ∧ y = y' := by
  simp only [Map.contains, decide_eq_true_eq] at inside inside'
  have start : 0 ≤ y * map.mWidth := mul_nonneg inside.2.1 map.width_nonneg
  have start' : 0 ≤ y' * map.mWidth := mul_nonneg inside'.2.1 map.width_nonneg
  have equal : x + map.mWidth * y = x' + map.mWidth * y' := by
    rw [mul_comm, mul_comm map.mWidth]
    omega
  have column (x y : Int) (h : 0 ≤ x) (h' : x < map.mWidth) : (x + map.mWidth * y) % map.mWidth = x := by
    rw [Int.add_mul_emod_self_left, Int.emod_eq_of_lt h h']
  have columns : x = x' := by
    rw [← column x y inside.1 inside.2.2.1, equal, column x' y' inside'.1 inside'.2.2.1]
  subst columns
  exact ⟨rfl, mul_left_cancel₀ (by omega) (add_left_cancel equal)⟩

theorem metaTile_setMetaTile (inside : map.contains x y = true) (inside' : map.contains x' y' = true)
    (tile : MetaTile) : (map.setMetaTile x y tile).metaTile x' y' =
      if x = x' ∧ y = y' then tile else map.metaTile x' y' := by
  rw [Map.metaTile, Map.setMetaTile, List.getD_eq_getElem?_getD]
  by_cases same : x = x' ∧ y = y'
  · obtain ⟨rfl, rfl⟩ := same
    rw [List.getElem?_set_self (index_lt inside), if_pos ⟨rfl, rfl⟩, Option.getD_some]
  · have other := fun equal => same (index_inj inside inside' equal)
    rw [List.getElem?_set_ne other, if_neg same, Map.metaTile, List.getD_eq_getElem?_getD]

end

/-- The position of the bit of a kind. -/
def bit : BlockType → Nat
  | .none => 8
  | .wall => 7
  | .character => 0
  | .monster => 1

theorem bit_inj {k k' : BlockType} (same : bit k = bit k') : k = k' := by
  cases k <;> cases k' <;> first | rfl | cases same

theorem maskBit_eq {k : BlockType} (kind : k ≠ .none) :
    (Map.maskBit k).toBitVec = BitVec.twoPow 8 (bit k) := by
  cases k with
  | none => exact absurd rfl kind
  | wall | character | monster => rfl

theorem bit_lt {k : BlockType} (kind : k ≠ .none) : bit k < 8 := by
  cases k with
  | none => exact absurd rfl kind
  | wall | character | monster => decide

theorem masked_iff {k : BlockType} (kind : k ≠ .none) (mask : UInt8) :
    mask &&& Map.maskBit k ≠ 0 ↔ mask.toBitVec.getLsbD (bit k) = true := by
  have twoPow : BitVec.twoPow 8 (bit k) ≠ 0#8 := by
    rw [← maskBit_eq kind]
    cases k with
    | none => exact absurd rfl kind
    | wall | character | monster => decide
  rw [Ne, ← UInt8.toBitVec_inj, UInt8.toBitVec_and, maskBit_eq kind, BitVec.and_twoPow]
  cases mask.toBitVec.getLsbD (bit k) <;> simp [twoPow]

/-- The bits of the kinds are different. -/
theorem masked_or {k k' : BlockType} (kind : k ≠ .none) (kind' : k' ≠ .none) (mask : UInt8) :
    (mask ||| Map.maskBit k) &&& Map.maskBit k' ≠ 0 ↔ k = k' ∨ mask &&& Map.maskBit k' ≠ 0 := by
  rw [masked_iff kind', masked_iff kind', UInt8.toBitVec_or, BitVec.getLsbD_or, maskBit_eq kind,
    BitVec.getLsbD_twoPow, Bool.or_eq_true, Bool.and_eq_true, decide_eq_true_eq, decide_eq_true_eq]
  constructor
  · rintro (set | ⟨-, same⟩)
    · exact .inr set
    · exact .inl (bit_inj same)
  · rintro (rfl | set)
    · exact .inr ⟨bit_lt kind, rfl⟩
    · exact .inl set

theorem masked_xor {k k' : BlockType} (kind : k ≠ .none) (kind' : k' ≠ .none) (mask : UInt8) :
    mask &&& (Map.maskBit k ^^^ 0xff) &&& Map.maskBit k' ≠ 0 ↔
      k ≠ k' ∧ mask &&& Map.maskBit k' ≠ 0 := by
  have ones : (0xff : UInt8).toBitVec = BitVec.allOnes 8 := rfl
  have less := bit_lt kind'
  rw [masked_iff kind', masked_iff kind', UInt8.toBitVec_and, BitVec.getLsbD_and,
    UInt8.toBitVec_xor, BitVec.getLsbD_xor, maskBit_eq kind, ones, BitVec.getLsbD_twoPow,
    BitVec.getLsbD_allOnes]
  by_cases same : k = k'
  · simp [same, less]
  · have other : bit k ≠ bit k' := fun equal => same (bit_inj equal)
    simp [same, other, less]

theorem masked_and {k : BlockType} {mask mask' : UInt8} (left : mask &&& Map.maskBit k ≠ 0)
    (right : mask' &&& Map.maskBit k ≠ 0) : mask &&& mask' ≠ 0 := by
  have kind : k ≠ .none := by
    rintro rfl
    exact left (by simp [Map.maskBit])
  intro zero
  rw [masked_iff kind] at left right
  have both : (mask &&& mask').toBitVec.getLsbD (bit k) = true := by
    rw [UInt8.toBitVec_and, BitVec.getLsbD_and, left, right, Bool.and_self]
  rw [zero] at both
  simp at both

/-- The counts change, the tiles do not. -/
structure Alike (map map' : Map) : Prop where
  width : map'.mWidth = map.mWidth
  height : map'.mHeight = map.mHeight
  tileWidth : map'.mTileWidth = map.mTileWidth
  tileHeight : map'.mTileHeight = map.mTileHeight

theorem Alike.refl (map : Map) : Alike map map := ⟨rfl, rfl, rfl, rfl⟩

theorem Alike.contains {map map' : Map} (alike : Alike map map') (x y : Int) :
    map'.contains x y = map.contains x y := by
  rw [Map.contains, Map.contains, alike.width, alike.height]

theorem Alike.tile {map map' : Map} (alike : Alike map map') (p : Point) :
    map'.tile p = map.tile p := by
  rw [Map.tile, Map.tile, alike.tileWidth, alike.tileHeight]

def Masked (map : Map) (x y : Int) (k : BlockType) : Prop :=
  (map.metaTile x y).blockmask &&& Map.maskBit k ≠ 0 ↔ 0 < (map.metaTile x y).occupation k

section
variable {map map' : Map} {x y x' y' : Int} {k k' : BlockType}

theorem blockTile_alike (map : Map) (x y : Int) (k : BlockType) :
    Alike map (map.blockTile x y k) := by
  rw [Map.blockTile]
  dsimp only
  split
  · exact .refl map
  · split
    · exact ⟨rfl, rfl, rfl, rfl⟩
    · exact .refl map

theorem freeTile_alike (result : map.freeTile x y k = some map') : Alike map map' := by
  rw [Map.freeTile] at result
  dsimp only at result
  split at result
  · cases result
    exact .refl map
  · split at result
    · cases result
    · cases result
      exact ⟨rfl, rfl, rfl, rfl⟩

theorem blockTile_spec (inside' : map.contains x' y' = true) (kind' : k' ≠ .none)
    (room : (map.metaTile x' y').occupation k' < Map.uintMax) :
    ((map.blockTile x y k).metaTile x' y').occupation k' =
        (map.metaTile x' y').occupation k' + (if x = x' ∧ y = y' ∧ k = k' then 1 else 0) ∧
      (Masked map x' y' k' → Masked (map.blockTile x y k) x' y' k') := by
  rw [Map.blockTile]
  dsimp only
  by_cases out : k = .none ∨ (!map.contains x y) = true
  · have other : ¬(x = x' ∧ y = y' ∧ k = k') := by
      rintro ⟨rfl, rfl, rfl⟩
      simp [kind', inside'] at out
    rw [if_pos out, if_neg other]
    exact ⟨rfl, id⟩
  · rw [if_neg out]
    obtain ⟨kind, inside⟩ : k ≠ .none ∧ map.contains x y = true := by simpa using out
    by_cases full : (map.metaTile x y).occupation k < Map.uintMax
    · rw [if_pos full, Masked, Masked, metaTile_setMetaTile inside inside']
      by_cases same : x = x' ∧ y = y'
      · obtain ⟨rfl, rfl⟩ := same
        rw [if_pos ⟨rfl, rfl⟩]
        dsimp only
        rw [masked_or kind kind']
        by_cases equal : k = k'
        · subst equal
          simp
        · simp [Function.update_of_ne (Ne.symm equal), equal]
      · rw [if_neg same, if_neg fun h => same ⟨h.1, h.2.1⟩]
        exact ⟨rfl, id⟩
    · have other : ¬(x = x' ∧ y = y' ∧ k = k') := by
        rintro ⟨rfl, rfl, rfl⟩
        exact full room
      rw [if_neg full, if_neg other]
      exact ⟨rfl, id⟩

theorem freeTile_isSome (enough : k ≠ .none → map.contains x y = true →
    0 < (map.metaTile x y).occupation k) : ∃ map', map.freeTile x y k = some map' := by
  rw [Map.freeTile]
  dsimp only
  by_cases out : k = .none ∨ (!map.contains x y) = true
  · exact ⟨_, if_pos out⟩
  · obtain ⟨kind, inside⟩ : k ≠ .none ∧ map.contains x y = true := by simpa using out
    have positive := enough kind inside
    rw [if_neg out, if_neg (by omega)]
    exact ⟨_, rfl⟩

theorem freeTile_spec (inside' : map.contains x' y' = true) (kind' : k' ≠ .none)
    (result : map.freeTile x y k = some map') :
    (map'.metaTile x' y').occupation k' + (if x = x' ∧ y = y' ∧ k = k' then 1 else 0) =
        (map.metaTile x' y').occupation k' ∧
      (Masked map x' y' k' → Masked map' x' y' k') := by
  rw [Map.freeTile] at result
  dsimp only at result
  by_cases out : k = .none ∨ (!map.contains x y) = true
  · have other : ¬(x = x' ∧ y = y' ∧ k = k') := by
      rintro ⟨rfl, rfl, rfl⟩
      simp [kind', inside'] at out
    rw [if_pos out] at result
    cases result
    rw [if_neg other]
    exact ⟨rfl, id⟩
  · rw [if_neg out] at result
    obtain ⟨kind, inside⟩ : k ≠ .none ∧ map.contains x y = true := by simpa using out
    by_cases zero : (map.metaTile x y).occupation k = 0
    · rw [if_pos zero] at result
      cases result
    · rw [if_neg zero] at result
      cases result
      rw [Masked, Masked, metaTile_setMetaTile inside inside']
      by_cases same : x = x' ∧ y = y'
      · obtain ⟨rfl, rfl⟩ := same
        rw [if_pos ⟨rfl, rfl⟩]
        dsimp only
        by_cases equal : k = k'
        · subst equal
          refine ⟨by simp; omega, fun masked => ?_⟩
          rw [Function.update_self]
          by_cases last : (map.metaTile x y).occupation k - 1 = 0
          · rw [if_pos last, masked_xor kind kind', last]
            simp
          · rw [if_neg last, masked]
            omega
        · rw [Function.update_of_ne (Ne.symm equal)]
          refine ⟨by simp [equal], fun masked => ?_⟩
          split
          · rw [masked_xor kind kind', masked]
            simp [equal]
          · exact masked
      · rw [if_neg same, if_neg fun h => same ⟨h.1, h.2.1⟩]
        exact ⟨rfl, id⟩

end

/-- A tile and a kind of those who may stand on it. -/
structure Spot where
  map : Nat
  x : Int
  y : Int
  kind : BlockType

variable {E : Type} (type : E → EntityType)

def occupation (s : GameState E) (t : Spot) : Nat :=
  ((s.maps t.map).metaTile t.x t.y).occupation t.kind

/-- The spots that actors take. -/
def Within (s : GameState E) (t : Spot) : Prop :=
  (s.maps t.map).contains t.x t.y = true ∧ (t.kind = .character ∨ t.kind = .monster)

/-- Whether an actor at a place takes the spot. -/
def takes (s : GameState E) (e : E) (i : Nat) (p : Point) (t : Spot) : Nat :=
  if i = t.map ∧ ((s.maps i).tile p).x = t.x ∧ ((s.maps i).tile p).y = t.y ∧
    (type e).blockType = t.kind then 1 else 0

def stands (s : GameState E) (e : E) (t : Spot) : Nat :=
  match s.mMap e with
  | none => 0
  | some i => takes type s e i (s.mPos e) t

/-- Everybody is counted, and `n` on top of that. -/
structure Counted (n : Spot → Nat) (k : Nat) (s : GameState E) : Prop where
  nodup : s.entities.Nodup
  onMap : ∀ e ∈ s.entities, s.mMap e ≠ none
  counts : ∀ t, Within s t →
    (s.entities.map fun e => stands type s e t).sum + n t ≤ occupation s t
  most : ∀ t, Within s t → occupation s t ≤ k
  masked : ∀ t, Within s t → Masked (s.maps t.map) t.x t.y t.kind

section
variable [DecidableEq E]

def others (s : GameState E) (e : E) (t : Spot) : Nat :=
  ((s.entities.erase e).map fun e' => stands type s e' t).sum

/-- Apart from one entity, everybody is counted; `n` is counted on top of that. -/
structure Charged (n : Spot → Nat) (k : Nat) (s : GameState E) (e : E) : Prop where
  nodup : s.entities.Nodup
  onMap : ∀ e' ∈ s.entities, e' ≠ e → s.mMap e' ≠ none
  counts : ∀ t, Within s t → others type s e t + n t ≤ occupation s t
  most : ∀ t, Within s t → occupation s t ≤ k
  masked : ∀ t, Within s t → Masked (s.maps t.map) t.x t.y t.kind

end

variable {type} {s s' : GameState E} {e : E} {i : Nat} {p : Point} {n n' : Spot → Nat} {k k' : Nat}

theorem Within.kind {t : Spot} (within : Within s t) : t.kind ≠ .none := by
  obtain ⟨-, kind | kind⟩ := within <;> rw [kind] <;> decide

/-- Nothing but the counts is different. -/
structure OnlyCounts (s s' : GameState E) : Prop where
  entities : s'.entities = s.entities
  mMap : s'.mMap = s.mMap
  mPos : s'.mPos = s.mPos
  maps : ∀ i, Alike (s.maps i) (s'.maps i)

theorem within_of_alike (alike : ∀ i, Alike (s.maps i) (s'.maps i)) {t : Spot} :
    Within s' t ↔ Within s t := by
  rw [Within, Within, (alike t.map).contains]

theorem takes_congr {p' : Point} (same : (s'.maps i).tile p' = (s.maps i).tile p) (t : Spot) :
    takes type s' e i p' t = takes type s e i p t := by
  rw [takes, takes, same]

theorem takes_of_alike (alike : ∀ i, Alike (s.maps i) (s'.maps i)) (e : E) (i : Nat) (p : Point) :
    takes type s' e i p = takes type s e i p := by
  funext t
  exact takes_congr ((alike i).tile p) t

theorem OnlyCounts.stands (same : OnlyCounts s s') (e : E) :
    stands type s' e = stands type s e := by
  funext t
  rw [Occupation.stands, Occupation.stands, same.mMap, same.mPos]
  cases s.mMap e with
  | none => rfl
  | some i => exact congrFun (takes_of_alike same.maps e i _) t

theorem withMap_alike {map : Map} (alike : Alike (s.maps i) map) (j : Nat) :
    Alike (s.maps j) ((s.withMap i map).maps j) := by
  rw [GameState.withMap]
  dsimp only
  by_cases same : j = i
  · subst same
    rwa [Function.update_self]
  · rw [Function.update_of_ne same]
    exact .refl _

theorem onlyCounts_withMap {map : Map} (alike : Alike (s.maps i) map) :
    OnlyCounts s (s.withMap i map) :=
  ⟨rfl, rfl, rfl, withMap_alike alike⟩

theorem stands_of_none (none : s.mMap e = none) (t : Spot) : stands type s e t = 0 := by
  rw [stands, none]

theorem stands_of_some (some : s.mMap e = some i) (t : Spot) :
    stands type s e t = takes type s e i (s.mPos e) t := by
  rw [stands, some]

/-- What an operation on one entity leaves as it was. -/
structure Kept (s s' : GameState E) : Prop where
  entities : s'.entities = s.entities
  maps : ∀ i, Alike (s.maps i) (s'.maps i)

theorem Alike.trans {a b c : Map} (first : Alike a b) (second : Alike b c) : Alike a c :=
  ⟨second.width.trans first.width, second.height.trans first.height,
    second.tileWidth.trans first.tileWidth, second.tileHeight.trans first.tileHeight⟩

theorem Kept.trans {a b c : GameState E} (first : Kept a b) (second : Kept b c) : Kept a c :=
  ⟨second.entities.trans first.entities, fun i => (first.maps i).trans (second.maps i)⟩

theorem Kept.refl (s : GameState E) : Kept s s := ⟨rfl, fun _ => .refl _⟩

theorem Counted.mono (counted : Counted type n k s) (less : ∀ t, n' t ≤ n t) (le : k ≤ k') :
    Counted type n' k' s where
  nodup := counted.nodup
  onMap := counted.onMap
  counts t within := (Nat.add_le_add_left (less t) _).trans (counted.counts t within)
  most t within := (counted.most t within).trans le
  masked := counted.masked

theorem takes_own (s : GameState E) (e : E) (i : Nat) (p : Point) :
    takes type s e i p
      ⟨i, ((s.maps i).tile p).x, ((s.maps i).tile p).y, (type e).blockType⟩ = 1 :=
  if_pos ⟨rfl, rfl, rfl, rfl⟩

/-- Nobody is there yet, and only walls are on the maps. -/
structure Unoccupied (s : GameState E) : Prop where
  entities : s.entities = []
  free : ∀ t, Within s t → occupation s t = 0 ∧
    ((s.maps t.map).metaTile t.x t.y).blockmask &&& Map.maskBit t.kind = 0

theorem Unoccupied.counted (empty : Unoccupied s) : Counted type (fun _ => 0) 0 s where
  nodup := by
    rw [empty.entities]
    exact List.nodup_nil
  onMap e member := by
    rw [empty.entities] at member
    cases member
  counts t within := by
    rw [empty.entities]
    exact Nat.zero_le _
  most t within := (empty.free t within).1.le
  masked t within := by
    obtain ⟨zero, clear⟩ := empty.free t within
    rw [occupation] at zero
    simp [Masked, clear, zero]

theorem blockType_actor (actor : (type e).blockType ≠ .none) :
    (type e).blockType = .character ∨ (type e).blockType = .monster := by
  cases kind : type e <;> simp_all [EntityType.blockType]

/-- Who looks out for a kind does not walk where one of that kind is counted. -/
theorem Counted.blocked (counted : Counted type n k s) {x y : Int} {walkmask : UInt8}
    (actor : walkmask &&& Map.maskBit (type e).blockType ≠ 0)
    (taken : Within s ⟨i, x, y, (type e).blockType⟩ →
      0 < occupation s ⟨i, x, y, (type e).blockType⟩) :
    (s.maps i).getWalk x y walkmask = false := by
  rw [Map.getWalk, Bool.and_eq_false_iff, or_iff_not_imp_left, Bool.not_eq_false, beq_eq_false_iff_ne]
  intro inside
  have kind : (type e).blockType ≠ .none := by
    intro none
    rw [none] at actor
    exact actor UInt8.and_zero
  have within : Within s ⟨i, x, y, (type e).blockType⟩ := ⟨inside, blockType_actor kind⟩
  exact masked_and ((counted.masked _ within).mpr (taken within)) actor

variable [DecidableEq E]

theorem OnlyCounts.others (same : OnlyCounts s s') (e : E) :
    others type s' e = others type s e := by
  funext t
  rw [Occupation.others, Occupation.others, same.entities]
  exact congrArg List.sum (List.map_congr_left fun e' _ => congrFun (same.stands e') t)

theorem Charged.mono (charged : Charged type n k s e) (less : ∀ t, n' t ≤ n t) (le : k ≤ k') :
    Charged type n' k' s e where
  nodup := charged.nodup
  onMap := charged.onMap
  counts t within := (Nat.add_le_add_left (less t) _).trans (charged.counts t within)
  most t within := (charged.most t within).trans le
  masked := charged.masked

/-- One more is counted. -/
theorem Charged.block (charged : Charged type n k s e) (room : k < Map.uintMax) (i : Nat)
    (p : Point) : OnlyCounts s (s.block type e i p) ∧
      Charged type (fun t => n t + takes type s e i p t) (k + 1) (s.block type e i p) e := by
  have same : OnlyCounts s (s.block type e i p) := onlyCounts_withMap (blockTile_alike _ _ _ _)
  have spec (t : Spot) (within : Within s t) :
      occupation (s.block type e i p) t = occupation s t + takes type s e i p t ∧
        Masked ((s.block type e i p).maps t.map) t.x t.y t.kind := by
    rw [occupation, GameState.block, GameState.withMap, occupation, takes]
    by_cases here : i = t.map
    · subst here
      have less := (charged.most t within).trans_lt room
      have spec := blockTile_spec (x := ((s.maps t.map).tile p).x)
        (y := ((s.maps t.map).tile p).y) (k := (type e).blockType) within.1 within.kind less
      dsimp only
      rw [Function.update_self, spec.1]
      exact ⟨by simp, spec.2 (charged.masked t within)⟩
    · dsimp only
      rw [Function.update_of_ne (Ne.symm here), if_neg fun h => here h.1]
      exact ⟨rfl, charged.masked t within⟩
  refine ⟨same, ?_, ?_, fun t within => ?_, fun t within => ?_, fun t within => ?_⟩
  · exact same.entities ▸ charged.nodup
  · rw [same.entities, same.mMap]
    exact charged.onMap
  all_goals
    rw [within_of_alike same.maps] at within
    obtain ⟨counted, masked⟩ := spec t within
  · have counts := charged.counts t within
    rw [same.others, counted]
    omega
  · have most := charged.most t within
    have one : takes type s e i p t ≤ 1 := by
      rw [takes]
      split <;> omega
    omega
  · exact masked

/-- Who is counted can be freed. -/
theorem Charged.free (charged : Charged type (fun t => n t + takes type s e i p t) k s e) :
    ∃ s', s.free type e i p = some s' ∧ OnlyCounts s s' ∧ Charged type n k s' e := by
  obtain ⟨map, result⟩ : ∃ map, (s.maps i).freeTile ((s.maps i).tile p).x ((s.maps i).tile p).y
      (type e).blockType = some map := by
    refine freeTile_isSome fun kind inside => ?_
    have actor : (type e).blockType = .character ∨ (type e).blockType = .monster := by
      cases t : type e <;> simp_all [EntityType.blockType]
    let spot : Spot := ⟨i, ((s.maps i).tile p).x, ((s.maps i).tile p).y, (type e).blockType⟩
    have counts : others type s e spot + (n spot + takes type s e i p spot) ≤ occupation s spot :=
      charged.counts spot ⟨inside, actor⟩
    have one : takes type s e i p spot = 1 := if_pos ⟨rfl, rfl, rfl, rfl⟩
    have positive : 0 < occupation s spot := by omega
    exact positive
  have same : OnlyCounts s (s.withMap i map) := onlyCounts_withMap (freeTile_alike result)
  have spec (t : Spot) (within : Within s t) :
      occupation (s.withMap i map) t + takes type s e i p t = occupation s t ∧
        Masked ((s.withMap i map).maps t.map) t.x t.y t.kind := by
    rw [occupation, GameState.withMap, occupation, takes]
    by_cases here : i = t.map
    · subst here
      have spec := freeTile_spec within.1 within.kind result
      dsimp only
      rw [Function.update_self, ← spec.1]
      exact ⟨by simp, spec.2 (charged.masked t within)⟩
    · dsimp only
      rw [Function.update_of_ne (Ne.symm here), if_neg fun h => here h.1]
      exact ⟨rfl, charged.masked t within⟩
  refine ⟨_, ?_, same, ?_, ?_, fun t within => ?_, fun t within => ?_, fun t within => ?_⟩
  · rw [GameState.free]
    simp [result]
  · exact same.entities ▸ charged.nodup
  · rw [same.entities, same.mMap]
    exact charged.onMap
  all_goals
    rw [within_of_alike same.maps] at within
    obtain ⟨counted, masked⟩ := spec t within
  · have counts := charged.counts t within
    rw [same.others]
    omega
  · have most := charged.most t within
    omega
  · exact masked

/-- Where the entity itself is does not matter to the others. -/
theorem Charged.place (charged : Charged type n k s e) (m : Option Nat) (p : Point) :
    Charged type n k { s with
      mMap := Function.update s.mMap e m
      mPos := Function.update s.mPos e p } e where
  nodup := charged.nodup
  onMap e' member ne := by
    dsimp only
    rw [Function.update_of_ne ne]
    exact charged.onMap e' member ne
  counts t within := by
    have same : others type { s with
        mMap := Function.update s.mMap e m
        mPos := Function.update s.mPos e p } e t = others type s e t := by
      refine congrArg List.sum (List.map_congr_left fun e' member => ?_)
      have ne : e' ≠ e := (charged.nodup.mem_erase_iff.mp member).1
      rw [stands, stands]
      dsimp only
      rw [Function.update_of_ne ne, Function.update_of_ne ne]
      rfl
    rw [same]
    exact charged.counts t within
  most := charged.most
  masked := charged.masked

theorem Charged.removed (charged : Charged type (fun t => n t + stands type s e t) k s e) :
    ∃ s', s.removed type e = some s' ∧ OnlyCounts s s' ∧ Charged type n k s' e := by
  rw [GameState.removed]
  cases place : s.mMap e with
  | none =>
      exact ⟨s, rfl, ⟨rfl, rfl, rfl, fun i => .refl _⟩,
        charged.mono (fun t => Nat.le_add_right _ _) le_rfl⟩
  | some i =>
      refine Charged.free (charged.mono (fun t => ?_) le_rfl)
      rw [stands_of_some place]

theorem Charged.setMap (charged : Charged type n k s e) (room : k < Map.uintMax) (i : Nat) :
    ∃ s', s.setMap type e i = s' ∧ Kept s s' ∧ s'.mMap e = some i ∧
      Charged type (fun t => n t + stands type s' e t) (k + 1) s' e := by
  have placed := charged.place (some i) (s.mPos e)
  rw [Function.update_eq_self] at placed
  obtain ⟨same, blocked⟩ := placed.block room i (s.mPos e)
  have there : (s.setMap type e i).mMap e = some i := by
    rw [GameState.setMap, same.mMap]
    exact Function.update_self ..
  refine ⟨_, rfl, ⟨same.entities, same.maps⟩, there, blocked.mono (fun t => ?_) le_rfl⟩
  rw [stands_of_some there, GameState.setMap, same.mPos, takes_of_alike same.maps]

theorem Charged.setPosition (charged : Charged type (fun t => n t + stands type s e t) k s e)
    (room : k < Map.uintMax) (p : Point) :
    ∃ s', s.setPosition type e p = some s' ∧ Kept s s' ∧ s'.mMap = s.mMap ∧ s'.mPos e = p ∧
      Charged type (fun t => n t + stands type s' e t) (k + 1) s' e := by
  have moved (s : GameState E) : { s with mPos := Function.update s.mPos e p } = { s with
      mMap := Function.update s.mMap e (s.mMap e), mPos := Function.update s.mPos e p } := by
    rw [Function.update_eq_self]
  rw [GameState.setPosition]
  cases place : s.mMap e with
  | none =>
      refine ⟨_, rfl, ⟨rfl, fun i => .refl _⟩, rfl, Function.update_self .., ?_⟩
      rw [moved]
      refine (charged.place (s.mMap e) p).mono (fun t => ?_) (Nat.le_succ k)
      rw [stands_of_none (by simpa using place)]
      exact Nat.le_add_right _ _
  | some i =>
      dsimp only
      by_cases same : (s.maps i).tile (s.mPos e) = (s.maps i).tile p
      · rw [if_neg (not_not.mpr same)]
        refine ⟨_, rfl, ⟨rfl, fun i => .refl _⟩, rfl, Function.update_self .., ?_⟩
        rw [moved]
        refine (charged.place (s.mMap e) p).mono (fun t => ?_) (Nat.le_succ k)
        rw [stands_of_some place, stands_of_some (i := i) (by simpa using place)]
        refine Nat.add_le_add_left (takes_congr ?_ t).le _
        dsimp only
        rw [Function.update_self, same]
      · rw [if_pos same]
        obtain ⟨free, result, freed, uncharged⟩ := Charged.free (p := s.mPos e) (i := i)
          (charged.mono (fun t => by rw [stands_of_some place]) le_rfl)
        obtain ⟨blocked, recharged⟩ := uncharged.block room i p
        have there : (free.block type e i p).mMap e = some i := by
          rw [blocked.mMap, freed.mMap, place]
        have kept : Kept s (free.block type e i p) := ⟨blocked.entities.trans freed.entities,
          fun i => (freed.maps i).trans (blocked.maps i)⟩
        refine ⟨{ free.block type e i p with
          mPos := Function.update (free.block type e i p).mPos e p }, ?_, ⟨kept.entities, kept.maps⟩,
          blocked.mMap.trans freed.mMap, Function.update_self .., ?_⟩
        · simp [result]
        rw [moved]
        refine (recharged.place _ p).mono (fun t => ?_) le_rfl
        rw [stands_of_some (i := i) (by simpa using there)]
        refine Nat.add_le_add_left (takes_congr ?_ t).le _
        dsimp only
        rw [Function.update_self, (blocked.maps i).tile]

theorem Charged.checkPosition (charged : Charged type (fun t => n t + stands type s e t) k s e)
    (there : s.mMap e = some i) (room : k < Map.uintMax) :
    ∃ s', s.checkPosition type e i = some s' ∧ Kept s s' ∧ s'.mMap e = some i ∧
      Charged type (fun t => n t + stands type s' e t) (k + 1) s' e := by
  rw [GameState.checkPosition]
  split
  · obtain ⟨fit, positioned, kept, sameMap, -, charged⟩ := charged.setPosition room ⟨100, 100⟩
    exact ⟨fit, positioned, kept, by rw [sameMap, there], charged⟩
  · exact ⟨s, rfl, .refl s, there, charged.mono (fun _ => le_rfl) (Nat.le_succ k)⟩

/-- An insertion counts the entity a second time. -/
theorem Charged.insert (charged : Charged type (fun t => n t + stands type s e t) k s e)
    (there : s.mMap e = some i) (room : k + 1 < Map.uintMax) (allocated : Bool) :
    ∃ inserted s', s.insert type e allocated = some (inserted, s') ∧ Kept s s' ∧
      s'.mMap e = some i ∧ (allocated = true → inserted = true) ∧
      Charged type (fun t => n t + (if inserted then stands type s' e t else 0) +
        stands type s' e t) (k + 2) s' e := by
  obtain ⟨fit, positioned, kept, sameMap, charged⟩ :=
    charged.checkPosition there (Nat.lt_of_succ_lt room)
  rw [GameState.insert, there]
  dsimp only [Option.bind_eq_bind, Option.bind_some]
  rw [positioned]
  dsimp only [Option.bind_some]
  split
  case isTrue refused =>
    refine ⟨false, fit, rfl, kept, sameMap, fun full => ?_, ?_⟩
    · simp [full] at refused
    · exact charged.mono (fun t => by simp) (Nat.le_succ _)
  case isFalse =>
    obtain ⟨_, rfl, again, there', twice⟩ := charged.setMap room i
    refine ⟨true, _, rfl, kept.trans again, there', fun _ => rfl, ?_⟩
    refine twice.mono (fun t => ?_) le_rfl
    rw [if_pos rfl]
    refine Nat.add_le_add_right (Nat.add_le_add_left (Nat.le_of_eq ?_) _) _
    rw [stands_of_some there', stands_of_some sameMap, takes_of_alike again.maps]
    rw [GameState.setMap, GameState.block, GameState.withMap]

theorem Charged.settle (charged : Charged type (fun t => n t + stands type s e t) k s e)
    (member : e ∈ s.entities) (there : s.mMap e ≠ none) : Counted type n k s where
  nodup := charged.nodup
  onMap e' member := by
    by_cases same : e' = e
    · exact same ▸ there
    · exact charged.onMap e' member same
  counts t within := by
    have counts := charged.counts t within
    have sum := List.sum_map_erase (fun e' => stands type s e' t) member
    rw [others] at counts
    omega
  most := charged.most
  masked := charged.masked

theorem Counted.charge (counted : Counted type n k s) (member : e ∈ s.entities) :
    Charged type (fun t => n t + stands type s e t) k s e where
  nodup := counted.nodup
  onMap e' member _ := counted.onMap e' member
  counts t within := by
    have counts := counted.counts t within
    have sum := List.sum_map_erase (fun e' => stands type s e' t) member
    rw [others]
    omega
  most := counted.most
  masked := counted.masked

theorem Charged.delete (charged : Charged type n k s e) : Counted type n k (s.delete e) where
  nodup := charged.nodup.erase e
  onMap e' member := by
    obtain ⟨ne, member⟩ := charged.nodup.mem_erase_iff.mp member
    exact charged.onMap e' member ne
  counts := charged.counts
  most := charged.most
  masked := charged.masked

theorem Counted.appear (counted : Counted type n k s) (absent : e ∉ s.entities) :
    Charged type n k { s with
      entities := s.entities ++ [e]
      mMap := Function.update s.mMap e none
      mPos := Function.update s.mPos e ⟨0, 0⟩ } e where
  nodup := by
    refine List.nodup_append.mpr ⟨counted.nodup, List.nodup_singleton e, fun a left b right => ?_⟩
    rw [List.mem_singleton.mp right]
    exact ne_of_mem_of_not_mem left absent
  onMap e' member ne := by
    dsimp only
    rw [Function.update_of_ne ne]
    refine counted.onMap e' ?_
    rcases List.mem_append.mp member with member | only
    · exact member
    · exact absurd (List.mem_singleton.mp only) ne
  counts t within := by
    have same : others type { s with
        entities := s.entities ++ [e]
        mMap := Function.update s.mMap e none
        mPos := Function.update s.mPos e ⟨0, 0⟩ } e t =
        (s.entities.map fun e' => stands type s e' t).sum := by
      rw [others]
      dsimp only
      rw [List.erase_append_right _ absent, List.erase_cons_head, List.append_nil]
      refine congrArg List.sum (List.map_congr_left fun e' member => ?_)
      have ne : e' ≠ e := ne_of_mem_of_not_mem member absent
      rw [stands, stands]
      dsimp only
      rw [Function.update_of_ne ne, Function.update_of_ne ne]
      rfl
    rw [same]
    exact counted.counts t within
  most := counted.most
  masked := counted.masked

theorem Charged.disconnected (charged : Charged type (fun t => n t + stands type s e t) k s e)
    (room : k + 1 < Map.uintMax) (death : Death) :
    ∃ s', s.disconnected type e death = some s' ∧ Kept s s' ∧ Charged type n (k + 2) s' e := by
  have alone : Charged type n k s e := charged.mono (fun t => Nat.le_add_right _ _) le_rfl
  cases death with
  | alive =>
      obtain ⟨s', result, same, charged⟩ := charged.removed
      exact ⟨s', result, ⟨same.entities, same.maps⟩, charged.mono (fun _ => le_rfl) (by omega)⟩
  | callback => exact ⟨s, rfl, .refl s, alone.mono (fun _ => le_rfl) (by omega)⟩
  | respawn i p =>
      obtain ⟨gone, result, same, charged⟩ := charged.removed
      obtain ⟨_, rfl, moved, -, charged⟩ := charged.setMap (Nat.lt_of_succ_lt room) i
      obtain ⟨s', result', placed, -, -, charged⟩ := charged.setPosition room p
      have away : Kept s gone := ⟨same.entities, same.maps⟩
      refine ⟨s', ?_, (away.trans moved).trans placed,
        charged.mono (fun t => Nat.le_add_right _ _) le_rfl⟩
      rw [GameState.disconnected, result]
      exact result'

/-- The events that the game takes: what is new is not there yet, and whatever happens to an entity
happens to one that is there. Only characters are disconnected or warped, and they are never removed
by a delayed event. -/
def Orderly (type : E → EntityType) (s : GameState E) : GameEvent E → Prop
  | .create e _ _ => e ∉ s.entities
  | .insert e _ | .move e _ => e ∈ s.entities
  | .remove e _ => e ∈ s.entities ∧ type e ≠ .character
  | .disconnect e _ | .warp e _ _ _ _ _ _ => e ∈ s.entities ∧ type e = .character

theorem Counted.create (counted : Counted type n k s) (absent : e ∉ s.entities)
    (room : k + 1 < Map.uintMax) (i : Nat) (p : Point) :
    ∃ s', s.create type e i p = some s' ∧ (∀ j, Alike (s.maps j) (s'.maps j)) ∧
      Counted type n (k + 2) s' := by
  obtain ⟨_, rfl, moved, there, charged⟩ :=
    (counted.appear absent).setMap (Nat.lt_of_succ_lt room) i
  obtain ⟨s', result, placed, sameMap, -, charged⟩ := charged.setPosition room p
  have kept := moved.trans placed
  refine ⟨s', result, kept.maps, charged.settle ?_ ?_⟩
  · rw [kept.entities]
    exact List.mem_append_right _ (List.mem_singleton_self e)
  · rw [sameMap, there]
    exact Option.some_ne_none i

theorem Counted.insert (counted : Counted type n k s) (member : e ∈ s.entities)
    (room : k + 1 < Map.uintMax) (allocated : Bool) :
    ∃ s', s.insertOrDelete type e allocated = some s' ∧ (∀ j, Alike (s.maps j) (s'.maps j)) ∧
      Counted type (fun t => n t + if allocated then stands type s' e t else 0) (k + 2) s' := by
  obtain ⟨i, there⟩ := Option.ne_none_iff_exists'.mp (counted.onMap e member)
  obtain ⟨inserted, s', result, kept, there', given, charged⟩ :=
    (counted.charge member).insert there room allocated
  rw [GameState.insertOrDelete, result]
  dsimp only [Option.bind_eq_bind, Option.bind_some]
  cases inserted with
  | true =>
      refine ⟨s', rfl, kept.maps, Counted.mono (charged.settle ?_ ?_) (fun t => ?_) le_rfl⟩
      · rw [kept.entities]
        exact member
      · rw [there']
        exact Option.some_ne_none i
      · cases allocated <;> simp
  | false =>
      have refused : allocated = false := by
        rw [← Bool.not_eq_true]
        exact fun full => Bool.false_ne_true (given full)
      subst refused
      refine ⟨s'.delete e, rfl, kept.maps, Counted.mono charged.delete (fun t => ?_) le_rfl⟩
      simp

theorem Counted.warp (counted : Counted type n k s) (member : e ∈ s.entities)
    (room : k + 6 ≤ Map.uintMax) (i : Nat) (p : Point) (connected active allocated : Bool)
    (death : Death) : ∃ s', s.warp type e i p connected active allocated death = some s' ∧
      (∀ j, Alike (s.maps j) (s'.maps j)) ∧ Counted type n (k + 6) s' := by
  obtain ⟨gone, result, same, charged⟩ := (counted.charge member).removed
  obtain ⟨_, rfl, moved, there, charged⟩ := charged.setMap (by omega) i
  obtain ⟨warped, result', placed, sameMap, -, charged⟩ := charged.setPosition (by omega) p
  have away : Kept s gone := ⟨same.entities, same.maps⟩
  have kept := (away.trans moved).trans placed
  have there' : warped.mMap e = some i := by rw [sameMap, there]
  rw [GameState.warp, result]
  dsimp only [Option.bind_eq_bind, Option.bind_some]
  rw [result']
  dsimp only [Option.bind_some]
  split
  · refine ⟨warped, rfl, kept.maps, Counted.mono (charged.settle ?_ ?_) (fun _ => le_rfl) (by omega)⟩
    · rw [kept.entities]
      exact member
    · rw [there']
      exact Option.some_ne_none i
  · obtain ⟨inserted, s', result, kept', there', -, charged⟩ :=
      charged.insert there' (by omega) allocated
    rw [result]
    dsimp only [Option.bind_some]
    have all := kept.trans kept'
    cases inserted with
    | true =>
        refine ⟨s', rfl, all.maps, Counted.mono (charged.settle ?_ ?_) (fun t => ?_) (by omega)⟩
        · rw [all.entities]
          exact member
        · rw [there']
          exact Option.some_ne_none i
        · exact Nat.le_add_right _ _
    | false =>
        obtain ⟨last, result, kept'', charged⟩ := charged.disconnected (by omega) death
        refine ⟨last.delete e, ?_, (all.trans kept'').maps,
          Counted.mono charged.delete (fun t => by simp) (by omega)⟩
        rw [if_neg Bool.false_ne_true, GameState.computerDisconnected, result]
        rfl

/-- No event fails, and everybody stays counted. -/
theorem Counted.step (counted : Counted type n k s) (room : k + 6 ≤ Map.uintMax)
    {event : GameEvent E} (orderly : Orderly type s event) :
    ∃ s', s.step type event = some s' ∧ (∀ j, Alike (s.maps j) (s'.maps j)) ∧
      Counted type n (k + 6) s' := by
  have more (s' : GameState E) (counted : Counted type n (k + 2) s') :
      Counted type n (k + 6) s' := counted.mono (fun _ => le_rfl) (by omega)
  cases event with
  | create e i p =>
      obtain ⟨s', result, alike, counted⟩ := counted.create orderly (by omega) i p
      exact ⟨s', result, alike, more s' counted⟩
  | insert e allocated =>
      obtain ⟨s', result, alike, counted⟩ := counted.insert orderly (by omega) allocated
      exact ⟨s', result, alike, counted.mono (fun t => Nat.le_add_right _ _) (by omega)⟩
  | move e p =>
      obtain ⟨s', result, kept, sameMap, -, charged⟩ :=
        (counted.charge orderly).setPosition (by omega) p
      refine ⟨s', result, kept.maps, Counted.mono (charged.settle ?_ ?_) (fun _ => le_rfl) (by omega)⟩
      · rw [kept.entities]
        exact orderly
      · rw [sameMap]
        exact counted.onMap e orderly
  | remove e death =>
      obtain ⟨member, notCharacter⟩ := orderly
      obtain ⟨gone, result, same, charged⟩ := (counted.charge member).removed
      refine ⟨gone.delete e, ?_, same.maps,
        charged.delete.mono (fun _ => le_rfl) (Nat.le_add_right k 6)⟩
      rw [GameState.step, GameState.removeEvent, result]
      simp [notCharacter]
  | disconnect e death =>
      obtain ⟨gone, result, kept, charged⟩ :=
        (counted.charge orderly.1).disconnected (by omega) death
      refine ⟨gone.delete e, ?_, kept.maps, more _ charged.delete⟩
      rw [GameState.step, GameState.computerDisconnected, result]
      rfl
  | warp e i p connected active allocated death =>
      exact counted.warp orderly.1 room i p connected active allocated death

theorem run_counted {s₀ : GameState E} {history : List (GameEvent E)}
    (run : Run (Guarded (Orderly type) fun s event s' => s.step type event = some s') s₀ history s)
    (counted : Counted type n k s₀) (few : k + 6 * history.length ≤ Map.uintMax) :
    (∀ j, Alike (s₀.maps j) (s.maps j)) ∧ Counted type n (k + 6 * history.length) s := by
  induction run with
  | start => exact ⟨fun j => .refl _, counted⟩
  | @next history s s' event before action ih =>
      rw [List.length_append, List.length_singleton] at few
      obtain ⟨alike, counted⟩ := ih (by omega)
      obtain ⟨orderly, result⟩ := action
      obtain ⟨t, result', alike', counted⟩ := counted.step (by omega) orderly
      obtain rfl : t = s' := Option.some.inj (result'.symm.trans result)
      refine ⟨fun j => (alike j).trans (alike' j), counted.mono (fun _ => le_rfl) ?_⟩
      rw [List.length_append, List.length_singleton]
      omega

def spawned (n : Nat) : EntityType := if n = 0 then .monster else .character

/-- Two tiles. -/
def field : Map where
  mWidth := 2
  mHeight := 1
  mTileWidth := 32
  mTileHeight := 32
  mMetaTiles := [{}, {}]
  width_nonneg := by decide
  height_nonneg := by decide
  tiles_length := rfl

def meadow : GameState Nat := { maps := fun _ => field }

theorem meadow_unoccupied : Unoccupied meadow := by
  refine ⟨rfl, fun t within => ?_⟩
  have blank : ∀ tile ∈ field.mMetaTiles, tile = {} := by simp [field]
  have none : (meadow.maps t.map).metaTile t.x t.y = {} := by
    rw [Map.metaTile, List.getD_eq_getElem?_getD, show meadow.maps t.map = field from rfl]
    cases there : field.mMetaTiles[(t.x + t.y * field.mWidth).toNat]? with
    | none => rfl
    | some tile => exact blank tile (List.mem_of_getElem? there)
  rw [occupation, none]
  exact ⟨rfl, UInt8.zero_and⟩

def after (s : GameState Nat) (event : GameEvent Nat) : GameState Nat :=
  (s.step spawned event).getD s

/-- A monster is put on the second tile. -/
def created : GameState Nat := after meadow (.create 0 0 ⟨40, 8⟩)

def inserted : GameState Nat := after created (.insert 0 true)

/-- It walks to the first tile. -/
def moved : GameState Nat := after inserted (.move 0 ⟨8, 8⟩)

def deserted : GameState Nat := after moved (.remove 0 .alive)

theorem created_run : Run (Guarded (Orderly spawned) fun s event s' => s.step spawned event = some s')
    meadow [.create 0 0 ⟨40, 8⟩] created :=
  .next .start ⟨List.not_mem_nil, rfl⟩

theorem moved_run : Run (Guarded (Orderly spawned) fun s event s' => s.step spawned event = some s')
    meadow [.create 0 0 ⟨40, 8⟩, .insert 0 true, .move 0 ⟨8, 8⟩] moved :=
  .next (.next created_run ⟨List.mem_singleton_self 0, rfl⟩) ⟨List.mem_singleton_self 0, rfl⟩

theorem deserted_run : Run (Guarded (Orderly spawned) fun s event s' => s.step spawned event = some s')
    inserted [.move 0 ⟨8, 8⟩, .remove 0 .alive] deserted :=
  .next (.next .start ⟨List.mem_singleton_self 0, rfl⟩)
    ⟨⟨List.mem_singleton_self 0, by decide⟩, rfl⟩

end Cgsf.Proof.MOGame.Occupation
