import Mathlib.Data.List.Chain

/-!
# Strict alternation

A series of turns of two kinds, `true` first. Turns of many series in one list are told apart by a
key.
-/

namespace Cgsf.Library

structure Alternates (turns : List Bool) : Prop where
  first : ∀ turn ∈ turns.head?, turn = true
  strict : turns.IsChain (· ≠ ·)

namespace Alternates

theorem nil : Alternates [] := ⟨nofun, .nil⟩

theorem snoc_iff (turns : List Bool) (turn : Bool) :
    Alternates (turns ++ [turn]) ↔
      Alternates turns ∧ (turn = true ↔ turns.getLast? ≠ some true) := by
  have kinds (last : Bool) : last ≠ turn ↔ (turn = true ↔ some last ≠ some true) := by
    cases last <;> cases turn <;> simp
  cases last : turns.getLast? with
  | none =>
      obtain rfl := List.getLast?_eq_none_iff.mp last
      constructor
      · intro both
        exact ⟨nil, fun _ => nofun, fun _ => both.first turn rfl⟩
      · intro both
        refine ⟨fun first is => ?_, List.isChain_singleton turn⟩
        rw [← Option.some.inj is]
        exact both.2.mpr nofun
  | some k =>
      have nonempty : turns ≠ [] := by
        rintro rfl
        contradiction
      have head : (turns ++ [turn]).head? = turns.head? := by
        rw [List.head?_append_of_ne_nil turns nonempty]
      rw [← kinds k]
      constructor
      · rintro ⟨first, strict⟩
        rw [head] at first
        rw [List.isChain_append] at strict
        exact ⟨⟨first, strict.1⟩, strict.2.2 k last turn rfl⟩
      · rintro ⟨⟨first, strict⟩, other⟩
        refine ⟨by rwa [head], ?_⟩
        rw [List.isChain_append]
        refine ⟨strict, List.isChain_singleton turn, fun x here y is => ?_⟩
        rw [last] at here
        rw [← Option.some.inj here, ← Option.some.inj is]
        exact other

end Alternates

section Keyed

variable {K : Type*} [DecidableEq K]

/-- The turns of one key. -/
def turns (log : List (K × Bool)) (key : K) : List Bool :=
  (log.filter fun entry => entry.1 = key).map Prod.snd

theorem turns_append (log log' : List (K × Bool)) (key : K) :
    turns (log ++ log') key = turns log key ++ turns log' key := by
  rw [turns, List.filter_append, List.map_append]
  rfl

theorem turns_snoc_self (log : List (K × Bool)) (key : K) (turn : Bool) :
    turns (log ++ [(key, turn)]) key = turns log key ++ [turn] := by
  rw [turns_append]
  simp [turns]

theorem turns_snoc_other (log : List (K × Bool)) {key other : K} (turn : Bool)
    (unlike : key ≠ other) : turns (log ++ [(key, turn)]) other = turns log other := by
  rw [turns_append]
  simp [turns, unlike]

theorem turns_initial {log log' : List (K × Bool)} (before : log <+: log') (key : K) :
    turns log key <+: turns log' key := by
  obtain ⟨rest, rfl⟩ := before
  rw [turns_append]
  exact List.prefix_append _ _

theorem Alternates.of_initial {left right : List Bool} (alternates : Alternates right)
    (before : left <+: right) : Alternates left := by
  obtain ⟨rest, rfl⟩ := before
  induction rest using List.reverseRecOn with
  | nil => rwa [List.append_nil] at alternates
  | append_singleton rest turn ih =>
      rw [← List.append_assoc, Alternates.snoc_iff] at alternates
      exact ih alternates.1

end Keyed

end Cgsf.Library
