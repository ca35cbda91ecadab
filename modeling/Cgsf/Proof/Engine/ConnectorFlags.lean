import Cgsf.Engine.ServerConnectionManager

/-!
# Flags and connections

Outside a call for it, a connector is marked connected exactly if it holds a connection. `held` says
which services are held, `young` which have not asked for their id yet.
-/

namespace Cgsf.Proof.Engine.SFServerConnectionManager
open Cgsf.Engine Cgsf.Engine.SFServerConnectionManager Cgsf.CGSFNet

variable {owner : ServiceRef → Option Nat} {held held' young young' : ServiceRef → Prop}
  {infos : List ConnectorInfo} {pass : Option Pass} {startUp : Bool} {i : Nat} {p : ServiceRef}

/-- `AddConnector` has been called for the connector and has not come back. -/
def Calling (pass : Option Pass) (i : Nat) : Prop :=
  ∃ startUp stage, pass = some ⟨startUp, i, some stage⟩

structure Tracks (owner : ServiceRef → Option Nat) (held young : ServiceRef → Prop)
    (infos : List ConnectorInfo) (pass : Option Pass) : Prop where
  fresh : ∀ p i, owner p = some i → young p →
    ∃ startUp, pass = some ⟨startUp, i, some (.opening p)⟩
  single : ∀ i p q, owner p = some i → owner q = some i → held p → held q → p = q
  flag : ∀ i info, infos[i]? = some info → ¬Calling pass i →
    (info.connected = true ↔ ∃ p, owner p = some i ∧ held p)
  off : ∀ i info, infos[i]? = some info → Calling pass i → info.connected = false
  mine : ∀ startUp i stage p, pass = some ⟨startUp, i, some stage⟩ → stage.service = some p →
    owner p = some i
  only : ∀ startUp i stage p, pass = some ⟨startUp, i, some stage⟩ → owner p = some i → held p →
    stage.service = some p
  first : ∀ i call p j, pass = some ⟨true, i, call⟩ → owner p = some j →
    j < i ∨ j = i ∧ call ≠ none

theorem service_after (stage : Stage) (action : Action) :
    (stage.after action).service = stage.service := by
  cases stage with
  | opening p =>
      cases action with
      | postRecv q isPosted =>
          simp only [Stage.after]
          split
          · split <;> rfl
          · rfl
      | _ => rfl
  | _ => rfl

theorem after_cases {action : Action} {call : Option Stage}
    (is : pass.map (·.after action) = some ⟨startUp, i, call⟩) :
    ∃ before, pass = some ⟨startUp, i, before⟩ ∧ call = before.map (·.after action) := by
  obtain ⟨⟨start, index, before⟩, found, after⟩ := Option.map_eq_some_iff.mp is
  cases after
  exact ⟨before, found, rfl⟩

theorem after_stage {action : Action} {stage : Stage}
    (is : pass.map (·.after action) = some ⟨startUp, i, some stage⟩) :
    ∃ before, pass = some ⟨startUp, i, some before⟩ ∧ stage.service = before.service := by
  obtain ⟨call, found, after⟩ := after_cases is
  obtain ⟨before, rfl, rfl⟩ := Option.map_eq_some_iff.mp after.symm
  exact ⟨before, found, service_after before action⟩

theorem calling_after {action : Action} : Calling (pass.map (·.after action)) i ↔ Calling pass i := by
  constructor
  · rintro ⟨startUp, stage, is⟩
    obtain ⟨before, found, -⟩ := after_stage is
    exact ⟨startUp, before, found⟩
  · rintro ⟨startUp, stage, rfl⟩
    exact ⟨startUp, stage.after action, rfl⟩

namespace Tracks

theorem calling_of_young (tracks : Tracks owner held young infos pass) (mine : owner p = some i)
    (new : young p) : Calling pass i := by
  obtain ⟨startUp, found⟩ := tracks.fresh p i mine new
  exact ⟨startUp, .opening p, found⟩

theorem grown (tracks : Tracks owner held young infos pass) (idle : ∀ i, ¬Calling pass i)
    (mine : owner p = some i) : ¬young p :=
  fun new => idle i (tracks.calling_of_young mine new)

theorem afterNetwork (tracks : Tracks owner held young infos pass) {action : Action}
    (lost : ∀ p i, owner p = some i → held' p → held p ∨ young p)
    (kept : ∀ p i, owner p = some i → held p → held' p)
    (grows : ∀ p i, owner p = some i → young' p →
      young p ∧ (Stage.opening p).after action = .opening p) :
    Tracks owner held' young' infos (pass.map (·.after action)) := by
  refine ⟨fun p i mine new => ?_, fun i p q mineP mineQ holdsP holdsQ => ?_,
    fun i info found idle => ?_, fun i info found calling => ?_, fun startUp i stage p is mine => ?_,
    fun startUp i stage p is mine holds => ?_, fun i call p j is mine => ?_⟩
  · obtain ⟨old, same⟩ := grows p i mine new
    obtain ⟨startUp, rfl⟩ := tracks.fresh p i mine old
    refine ⟨startUp, ?_⟩
    simp only [Option.map_some, Pass.after, same]
  · -- a service that is held only now is the one of the call
    have opens {p q : ServiceRef} (mineP : owner p = some i) (mineQ : owner q = some i)
        (new : young p) (holds : held' q) : p = q := by
      obtain ⟨startUp, found⟩ := tracks.fresh p i mineP new
      rcases lost q i mineQ holds with holds | young
      · exact Option.some.inj (tracks.only startUp i _ q found mineQ holds)
      · obtain ⟨startUp', found'⟩ := tracks.fresh q i mineQ young
        cases found.symm.trans found'
        rfl
    rcases lost p i mineP holdsP with oldP | young
    · rcases lost q i mineQ holdsQ with oldQ | young
      · exact tracks.single i p q mineP mineQ oldP oldQ
      · exact (opens mineQ mineP young holdsP).symm
    · exact opens mineP mineQ young holdsQ
  · rw [calling_after] at idle
    rw [tracks.flag i info found idle]
    refine exists_congr fun p => and_congr_right fun mine => ⟨kept p i mine, fun holds => ?_⟩
    rcases lost p i mine holds with holds | young
    · exact holds
    · exact absurd (tracks.calling_of_young mine young) idle
  · exact tracks.off i info found (calling_after.mp calling)
  · obtain ⟨before, found, service⟩ := after_stage is
    exact tracks.mine startUp i before p found (service ▸ mine)
  · obtain ⟨before, found, service⟩ := after_stage is
    rw [service]
    rcases lost p i mine holds with holds | young
    · exact tracks.only startUp i before p found mine holds
    · obtain ⟨startUp', found'⟩ := tracks.fresh p i mine young
      cases found.symm.trans found'
      rfl
  · obtain ⟨before, found, rfl⟩ := after_cases is
    refine (tracks.first i before p j found mine).imp_right fun ⟨same, calls⟩ => ⟨same, ?_⟩
    simpa using calls

theorem moves (tracks : Tracks owner held young infos pass) {pass' : Option Pass}
    (idle : ∀ i, ¬Calling pass i) (idle' : ∀ i, ¬Calling pass' i)
    (later : ∀ i call, pass' ≠ some ⟨true, i, call⟩) : Tracks owner held young infos pass' where
  fresh := fun _ _ mine new => absurd new (tracks.grown idle mine)
  single := tracks.single
  flag := fun i info found _ => tracks.flag i info found (idle i)
  off := fun i _ _ calling => absurd calling (idle' i)
  mine := fun startUp i stage _ is => absurd ⟨startUp, stage, is⟩ (idle' i)
  only := fun startUp i stage _ is => absurd ⟨startUp, stage, is⟩ (idle' i)
  first := fun i call _ _ is => absurd is (later i call)

theorem idle_of_none : ∀ j, ¬Calling (some ⟨startUp, i, none⟩) j := by
  rintro j ⟨startUp', stage, is⟩
  cases is

theorem unheld (tracks : Tracks owner held young infos (some ⟨startUp, i, none⟩))
    {info : ConnectorInfo} (found : infos[i]? = some info)
    (due : startUp = true ∨ info.connected = false) (mine : owner p = some i) : ¬held p := by
  intro holds
  rcases due with rfl | off
  · rcases tracks.first i none p i rfl mine with below | ⟨-, calls⟩
    · exact Nat.lt_irrefl i below
    · exact calls rfl
  · have on := (tracks.flag i info found (idle_of_none i)).mpr ⟨p, mine, holds⟩
    rw [off] at on
    cases on

theorem begins (tracks : Tracks owner held young infos (some ⟨startUp, i, none⟩))
    {info : ConnectorInfo} (found : infos[i]? = some info)
    (due : startUp = true ∨ info.connected = false) :
    Tracks owner held young infos (some ⟨startUp, i, some .connecting⟩) := by
  refine ⟨fun p j mine new => absurd new (tracks.grown idle_of_none mine), tracks.single,
    fun j info found _ => tracks.flag j info found (idle_of_none j),
    fun j other there calling => ?_, fun start j stage p is mine => ?_,
    fun start j stage p is mine holds => ?_, fun j call p k is mine => ?_⟩
  · obtain ⟨start, stage, is⟩ := calling
    cases is
    obtain rfl := Option.some.inj (there.symm.trans found)
    rw [Bool.eq_false_iff]
    intro on
    obtain ⟨p, mine, holds⟩ := (tracks.flag i other found (idle_of_none i)).mp on
    exact tracks.unheld found due mine holds
  · cases is
    cases mine
  · cases is
    exact absurd holds (tracks.unheld found due mine)
  · cases is
    refine (tracks.first i none p k rfl mine).imp_right fun ⟨_, calls⟩ => absurd rfl calls

/-- The call goes on with the service it has. -/
theorem goes_on {stage stage' : Stage}
    (tracks : Tracks owner held young infos (some ⟨startUp, i, some stage⟩))
    (service : stage'.service = stage.service) (left : ∀ p, stage = .opening p → ¬young p) :
    Tracks owner held young infos (some ⟨startUp, i, some stage'⟩) := by
  have calling {j : Nat} (now : Calling (some ⟨startUp, i, some stage'⟩) j) :
      Calling (some ⟨startUp, i, some stage⟩) j := by
    obtain ⟨start, other, is⟩ := now
    cases is
    exact ⟨startUp, stage, rfl⟩
  have calls {j : Nat} (before : Calling (some ⟨startUp, i, some stage⟩) j) :
      Calling (some ⟨startUp, i, some stage'⟩) j := by
    obtain ⟨start, other, is⟩ := before
    cases is
    exact ⟨startUp, stage', rfl⟩
  refine ⟨fun p j mine new => ?_, tracks.single,
    fun j info found idle => tracks.flag j info found fun before => idle (calls before),
    fun j info found now => tracks.off j info found (calling now), fun start j other p is => ?_,
    fun start j other p is => ?_, fun j call p k is mine => ?_⟩
  · obtain ⟨start, is⟩ := tracks.fresh p j mine new
    cases is
    exact absurd new (left p rfl)
  · cases is
    rw [service]
    exact tracks.mine startUp i stage p rfl
  · cases is
    rw [service]
    exact tracks.only startUp i stage p rfl
  · cases is
    exact (tracks.first i (some stage) p k rfl mine).imp_right fun ⟨same, _⟩ => ⟨same, nofun⟩

/-- The connection is made. -/
theorem makes (tracks : Tracks owner held young infos (some ⟨startUp, i, some .connecting⟩))
    {q : ServiceRef} (free : owner q = none) (unheld : ¬held' q)
    (same : ∀ p, p ≠ q → (held' p ↔ held p)) (grows : ∀ p, p ≠ q → young' p → young p) :
    Tracks (Function.update owner q (some i)) held' young' infos
      (some ⟨startUp, i, some (.opening q)⟩) := by
  have owned {p : ServiceRef} {j : Nat} (mine : Function.update owner q (some i) p = some j) :
      p = q ∧ j = i ∨ p ≠ q ∧ owner p = some j := by
    by_cases me : p = q
    · subst me
      rw [Function.update_self] at mine
      exact .inl ⟨rfl, (Option.some.inj mine).symm⟩
    · rw [Function.update_of_ne me] at mine
      exact .inr ⟨me, mine⟩
  have other {p : ServiceRef} {j : Nat} (mine : Function.update owner q (some i) p = some j)
      (holds : held' p) : owner p = some j ∧ held p := by
    rcases owned mine with ⟨rfl, -⟩ | ⟨me, mine⟩
    · exact absurd holds unheld
    · exact ⟨mine, (same p me).mp holds⟩
  have none_of_call {p : ServiceRef} (mine : owner p = some i) (holds : held p) : False := by
    have never := tracks.only startUp i .connecting p rfl mine holds
    cases never
  refine ⟨fun p j mine new => ?_, fun j p p' mine mine' holds holds' => ?_,
    fun j info found idle => ?_, fun j info found now => ?_, fun start j stage p is mine => ?_,
    fun start j stage p is mine holds => ?_, fun j call p k is mine => ?_⟩
  · rcases owned mine with ⟨rfl, rfl⟩ | ⟨me, mine⟩
    · exact ⟨startUp, rfl⟩
    · obtain ⟨start, is⟩ := tracks.fresh p j mine (grows p me new)
      cases is
  · have before := other mine holds
    have before' := other mine' holds'
    exact tracks.single j p p' before.1 before'.1 before.2 before'.2
  · have apart : j ≠ i := by
      rintro rfl
      exact idle ⟨startUp, _, rfl⟩
    have flag := tracks.flag j info found fun ⟨start, stage, is⟩ => by
      cases is
      exact apart rfl
    rw [flag]
    constructor
    · rintro ⟨p, mine, holds⟩
      have me : p ≠ q := by
        rintro rfl
        rw [free] at mine
        cases mine
      refine ⟨p, ?_, (same p me).mpr holds⟩
      rwa [Function.update_of_ne me]
    · rintro ⟨p, mine, holds⟩
      exact ⟨p, other mine holds⟩
  · obtain ⟨start, stage, is⟩ := now
    cases is
    exact tracks.off i info found ⟨startUp, .connecting, rfl⟩
  · cases is
    cases mine
    exact Function.update_self ..
  · cases is
    have before := other mine holds
    exact (none_of_call before.1 before.2).elim
  · cases is
    rcases owned mine with ⟨-, rfl⟩ | ⟨-, mine⟩
    · exact .inr ⟨rfl, nofun⟩
    · exact (tracks.first i _ p k rfl mine).imp_right fun ⟨same, _⟩ => ⟨same, nofun⟩

/-- The call ends; the flag is set exactly if the connection is held. -/
theorem ends {stage : Stage}
    (tracks : Tracks owner held young infos (some ⟨startUp, i, some stage⟩))
    (left : ∀ p, stage ≠ .opening p) {c : Prop} [Decidable c]
    (agrees : c ↔ ∃ p, stage.service = some p ∧ held p) :
    Tracks owner held young
      (if c then infos.modify i fun info => { info with connected := true } else infos)
      (some ⟨startUp, i + 1, none⟩) := by
  have grown {p : ServiceRef} {j : Nat} (mine : owner p = some j) : ¬young p := fun new => by
    obtain ⟨start, is⟩ := tracks.fresh p j mine new
    cases is
    exact left p rfl
  have holder : c ↔ ∃ p, owner p = some i ∧ held p := by
    rw [agrees]
    refine exists_congr fun p => and_congr_left fun holds => ⟨?_, fun mine => ?_⟩
    · exact tracks.mine startUp i stage p rfl
    · exact tracks.only startUp i stage p rfl mine holds
  refine ⟨fun p j mine new => absurd new (grown mine), tracks.single, fun j info found _ => ?_,
    fun j _ _ calling => absurd calling (idle_of_none j),
    fun start j stage _ is => absurd ⟨start, stage, is⟩ (idle_of_none j),
    fun start j stage _ is => absurd ⟨start, stage, is⟩ (idle_of_none j), fun j call p k is mine => ?_⟩
  · by_cases same : j = i
    · subst same
      rw [← holder]
      split at found
      · rename_i meets
        rw [List.getElem?_modify_eq] at found
        obtain ⟨before, -, rfl⟩ := Option.map_eq_some_iff.mp found
        exact iff_of_true rfl meets
      · rename_i fails
        have off := tracks.off j info found ⟨startUp, stage, rfl⟩
        rw [off]
        exact iff_of_false Bool.false_ne_true fails
    · have before : infos[j]? = some info := by
        split at found
        · rwa [List.getElem?_modify_ne _ _ (Ne.symm same)] at found
        · exact found
      refine tracks.flag j info before fun ⟨start, other, is⟩ => ?_
      cases is
      exact same rfl
  · cases is
    refine .inl ?_
    rcases tracks.first i _ p k rfl mine with below | ⟨rfl, -⟩
    · exact Nat.lt_succ_of_lt below
    · exact Nat.lt_succ_self _

theorem congr (tracks : Tracks owner held young infos pass)
    (same : ∀ p i, owner p = some i → (held' p ↔ held p)) :
    Tracks owner held' young infos pass where
  fresh := tracks.fresh
  single := fun i p q mineP mineQ holdsP holdsQ =>
    tracks.single i p q mineP mineQ ((same p i mineP).mp holdsP) ((same q i mineQ).mp holdsQ)
  flag := fun i info found idle => by
    rw [tracks.flag i info found idle]
    exact exists_congr fun p => and_congr_right fun mine => (same p i mine).symm
  off := tracks.off
  mine := tracks.mine
  only := fun startUp i stage p is mine holds =>
    tracks.only startUp i stage p is mine ((same p i mine).mp holds)
  first := tracks.first

/-- The connector gives up the connection that it holds, and its flag. -/
theorem releases (tracks : Tracks owner held young infos pass) {q : ServiceRef}
    (mine : owner q = some i) (holds : held q) (gone : ∀ p, held' p ↔ held p ∧ p ≠ q) :
    Tracks owner held' young (infos.modify i fun info => { info with connected := false }) pass := by
  have modified {j : Nat} {info : ConnectorInfo}
      (found : (infos.modify i fun info => { info with connected := false })[j]? = some info) :
      j = i ∧ info.connected = false ∨ j ≠ i ∧ infos[j]? = some info := by
    by_cases same : j = i
    · subst same
      rw [List.getElem?_modify_eq] at found
      obtain ⟨before, -, rfl⟩ := Option.map_eq_some_iff.mp found
      exact .inl ⟨rfl, rfl⟩
    · rw [List.getElem?_modify_ne _ _ (Ne.symm same)] at found
      exact .inr ⟨same, found⟩
  refine ⟨tracks.fresh, fun j p p' mineP mineP' holdsP holdsP' => ?_, fun j info found idle => ?_,
    fun j info found calling => ?_, tracks.mine, fun start j stage p is mineP holdsP => ?_,
    tracks.first⟩
  · exact tracks.single j p p' mineP mineP' ((gone p).mp holdsP).1 ((gone p').mp holdsP').1
  · rcases modified found with ⟨rfl, off⟩ | ⟨same, before⟩
    · rw [off]
      refine iff_of_false Bool.false_ne_true ?_
      rintro ⟨p, mineP, holdsP⟩
      obtain ⟨old, other⟩ := (gone p).mp holdsP
      exact other (tracks.single j p q mineP mine old holds)
    · rw [tracks.flag j info before idle]
      refine exists_congr fun p => and_congr_right fun mineP => ?_
      rw [gone, iff_self_and]
      rintro - rfl
      exact same (Option.some.inj (mineP.symm.trans mine))
  · rcases modified found with ⟨-, off⟩ | ⟨-, before⟩
    · exact off
    · exact tracks.off j info before calling
  · exact tracks.only start j stage p is mineP ((gone p).mp holdsP).1

end Tracks

end Cgsf.Proof.Engine.SFServerConnectionManager
