import Cgsf.Engine.LogicDispatcher

/-!
# Who owns a packet after `Dispatch`

A packet that is neither in the queue of a channel nor given back is lost. `DistributePacket` loses
it where the session has no channel, and no caller looks at its answer.
-/

namespace Cgsf.Proof.Engine.SFMulitiCasualGameDispatcher
open Cgsf.Engine Cgsf.Engine.SFMulitiCasualGameDispatcher

/-- The packet went to the end of the queue of one channel. -/
def Pushed (d d' : SFMulitiCasualGameDispatcher) (pPacket : PacketObject) : Prop :=
  d'.released = d.released ∧
    ∃ i < d.vecQueue.length, d'.vecQueue = d.vecQueue.modify i (· ++ [pPacket])

/-- The packet was given back once, in the way of its type. -/
def Released (d d' : SFMulitiCasualGameDispatcher) (pPacket : PacketObject) : Prop :=
  d'.vecQueue = d.vecQueue ∧ ∃ disposal,
    SFLogicDispatcher.releasePacket pPacket.packetType = some disposal ∧
      d'.released = d.released ++ [(pPacket, disposal)]

theorem not_pushed_released {d d' : SFMulitiCasualGameDispatcher} {pPacket : PacketObject}
    (pushed : Pushed d d' pPacket) : ¬ Released d d' pPacket := by
  rintro ⟨-, disposal, -, more⟩
  rw [pushed.1] at more
  simpa using congrArg List.length more

theorem not_pushed_self (d : SFMulitiCasualGameDispatcher) (pPacket : PacketObject) :
    ¬ Pushed d d pPacket := by
  rintro ⟨-, i, inside, same⟩
  have here := congrArg (fun queues : List (List PacketObject) => queues[i]?) same
  simp only [List.getElem?_modify_eq, List.getElem?_eq_getElem inside, Option.map_eq_map,
    Option.map_some, Option.some.injEq] at here
  simpa using congrArg List.length here

theorem not_released_self (d : SFMulitiCasualGameDispatcher) (pPacket : PacketObject) :
    ¬ Released d d pPacket := by
  rintro ⟨-, disposal, -, more⟩
  simpa using congrArg List.length more

theorem releasePacket_released (d : SFMulitiCasualGameDispatcher) {pPacket : PacketObject}
    {disposal : Disposal}
    (known : SFLogicDispatcher.releasePacket pPacket.packetType = some disposal) :
    Released d (d.releasePacket pPacket) pPacket := by
  rw [SFMulitiCasualGameDispatcher.releasePacket, known]
  exact ⟨rfl, disposal, known, rfl⟩

variable (world : Surroundings)

/-- There is a queue for the channel, and it takes the packet. -/
def Takes (channelCount : Nat) (channelNum : Int) : Prop :=
  0 ≤ channelNum ∧ channelNum < channelCount ∧ world.posts channelNum.toNat = true

instance (channelCount : Nat) (channelNum : Int) :
    Decidable (Takes world channelCount channelNum) :=
  inferInstanceAs (Decidable (_ ∧ _))

theorem distributePacket_taken {d : SFMulitiCasualGameDispatcher} {pSession : ISession}
    (takes : Takes world d.vecQueue.length pSession.channelNum) (pPacket : PacketObject) :
    Pushed d (d.distributePacket world pSession pPacket).1 pPacket := by
  obtain ⟨nonneg, below, posts⟩ := takes
  have inside : ¬ (pSession.channelNum < 0 ∨ pSession.channelNum ≥ d.vecQueue.length) := by
    omega
  simp only [distributePacket, if_neg inside, posts, if_true]
  exact ⟨rfl, pSession.channelNum.toNat, by omega, rfl⟩

theorem distributePacket_lost {d : SFMulitiCasualGameDispatcher} {pSession : ISession}
    (lost : ¬ Takes world d.vecQueue.length pSession.channelNum) (pPacket : PacketObject) :
    (d.distributePacket world pSession pPacket).1 = d := by
  simp only [distributePacket]
  split
  · rfl
  · split
    · exact absurd ⟨by omega, by omega, ‹_›⟩ lost
    · rfl

theorem distributePacket_owned_iff (d : SFMulitiCasualGameDispatcher) (pSession : ISession)
    (pPacket : PacketObject) :
    (Pushed d (d.distributePacket world pSession pPacket).1 pPacket ∨
      Released d (d.distributePacket world pSession pPacket).1 pPacket) ↔
      Takes world d.vecQueue.length pSession.channelNum := by
  by_cases takes : Takes world d.vecQueue.length pSession.channelNum
  · exact iff_of_true (.inl (distributePacket_taken world takes pPacket)) takes
  · rw [distributePacket_lost world takes]
    refine iff_of_false ?_ takes
    exact not_or.mpr ⟨not_pushed_self d pPacket, not_released_self d pPacket⟩

/-- Where `Dispatch` keeps hold of a packet: it is a CONNECT; or it is for an authenticated session
whose channel takes it; or it is DATA that authenticates the session and the channel 1 takes it; or
it is DATA of a session that is not authenticated by it. -/
def Kept (channelCount : Nat) (pSession : ISession) (pPacket : PacketObject) : Prop :=
  match pPacket.packetType with
  | .connect => True
  | .disconnect => pSession.sessionState = sessionStateAutenticate ∧
      Takes world channelCount pSession.channelNum
  | .data =>
      if pSession.sessionState = sessionStateAutenticate then
        Takes world channelCount pSession.channelNum
      else pSession.sessionState = sessionStateConnect →
        (world.onAuthenticate pPacket pSession).2 = true → Takes world channelCount 1
  | _ => False

theorem dispatch_owned_iff (d : SFMulitiCasualGameDispatcher) (pSession : ISession)
    (pPacket : PacketObject) :
    (Pushed d (d.dispatch world pSession pPacket).1 pPacket ∨
      Released d (d.dispatch world pSession pPacket).1 pPacket) ↔
      Kept world d.vecQueue.length pSession pPacket := by
  have lost : ¬ (Pushed d d pPacket ∨ Released d d pPacket) :=
    not_or.mpr ⟨not_pushed_self d pPacket, not_released_self d pPacket⟩
  rw [dispatch, Kept]
  cases type : pPacket.packetType with
  | connect =>
      have known : SFLogicDispatcher.releasePacket pPacket.packetType = some .delete := by
        rw [type]
        rfl
      exact iff_of_true (.inr (releasePacket_released d known)) trivial
  | disconnect =>
      by_cases authenticated : pSession.sessionState = sessionStateAutenticate
      · simp only [authenticated, if_true, true_and]
        exact distributePacket_owned_iff world d pSession pPacket
      · simp only [authenticated, if_false, false_and, iff_false]
        exact lost
  | data =>
      have known : SFLogicDispatcher.releasePacket pPacket.packetType = some .release := by
        rw [type]
        rfl
      have back (serial : Int) : Released d ((d.disconnect serial).releasePacket pPacket) pPacket :=
        releasePacket_released (d.disconnect serial) known
      dsimp only
      by_cases authenticated : pSession.sessionState = sessionStateAutenticate
      · rw [if_pos authenticated, if_pos authenticated]
        exact distributePacket_owned_iff world d pSession pPacket
      · rw [if_neg authenticated, if_neg authenticated]
        by_cases connected : pSession.sessionState = sessionStateConnect
        · rw [if_pos connected, imp_iff_right connected]
          by_cases accepted : (world.onAuthenticate pPacket pSession).2 = true
          · rw [if_pos accepted, imp_iff_right accepted]
            exact distributePacket_owned_iff world d _ pPacket
          · rw [if_neg accepted]
            exact iff_of_true (.inr (back _)) fun other => absurd other accepted
        · rw [if_neg connected]
          exact iff_of_true (.inr (back _)) fun other => absurd other connected
  | none | rpc | timer | shouter | db | serverShutdown | authenticate => exact iff_of_false lost id

/-- A packet that authenticates its session, with the one channel of the default constructor. -/
theorem firstData_lost :
    let world : Surroundings := ⟨fun _ pSession => (pSession, true), fun _ => true⟩
    let pSession : ISession := { sessionState := sessionStateConnect }
    let pPacket : PacketObject := { packetType := .data, address := 0 }
    let d' := (dispatch world (createLogicSystem 1) pSession pPacket).1
    ¬ (Pushed (createLogicSystem 1) d' pPacket ∨ Released (createLogicSystem 1) d' pPacket) := by
  intro world pSession pPacket d'
  have same : d' = createLogicSystem 1 := by decide
  rw [same]
  exact not_or.mpr ⟨not_pushed_self _ pPacket, not_released_self _ pPacket⟩

end Cgsf.Proof.Engine.SFMulitiCasualGameDispatcher
