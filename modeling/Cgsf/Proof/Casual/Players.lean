import Cgsf.Casual.LogicEntry

/-!
# What a change of a player's state does

Everything that only sends leaves the rest of the server alone. A change of state moves one player,
and with it one entry of the lobby.
-/

namespace Cgsf.Proof.Casual
open Cgsf.Casual Std

def SendsOnly (s s' : SFLogicEntry) : Prop := s' = { s with sent := s'.sent }

namespace SendsOnly

theorem refl (s : SFLogicEntry) : SendsOnly s s := rfl

theorem trans {a b c : SFLogicEntry} (first : SendsOnly a b) (second : SendsOnly b c) :
    SendsOnly a c := by
  rw [SendsOnly] at *
  rw [second, first]

theorem sendToClient (s : SFLogicEntry) (p : PlayerRef) (m : Message) :
    SendsOnly s (s.sendToClient p m) := rfl

theorem foldl {α : Type} (f : SFLogicEntry → α → SFLogicEntry) (xs : List α)
    (each : ∀ s x, SendsOnly s (f s x)) (s : SFLogicEntry) : SendsOnly s (xs.foldl f s) := by
  induction xs generalizing s with
  | nil => exact refl s
  | cons x xs ih => exact (each s x).trans (ih _)

theorem foldlM {α : Type} (f : SFLogicEntry → α → Option SFLogicEntry) (xs : List α)
    (each : ∀ s x s', f s x = some s' → SendsOnly s s') (s s' : SFLogicEntry)
    (run : xs.foldlM f s = some s') : SendsOnly s s' := by
  induction xs generalizing s with
  | nil =>
      obtain rfl := Option.some.inj run
      exact refl _
  | cons x xs ih =>
      rw [List.foldlM_cons] at run
      obtain ⟨middle, first, rest⟩ := Option.bind_eq_some_iff.mp run
      exact (each s x middle first).trans (ih middle rest)

end SendsOnly

theorem sendRoomPage_sends {s s' : SFLogicEntry} {p : PlayerRef}
    (run : SFRoomManager.sendRoomPage s p = some s') : SendsOnly s s' := by
  rw [SFRoomManager.sendRoomPage] at run
  split at run
  · obtain ⟨info, -, rfl⟩ := Option.map_eq_some_iff.mp run
    exact .sendToClient s p _
  · obtain rfl := Option.some.inj run
    exact .sendToClient s p _

theorem sendCreatePlayer_sends (s : SFLogicEntry) (p : PlayerRef) (r : RoomRef) :
    SendsOnly s (SFSendPacket.sendCreatePlayer s p r) :=
  SendsOnly.foldl _ _ (fun s _ => .sendToClient s p _) s

theorem sendLoginResult_sends (s : SFLogicEntry) (p : PlayerRef) (result : Int) :
    SendsOnly s (SFSendPacket.sendLoginResult s p result) := by
  rw [SFSendPacket.sendLoginResult]
  split <;> rfl

theorem onMessage_sends {s s' : SFLogicEntry} {p : PlayerRef} {notice : Notice}
    (run : SFPlayer.onMessage s p notice = some s') : SendsOnly s s' := by
  cases notice with
  | peerList =>
      obtain ⟨r, -, rfl⟩ := Option.map_eq_some_iff.mp run
      exact .sendToClient s p _
  | enterTeamMember | leaveTeamMember | destroyPlayer | deletePeer =>
      obtain rfl := Option.some.inj run
      exact .sendToClient s p _

theorem propagateMessage_sends {s s' : SFLogicEntry} {r : RoomRef} {notice : Notice}
    (run : SFRoom.propagateMessage s r notice = some s') : SendsOnly s s' :=
  SendsOnly.foldlM _ _ (fun _ _ _ => onMessage_sends) s s' run

/-- The lobby after a player of the given serial went from one state to another. -/
def lobbyMove (lobby : TreeMap Int PlayerRef) (serial : Int) (p : PlayerRef)
    (old new : PlayerState) : TreeMap Int PlayerRef :=
  if old = new then lobby
  else
    let left := if old = .lobby then lobby.erase serial else lobby
    if new = .lobby then left.insertIfNew serial p else left

theorem onLeave_spec (s : SFLogicEntry) (p : PlayerRef) :
    ∃ sent, SFPlayerFSM.onLeave s p = { s with
      lobby := if (s.players p).state = .lobby then s.lobby.erase (s.players p).serial else s.lobby
      sent } := by
  rw [SFPlayerFSM.onLeave]
  cases (s.players p).state <;> exact ⟨_, rfl⟩

theorem onEnter_spec {s s' : SFLogicEntry} {p : PlayerRef}
    (run : SFPlayerFSM.onEnter s p = some s') :
    ∃ loadingComplete sent, s' = { s with
      players := Function.update s.players p { s.players p with loadingComplete }
      lobby := if (s.players p).state = .lobby then s.lobby.insertIfNew (s.players p).serial p
        else s.lobby
      sent } := by
  have same : Function.update s.players p
      { s.players p with loadingComplete := (s.players p).loadingComplete } = s.players :=
    Function.update_eq_self p s.players
  rw [SFPlayerFSM.onEnter] at run
  cases state : (s.players p).state <;> simp only [state] at run
  case loading =>
      obtain rfl := Option.some.inj run
      exact ⟨false, _, rfl⟩
  case lobby =>
      have sends := sendRoomPage_sends run
      refine ⟨(s.players p).loadingComplete, s'.sent, ?_⟩
      rw [same, sends]
      rfl
  case play =>
      obtain ⟨r, -, entered⟩ := Option.bind_eq_some_iff.mp run
      obtain ⟨-, -, rfl⟩ := Option.map_eq_some_iff.mp entered
      refine ⟨(s.players p).loadingComplete,
        (SFSendPacket.sendCreatePlayer (s.sendToClient p .playStart) p r).sent, ?_⟩
      rw [same]
      exact sendCreatePlayer_sends (s.sendToClient p .playStart) p r
  all_goals
      obtain rfl := Option.some.inj run
      exact ⟨(s.players p).loadingComplete, s.sent, by rw [same]; rfl⟩

theorem changeState_spec {s s' : SFLogicEntry} {p : PlayerRef} {state : PlayerState}
    (run : SFPlayerFSM.changeState s p state = some s') :
    ∃ loadingComplete sent, s' = { s with
      players := Function.update s.players p { s.players p with state, loadingComplete }
      lobby := lobbyMove s.lobby (s.players p).serial p (s.players p).state state
      sent } := by
  rw [SFPlayerFSM.changeState] at run
  split at run
  · rename_i already
    obtain rfl := Option.some.inj run
    refine ⟨(s.players p).loadingComplete, s.sent, ?_⟩
    rw [lobbyMove, if_pos already, ← already]
    exact congrArg (fun players => { s with players }) (Function.update_eq_self p s.players).symm
  · rename_i moves
    obtain ⟨sent, left⟩ := onLeave_spec s p
    rw [left] at run
    obtain ⟨loadingComplete, sent', rfl⟩ := onEnter_spec run
    refine ⟨loadingComplete, sent', ?_⟩
    simp only [SFLogicEntry.modifyPlayer, Function.update_self, Function.update_idem, lobbyMove,
      if_neg moves]

end Cgsf.Proof.Casual
