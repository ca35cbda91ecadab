import Cgsf.Casual.LogicEntry

/-!
# Who is logged in
-/

namespace Cgsf.Casual
open Std SFLogicEntry

/-- The database and the registry of names have accepted the player. -/
def loggedIn (state : PlayerState) : Bool := state ∉ [PlayerState.none, .init]

/-- No name is in use twice, and the registry leads from a name in use to its player. -/
structure SingleSession (s : SFLogicEntry) : Prop where
  alone : ∀ p q, loggedIn (s.players p).state = true → loggedIn (s.players q).state = true →
    (s.players p).username = (s.players q).username → p = q
  registered : ∀ p, loggedIn (s.players p).state = true →
    s.playerManager[(s.players p).username]? = some p

/-- If the event is a disconnect, the object of the player that goes carries no name that another
player is logged in under. -/
def Spares (s : SFLogicEntry) (event : Event) : Prop :=
  ∀ serial p, event = .disconnect serial → s.playerMap[serial]? = some p →
    ∀ q, q ≠ p → loggedIn (s.players q).state = true →
      (s.players q).username ≠ (s.players p).username

end Cgsf.Casual

/-!
# Whose check lets a player in
-/

namespace Cgsf.Casual
open Std SFLogicEntry

/-- The server, and where its history says that each request was made and each player taken. -/
structure Traced where
  server : SFLogicEntry
  time : Nat := 0
  sources : List Nat := []
  taken : PlayerRef → Option Nat := fun _ => none

namespace Traced

/-- A login packet makes a request when its player waits for one. -/
def asks (s : SFLogicEntry) (event : Event) : Bool :=
  match event with
  | .data serial (.login _ _) _ =>
      match s.playerMap[serial]? with
      | none => false
      | some p => (s.players p).state = .init
  | _ => false

def processPacket (t : Traced) (event : Event) : Option Traced :=
  (t.server.processPacket event).map fun server =>
    { server
      time := t.time + 1
      sources := match event with
        | .answer request _ | .noAnswer request => t.sources.eraseIdx request
        | event => if asks t.server event then t.sources ++ [t.time] else t.sources
      taken := match event with
        | .connect _ => Function.update t.taken t.server.allocPlayer.1 (some t.time)
        | _ => t.taken }

def Steps (t : Traced) (event : Event) (t' : Traced) : Prop := t.processPacket event = some t'

end Traced

/-- The serial was connected at `start` and has been neither connected again nor disconnected. -/
def Owns (history : List Event) (serial : Int) (start : Nat) : Prop :=
  history[start]? = some (.connect serial) ∧ ∀ i, start < i →
    history[i]? ≠ some (.connect serial) ∧ history[i]? ≠ some (.disconnect serial)

/-- The request is for the player's name and for the password that was sent with it, in a login
packet of the connection that the player was taken for and that still lasts. -/
def Identified (history : List Event) (t : Traced) (p : PlayerRef) (request : Nat) : Prop :=
  ∃ serial username password random start source,
    t.server.dbRequests[request]? = some ⟨serial, username, password⟩ ∧
      t.sources[request]? = some source ∧
      history[source]? = some (.data serial (.login username password) random) ∧
      t.taken p = some start ∧ Owns history serial start ∧ start < source ∧
      (t.server.players p).username = username

/-- Only the success of such a request lets a player in, under the name that was checked. -/
def LoginIdentity (history : List Event) (t : Traced) : Prop :=
  ∀ event t', t.Steps event t' → ∀ p, (t.server.players p).state ≠ .login →
    (t'.server.players p).state = .login →
      t'.server.playerManager[(t.server.players p).username]? = some p ∧
        ∃ request, event = .answer request dbResultStateSuccess ∧ Identified history t p request

/-- A connect is for a serial that nothing is left of, and what a waiting player sends has no
terminator in it and no other name than the requests on their way for its serial. -/
def Orderly (t : Traced) (event : Event) : Prop :=
  match event with
  | .connect serial =>
      serial ∉ t.server.playerMap ∧ ∀ message ∈ t.server.dbRequests, message.serial ≠ serial
  | .data serial (.login username password) _ =>
      ∀ p ∈ t.server.playerMap[serial]?, (t.server.players p).state = .init →
        0 ∉ username ∧ 0 ∉ password ∧
          ∀ message ∈ t.server.dbRequests, message.serial = serial → message.userName = username
  | _ => True

instance (t : Traced) (event : Event) : Decidable (Orderly t event) :=
  match event with
  | .connect _ => inferInstanceAs (Decidable (_ ∧ _))
  | .data _ (.login _ _) _ => inferInstanceAs (Decidable (∀ p ∈ _, _ → _ ∧ _ ∧ _))
  | .data _ .enterLobby _ | .data _ (.enterRoom _ _) _ | .data _ (.createRoom _) _
  | .data _ (.chatReq _) _ | .data _ (.playerIP _) _ | .data _ .roomListRefresh _
  | .data _ .changeTeam _ | .data _ .leaveRoom _ | .data _ .loadingStart _
  | .data _ .loadingComplete _ | .data _ (.other _) _ | .timer _ | .shouter | .answer _ _
  | .noAnswer _ | .disconnect _ => instDecidableTrue

/-! ## Which connection a serial stands for -/

/-- The serial that an event connects or disconnects. -/
def commandOf : Event → Option (Int × Bool)
  | .connect serial => some (serial, true)
  | .disconnect serial => some (serial, false)
  | _ => none

def commands (history : List Event) : List (Int × Bool) := history.filterMap commandOf

/-- Under each serial the map holds the player taken for the connect that was processed last, and
nobody when its disconnect was processed too. -/
def MapsLatest (history : List Event) (t : Traced) : Prop :=
  ∀ serial,
    (∀ start, Owns history serial start →
      ∃ p, t.taken p = some start ∧ t.server.playerMap[serial]? = some p) ∧
    ((∀ start, ¬ Owns history serial start) → t.server.playerMap[serial]? = none)

end Cgsf.Casual
