import Cgsf.ASIONet.ServerSession
import Mathlib.Data.List.Count

/-!
# The session slots of the server

No operation closes the socket of a session, and a failed accept gives nothing back. As long as every
session is used for one connection, each id is idle, being accepted or connected, and services are
used only while they exist.
-/

namespace Cgsf.Proof.ASIONet.ASIOServer
open Cgsf.ASIONet Library Cgsf.ASIONet.ASIOServer

structure Sound (s : ASIOServer) : Prop where
  slots : ∀ id < s.maxSessionCount,
    s.sessionQueue.count id + s.accepts.count id + s.receives.count id = 1
  accepting : s.bIsAccepting = true ↔ s.accepts ≠ []
  single : s.accepts.length ≤ 1
  waiting : s.sessionQueue ≠ [] → s.accepts ≠ []
  closed : ∀ id ∈ s.accepts, (s.sessionMap id).isOpen = false
  used : s.misused = false
  current : ∀ id ∈ s.receives, ∀ b ∈ (s.sessionMap id).sendDataQueue,
    (s.sessionMap id).since ≤ b.address

/-- No accept fails or finds a used session next in the queue, no connection ends while none is
being accepted, and nothing is sent to a session whose connection has ended. -/
def Unused (s : ASIOServer) : ServerEvent → Prop
  | .accept error => error = false ∧ ∀ id ∈ s.sessionQueue.head?, (s.sessionMap id).isOpen = false
  | .receive _ error => error = true → s.bIsAccepting = true
  | .send serial _ =>
      serial < s.maxSessionCount → (s.sessionMap serial).isOpen = true → serial ∈ s.receives
  | .written _ _ => True

instance (s : ASIOServer) : (e : ServerEvent) → Decidable (Unused s e)
  | .accept _ => inferInstanceAs (Decidable (_ ∧ ∀ id ∈ s.sessionQueue.head?, _))
  | .receive _ _ => inferInstanceAs (Decidable (_ → _))
  | .send _ _ => inferInstanceAs (Decidable (_ → _ → _))
  | .written _ _ => isTrue trivial

/-- The sessions and their services, apart from who is being accepted. -/
structure Slots (s : ASIOServer) : Prop where
  slots : ∀ id, s.sessionQueue.count id + s.accepts.count id + s.receives.count id =
    if id < s.maxSessionCount then 1 else 0
  connected : ∀ id ∈ s.receives, (s.sessionMap id).isOpen = true ∧
    ∃ service ∈ s.services, (s.sessionMap id).pSessionService = some service
  distinct : ∀ id ∈ s.receives, ∀ id' ∈ s.receives,
    (s.sessionMap id).pSessionService = (s.sessionMap id').pSessionService → id = id'
  created : ∀ id service, (s.sessionMap id).pSessionService = some service → service < s.created
  deleted : ∀ id, id ∉ s.receives → ∀ service,
    (s.sessionMap id).pSessionService = some service → service ∉ s.services
  unsent : ∀ id, (s.sessionMap id).isOpen = false → (s.sessionMap id).sendDataQueue = []
  current : ∀ id ∈ s.receives, (s.sessionMap id).since ≤ (s.sessionMap id).copies ∧
    ∀ b ∈ (s.sessionMap id).sendDataQueue, (s.sessionMap id).since ≤ b.address
  used : s.misused = false

structure Good (s : ASIOServer) : Prop extends Slots s where
  accepting : s.bIsAccepting = true ↔ s.accepts ≠ []
  single : s.accepts.length ≤ 1
  waiting : s.sessionQueue ≠ [] → s.accepts ≠ []
  closed : ∀ id ∈ s.accepts, (s.sessionMap id).isOpen = false

theorem Good.sound {s : ASIOServer} (good : Good s) : Sound s := by
  refine ⟨fun id small => ?_, good.accepting, good.single, good.waiting, good.closed, good.used,
    fun id member => (good.current id member).2⟩
  rw [good.slots id, if_pos small]

theorem Slots.congr {s s' : ASIOServer} (slots : Slots s)
    (moved : ∀ id, s'.sessionQueue.count id + s'.accepts.count id =
      s.sessionQueue.count id + s.accepts.count id)
    (same : { s with
      bIsAccepting := s'.bIsAccepting
      sessionQueue := s'.sessionQueue
      accepts := s'.accepts } = s') : Slots s' := by
  rw [← same]
  refine ⟨fun id => ?_, slots.connected, slots.distinct, slots.created, slots.deleted, slots.unsent,
    slots.current, slots.used⟩
  rw [← slots.slots id, ← moved id, ← same]

theorem good_postAccept {s : ASIOServer} (slots : Slots s) (none : s.accepts = [])
    (closed : ∀ id ∈ s.sessionQueue.head?, (s.sessionMap id).isOpen = false) :
    Good s.postAccept := by
  cases queue : s.sessionQueue with
  | nil =>
      have posting : s.postAccept = { s with bIsAccepting := false } := by
        rw [postAccept, queue]
      rw [posting]
      refine ⟨slots.congr (fun _ => rfl) rfl, ?_, ?_, ?_, ?_⟩
      · simp [none]
      · simp [none]
      · simp [queue]
      · simp [none]
  | cons id queue' =>
      have posting : s.postAccept = { s with
          bIsAccepting := true
          sessionQueue := queue'
          accepts := [id] } := by
        rw [postAccept, queue, none]
        rfl
      rw [posting]
      refine ⟨slots.congr (fun id' => ?_) rfl, ?_, ?_, ?_, ?_⟩
      · simp only [queue, none, List.count_cons, List.count_nil]
        omega
      · simp
      · simp
      · simp
      · intro id' member
        obtain rfl := List.mem_singleton.mp member
        exact closed id' (by rw [queue]; rfl)

theorem good_start (nMaxSessionCount : Nat) : Good (start nMaxSessionCount) := by
  refine good_postAccept ⟨fun id => ?_, nofun, nofun, nofun, nofun, fun _ _ => rfl, nofun, rfl⟩ rfl
    fun _ _ => rfl
  by_cases small : id < nMaxSessionCount <;> simp [init, List.nodup_range.count, small]

theorem setSession_self (s : ASIOServer) (id : Nat) (session : Session) :
    (s.setSession id session).sessionMap id = session := if_pos rfl

theorem setSession_other (s : ASIOServer) {id id' : Nat} (session : Session) (ne : id' ≠ id) :
    (s.setSession id session).sessionMap id' = s.sessionMap id' := if_neg ne

/-- What sending and completed writes do to a session. -/
structure Sends (before after : Session) : Prop where
  isOpen : after.isOpen = before.isOpen
  service : after.pSessionService = before.pSessionService
  since : after.since = before.since
  copies : before.copies ≤ after.copies
  queue : ∀ b ∈ after.sendDataQueue, b ∈ before.sendDataQueue ∨
    before.isOpen = true ∧ before.copies ≤ b.address

theorem Slots.setSession {s : ASIOServer} (slots : Slots s) {id : Nat} {session : Session}
    (sends : Sends (s.sessionMap id) session) : Slots (s.setSession id session) := by
  have kept (id' : Nat) : Sends (s.sessionMap id') ((s.setSession id session).sessionMap id') := by
    by_cases same : id' = id
    · rw [same, setSession_self]
      exact sends
    · rw [setSession_other s session same]
      exact ⟨rfl, rfl, rfl, Nat.le_refl _, fun _ member => .inl member⟩
  constructor
  · exact slots.slots
  · intro id' member
    rw [(kept id').isOpen, (kept id').service]
    exact slots.connected id' member
  · intro id' member id'' member' same
    rw [(kept id').service, (kept id'').service] at same
    exact slots.distinct id' member id'' member' same
  · intro id' service points
    rw [(kept id').service] at points
    exact slots.created id' service points
  · intro id' closed service points
    rw [(kept id').service] at points
    exact slots.deleted id' closed service points
  · intro id' closed
    rw [(kept id').isOpen] at closed
    refine List.eq_nil_iff_forall_not_mem.mpr fun b member => ?_
    rcases (kept id').queue b member with before | ⟨isOpen, -⟩
    · rw [slots.unsent id' closed] at before
      cases before
    · rw [closed] at isOpen
      cases isOpen
  · intro id' member
    obtain ⟨since, addresses⟩ := slots.current id' member
    rw [(kept id').since]
    refine ⟨Nat.le_trans since (kept id').copies, fun b listed => ?_⟩
    rcases (kept id').queue b listed with before | ⟨-, new⟩
    · exact addresses b before
    · exact Nat.le_trans since new
  · exact slots.used

theorem Good.setSession {s : ASIOServer} (good : Good s) {id : Nat} {session : Session}
    (sends : Sends (s.sessionMap id) session) : Good (s.setSession id session) := by
  refine ⟨good.toSlots.setSession sends, good.accepting, good.single, good.waiting, ?_⟩
  intro id' member
  by_cases same : id' = id
  · rw [same, setSession_self, sends.isOpen, ← same]
    exact good.closed id' member
  · rw [setSession_other s session same]
    exact good.closed id' member

theorem sends_postSend (session : Session) (data : SendData) (isOpen : session.isOpen = true) :
    Sends session (session.postSend data) := by
  cases data with
  | copy pData =>
      rw [Session.postSend]
      split
      · refine ⟨rfl, rfl, rfl, Nat.le_succ _, fun b member => ?_⟩
        rcases List.mem_append.mp member with before | new
        · exact .inl before
        · rw [List.mem_singleton.mp new]
          exact .inr ⟨isOpen, Nat.le_refl _⟩
      · refine ⟨rfl, rfl, rfl, Nat.le_succ _, fun b member => ?_⟩
        rcases List.mem_append.mp member with before | new
        · exact .inl before
        · rw [List.mem_singleton.mp new]
          exact .inr ⟨isOpen, Nat.le_refl _⟩
  | immediately pData nSize =>
      rw [Session.postSend]
      split <;> exact ⟨rfl, rfl, rfl, Nat.le_refl _, fun b member => .inl member⟩

theorem sends_sendRequest (session : Session) (encoded : Option (List UInt8))
    (isOpen : session.isOpen = true) : Sends session (session.sendRequest encoded) := by
  cases encoded with
  | none => exact ⟨rfl, rfl, rfl, Nat.le_refl _, fun b member => .inl member⟩
  | some pBuffer => exact sends_postSend session (.copy pBuffer) isOpen

theorem sends_complete {session session' : Session} {k : Nat}
    (action : session.step (.complete k) = some session') : Sends session session' := by
  rw [Session.step] at action
  cases found : session.outstanding[k]? with
  | none => simp [found] at action
  | some write =>
      simp only [found, Session.handleWrite] at action
      split at action
      · rename_i front queue _ sizes listed _
        have left : ∀ b ∈ queue, b ∈ session.sendDataQueue :=
          fun b member => listed ▸ List.mem_cons_of_mem front member
        split at action
        · obtain rfl := Option.some.inj action
          exact ⟨rfl, rfl, rfl, Nat.le_refl _, nofun⟩
        · obtain rfl := Option.some.inj action
          exact ⟨rfl, rfl, rfl, Nat.le_refl _, fun b member => .inl (left b member)⟩
        · cases action
      · cases action

theorem useService_live {s : ASIOServer} {id service : Nat}
    (points : (s.sessionMap id).pSessionService = some service) (live : service ∈ s.services) :
    s.useService id = s := by
  rw [useService, points]
  exact if_pos live

theorem Slots.useService {s : ASIOServer} (slots : Slots s) {id : Nat} (member : id ∈ s.receives) :
    s.useService id = s := by
  obtain ⟨-, service, live, points⟩ := slots.connected id member
  exact useService_live points live

theorem mem_count_one {s : ASIOServer} (slots : Slots s) {id : Nat} (member : id ∈ s.receives) :
    s.sessionQueue.count id = 0 ∧ s.accepts.count id = 0 ∧ s.receives.count id = 1 := by
  have some := List.count_pos_iff.mpr member
  have total := slots.slots id
  split at total <;> omega

/-- A connection is accepted. -/
theorem slots_connect {s : ASIOServer} (good : Good s) {id : Nat} {accepts : List Nat}
    (head : s.accepts = id :: accepts) :
    let s' := ((({ s with accepts }.setSession id { s.sessionMap id with isOpen := true }).onConnect
      id).postReceive id)
    Slots s' ∧ s'.accepts = [] ∧ s'.sessionQueue = s.sessionQueue ∧
      ∀ id' ∈ s.sessionQueue, s'.sessionMap id' = s.sessionMap id' := by
  intro s'
  have none : accepts = [] := by
    have single := good.single
    rw [head] at single
    exact List.length_eq_zero_iff.mp (Nat.le_zero.mp (Nat.le_of_succ_le_succ single))
  have counts := good.slots id
  have one : s.sessionQueue.count id = 0 ∧ s.receives.count id = 0 := by
    rw [head, List.count_cons_self] at counts
    split at counts <;> omega
  have fresh : id ∉ s.receives := List.count_eq_zero.mp one.2
  have closed := good.closed id (by rw [head]; exact List.mem_cons_self ..)
  have new : s'.sessionMap id = { s.sessionMap id with
      isOpen := true
      pSessionService := some s.created
      since := (s.sessionMap id).copies } := by
    change ((ASIOServer.setSession _ id _).sessionMap id) = _
    rw [setSession_self, setSession_self]
    rfl
  have old (id' : Nat) (ne : id' ≠ id) : s'.sessionMap id' = s.sessionMap id' := by
    change ((ASIOServer.setSession _ id _).sessionMap id') = _
    rw [setSession_other _ _ ne]
    exact setSession_other _ _ ne
  have receives : s'.receives = s.receives ++ [id] := rfl
  have services : s'.services = s.services ++ [s.created] := rfl
  have known (id' : Nat) (ne : id' ≠ id) (member : id' ∈ s'.receives) : id' ∈ s.receives := by
    rw [receives, List.mem_append, List.mem_singleton] at member
    exact member.resolve_right ne
  refine ⟨⟨?_, ?_, ?_, ?_, ?_, ?_, ?_, good.used⟩, none, rfl, ?_⟩
  · intro id'
    have before := good.slots id'
    change s.sessionQueue.count id' + accepts.count id' + (s.receives ++ [id]).count id' =
      if id' < s.maxSessionCount then 1 else 0
    rw [← before, head, none, List.count_append, List.count_nil]
    omega
  · intro id' member
    by_cases same : id' = id
    · rw [same, new, services]
      exact ⟨rfl, s.created, List.mem_append_right _ (List.mem_singleton_self _), rfl⟩
    · obtain ⟨isOpen, service, live, points⟩ := good.connected id' (known id' same member)
      rw [old id' same, services]
      exact ⟨isOpen, service, List.mem_append_left _ live, points⟩
  · intro id' member id'' member' points
    by_cases same : id' = id <;> by_cases same' : id'' = id
    · rw [same, same']
    · rw [same, new, old id'' same'] at points
      exact absurd (good.created id'' _ points.symm) (Nat.lt_irrefl _)
    · rw [same', new, old id' same] at points
      exact absurd (good.created id' _ points) (Nat.lt_irrefl _)
    · rw [old id' same, old id'' same'] at points
      exact good.distinct id' (known id' same member) id'' (known id'' same' member') points
  · intro id' service points
    by_cases same : id' = id
    · rw [same, new] at points
      rw [← Option.some.inj points]
      exact Nat.lt_succ_self s.created
    · rw [old id' same] at points
      exact Nat.lt_succ_of_lt (good.created id' service points)
  · intro id' gone service points
    have same : id' ≠ id := fun same => gone (by rw [same, receives]; simp)
    rw [old id' same] at points
    rw [services, List.mem_append, List.mem_singleton, not_or]
    refine ⟨good.deleted id' (fun member => gone ?_) service points,
      Nat.ne_of_lt (good.created id' service points)⟩
    rw [receives]
    exact List.mem_append_left _ member
  · intro id' shut
    by_cases same : id' = id
    · rw [same, new] at shut
      cases shut
    · rw [old id' same] at shut ⊢
      exact good.unsent id' shut
  · intro id' member
    by_cases same : id' = id
    · rw [same, new]
      refine ⟨Nat.le_refl _, fun b listed => ?_⟩
      have nothing := good.unsent id closed
      rw [nothing] at listed
      cases listed
    · rw [old id' same]
      exact good.current id' (known id' same member)
  · intro id' member
    refine old id' fun same => ?_
    rw [same] at member
    exact absurd one.1 (Nat.ne_of_gt (List.count_pos_iff.mpr member))

theorem onDisconnect_live {s : ASIOServer} {id service : Nat}
    (points : (s.sessionMap id).pSessionService = some service) (live : service ∈ s.services) :
    s.onDisconnect id = { s with services := s.services.filter (some · ≠ some service) } := by
  rw [onDisconnect, useService_live points live, points]

theorem count_others {receives : List Nat} (id id' : Nat) :
    (receives.filter (· ≠ id)).count id' = if id' = id then 0 else receives.count id' := by
  by_cases same : id' = id
  · rw [if_pos same, same]
    exact List.count_eq_zero.mpr fun listed => of_decide_eq_true (List.mem_filter.mp listed).2 rfl
  · rw [if_neg same]
    exact List.count_filter (decide_eq_true same)

theorem count_one (id id' : Nat) : [id].count id' = if id' = id then 1 else 0 := by
  rw [List.count_singleton]
  by_cases same : id' = id
  · rw [if_pos same, same, if_pos (beq_self_eq_true id)]
  · rw [if_neg same, if_neg (by simpa using Ne.symm same)]

/-- A connection ends while another is being accepted. -/
theorem good_disconnect {s : ASIOServer} (good : Good s) {id : Nat} (member : id ∈ s.receives)
    (accepting : s.bIsAccepting = true) :
    Good (({ s with receives := s.receives.filter (· ≠ id) }.closeSession id).onDisconnect id) := by
  obtain ⟨-, service, live, points⟩ := good.connected id member
  have closing : { s with receives := s.receives.filter (· ≠ id) }.closeSession id =
      { s with
        receives := s.receives.filter (· ≠ id)
        sessionQueue := s.sessionQueue ++ [id] } := by
    rw [closeSession, if_neg]
    rw [accepting]
    exact Bool.noConfusion
  have ending : ({ s with receives := s.receives.filter (· ≠ id) }.closeSession id).onDisconnect id =
      { s with
        receives := s.receives.filter (· ≠ id)
        sessionQueue := s.sessionQueue ++ [id]
        services := s.services.filter (some · ≠ some service) } := by
    rw [closing]
    exact onDisconnect_live points live
  obtain ⟨idle, taken, one⟩ := mem_count_one good.toSlots member
  have left {id' : Nat} (listed : id' ∈ s.receives.filter (· ≠ id)) :
      id' ∈ s.receives ∧ id' ≠ id := by
    obtain ⟨before, other⟩ := List.mem_filter.mp listed
    exact ⟨before, of_decide_eq_true other⟩
  rw [ending]
  refine ⟨⟨?_, ?_, ?_, good.created, ?_, good.unsent, ?_, good.used⟩, good.accepting, good.single,
    ?_, good.closed⟩
  · intro id'
    rw [← good.slots id']
    dsimp only
    rw [List.count_append]
    rw [count_others, count_one]
    by_cases same : id' = id
    · rw [if_pos same, if_pos same, same, idle, taken, one]
    · rw [if_neg same, if_neg same, Nat.add_zero]
  · intro id' listed
    obtain ⟨before, other⟩ := left listed
    obtain ⟨isOpen, service', live', points'⟩ := good.connected id' before
    refine ⟨isOpen, service', List.mem_filter.mpr ⟨live', decide_eq_true fun same => other ?_⟩,
      points'⟩
    exact good.distinct id' before id member (by rw [points', points, same])
  · intro id' listed id'' listed' same
    exact good.distinct id' (left listed).1 id'' (left listed').1 same
  · intro id' gone service' points' listed
    obtain ⟨live', other⟩ := List.mem_filter.mp listed
    by_cases same : id' = id
    · rw [same, points] at points'
      exact of_decide_eq_true other points'.symm
    · refine good.deleted id' (fun before => gone ?_) service' points' live'
      exact List.mem_filter.mpr ⟨before, decide_eq_true same⟩
  · exact fun id' listed => good.current id' (left listed).1
  · exact fun _ => good.accepting.mp accepting

theorem good_receive {s : ASIOServer} (good : Good s) {id : Nat} (member : id ∈ s.receives) :
    Good (({ s with receives := s.receives.filter (· ≠ id) }.useService id).postReceive id) := by
  obtain ⟨-, service, live, points⟩ := good.connected id member
  have reading : { s with receives := s.receives.filter (· ≠ id) }.useService id =
      { s with receives := s.receives.filter (· ≠ id) } := useService_live points live
  obtain ⟨-, -, one⟩ := mem_count_one good.toSlots member
  have counts (id' : Nat) : (s.receives.filter (· ≠ id) ++ [id]).count id' =
      s.receives.count id' := by
    rw [List.count_append, count_others, count_one]
    by_cases same : id' = id
    · rw [if_pos same, if_pos same, same, one]
    · rw [if_neg same, if_neg same, Nat.add_zero]
  have members (id' : Nat) : id' ∈ s.receives.filter (· ≠ id) ++ [id] ↔ id' ∈ s.receives := by
    rw [← List.count_pos_iff, counts, List.count_pos_iff]
  rw [reading]
  refine ⟨⟨?_, ?_, ?_, good.created, ?_, good.unsent, ?_, good.used⟩, good.accepting, good.single,
    good.waiting, good.closed⟩
  · intro id'
    have total := good.slots id'
    rw [← counts id'] at total
    exact total
  · exact fun id' listed => good.connected id' ((members id').mp listed)
  · exact fun id' listed id'' listed' =>
      good.distinct id' ((members id').mp listed) id'' ((members id'').mp listed')
  · exact fun id' gone => good.deleted id' (mt (members id').mpr gone)
  · exact fun id' listed => good.current id' ((members id').mp listed)

theorem good_accept {s : ASIOServer} (good : Good s) {id : Nat} {accepts : List Nat}
    (head : s.accepts = id :: accepts)
    (unused : ∀ next ∈ s.sessionQueue.head?, (s.sessionMap next).isOpen = false) :
    Good (({ s with accepts }.setSession id { s.sessionMap id with isOpen := true }).handleAccept
      id false) := by
  obtain ⟨slots, none, queue, same⟩ := slots_connect good head
  refine good_postAccept slots none fun next listed => ?_
  rw [queue] at listed
  rw [same next (List.mem_of_head? listed)]
  exact unused next listed

theorem good_send {s : ASIOServer} (good : Good s) (serial : Nat) (encoded : Option (List UInt8))
    (unused : Unused s (.send serial encoded)) : Good (s.sendRequest serial encoded) := by
  rw [sendRequest]
  split
  · split
    · have member := unused ‹_› ‹_›
      rw [good.toSlots.useService member]
      exact good.setSession (sends_sendRequest _ _ ‹_›)
    · exact good
  · exact good

theorem good_step {s s' : ASIOServer} {e : ServerEvent} (good : Good s) (unused : Unused s e)
    (action : s.step e = some s') : Good s' := by
  cases e with
  | accept error =>
      obtain ⟨rfl, closed⟩ := unused
      cases head : s.accepts with
      | nil => simp [step, head] at action
      | cons id accepts =>
          have shut := good.closed id (by rw [head]; exact List.mem_cons_self ..)
          simp only [step, head, shut, Bool.false_eq_true, if_false] at action
          obtain rfl := Option.some.inj action
          exact good_accept good head closed
  | receive id error =>
      rw [step] at action
      split at action
      · obtain rfl := Option.some.inj action
        cases error with
        | true => exact good_disconnect good ‹_› (unused rfl)
        | false => exact good_receive good ‹_›
      · cases action
  | send serial encoded =>
      obtain rfl := Option.some.inj action
      exact good_send good serial encoded unused
  | written id k =>
      obtain ⟨session, completed, rfl⟩ := Option.map_eq_some_iff.mp action
      exact good.setSession (sends_complete completed)

theorem misused_of_disconnected {s : ASIOServer} (slots : Slots s) {id : Nat}
    (gone : id ∉ s.receives) : (s.useService id).misused = true := by
  rw [useService]
  cases points : (s.sessionMap id).pSessionService with
  | none => rfl
  | some service =>
      dsimp only
      rw [if_neg (slots.deleted id gone service points)]

theorem head_closed {s : ASIOServer} {id : Nat} (head : id ∈ s.sessionQueue.head?)
    (closed : ∀ id ∈ s.postAccept.accepts, (s.postAccept.sessionMap id).isOpen = false) :
    (s.sessionMap id).isOpen = false := by
  rw [postAccept] at closed
  cases queue : s.sessionQueue with
  | nil => simp [queue] at head
  | cons next queue' =>
      obtain rfl : next = id := by simpa [queue] using head
      rw [queue] at closed
      exact closed next (List.mem_append_right _ (List.mem_singleton_self _))

theorem onDisconnect_frame (s : ASIOServer) (id : Nat) :
    (s.onDisconnect id).accepts = s.accepts ∧ (s.onDisconnect id).sessionMap = s.sessionMap := by
  rw [onDisconnect, useService]
  split
  · split <;> exact ⟨rfl, rfl⟩
  · exact ⟨rfl, rfl⟩

/-- A session that is closed while nothing is being accepted is the next to be accepted into. -/
theorem closed_of_idle {s : ASIOServer} {id : Nat} (stopped : s.bIsAccepting = false)
    (empty : s.sessionQueue = []) (sound : Sound ((s.closeSession id).onDisconnect id)) :
    (s.sessionMap id).isOpen = false := by
  obtain ⟨accepts, sessions⟩ := onDisconnect_frame (s.closeSession id) id
  have closed := sound.closed
  rw [accepts, sessions, closeSession, if_pos stopped] at closed
  refine head_closed (s := { s with sessionQueue := s.sessionQueue ++ [id] }) ?_ closed
  rw [empty]
  rfl

theorem failed_accept_unsound {s : ASIOServer} (good : Good s) {id : Nat} {accepts : List Nat}
    (head : s.accepts = id :: accepts) : ¬ Sound { s with accepts } := by
  intro sound
  have none : accepts = [] := by
    have single := good.single
    rw [head] at single
    exact List.length_eq_zero_iff.mp (Nat.le_zero.mp (Nat.le_of_succ_le_succ single))
  have total := good.slots id
  rw [head, none, List.count_cons_self, List.count_nil] at total
  have small : id < s.maxSessionCount := by
    by_contra large
    rw [if_neg large] at total
    omega
  have one : s.sessionQueue.count id + accepts.count id + s.receives.count id = 1 :=
    sound.slots id small
  rw [if_pos small] at total
  rw [none, List.count_nil] at one
  omega

/-- In a good state a step keeps the server sound exactly if it uses no session twice. -/
theorem step_sound_iff {s s' : ASIOServer} {e : ServerEvent} (good : Good s)
    (action : s.step e = some s') : Sound s' ↔ Unused s e := by
  refine ⟨fun sound => ?_, fun unused => (good_step good unused action).sound⟩
  cases e with
  | written id k => trivial
  | accept error =>
      cases head : s.accepts with
      | nil => simp [step, head] at action
      | cons id accepts =>
          cases error with
          | true =>
              simp only [step, head, if_true] at action
              obtain rfl := Option.some.inj action
              exact absurd sound (failed_accept_unsound good head)
          | false =>
              have shut := good.closed id (by rw [head]; exact List.mem_cons_self ..)
              simp only [step, head, shut, Bool.false_eq_true, if_false] at action
              obtain rfl := Option.some.inj action
              refine ⟨rfl, fun next listed => ?_⟩
              obtain ⟨-, none, queue, same⟩ := slots_connect good head
              rw [← same next (List.mem_of_head? listed)]
              rw [← queue] at listed
              exact head_closed listed sound.closed
  | receive id error =>
      rintro rfl
      by_contra idle
      have none : s.accepts = [] := not_not.mp (mt good.accepting.mpr idle)
      have empty : s.sessionQueue = [] := not_not.mp fun some => good.waiting some none
      have stopped : s.bIsAccepting = false := Bool.not_eq_true _ ▸ idle
      rw [step] at action
      split at action
      · rename_i member
        obtain rfl := Option.some.inj action
        have closed : (s.sessionMap id).isOpen = false :=
          closed_of_idle (s := { s with receives := s.receives.filter (· ≠ id) }) stopped empty sound
        rw [(good.connected id member).1] at closed
        cases closed
      · cases action
  | send serial encoded =>
      intro small isOpen
      by_contra gone
      obtain rfl := Option.some.inj action
      have used := sound.used
      rw [sendRequest, if_pos small, if_pos isOpen] at used
      rw [show ((s.useService serial).setSession serial _).misused =
        (s.useService serial).misused from rfl, misused_of_disconnected good.toSlots gone] at used
      cases used

/-- In every run in which no session is used twice, the server stays sound. -/
theorem run_sound (nMaxSessionCount : Nat) {history : List ServerEvent} {s : ASIOServer}
    (run : Run (Guarded Unused fun s e s' => s.step e = some s') (start nMaxSessionCount) history
      s) : Sound s :=
  (run.invariant (good_start nMaxSessionCount)
    fun _ _ _ good action => good_step good action.1 action.2).sound

theorem one_visit_sound :
    ∃ s : ASIOServer, s.sessionQueue = [0] ∧ Sound s := by
  obtain ⟨s, result⟩ : ∃ s, [ServerEvent.accept false, .receive 0 false, .send 0 (some [1]),
      .receive 0 true].foldlM (fun s e => if Unused s e then s.step e else none) (start 2) =
      some s := ⟨_, rfl⟩
  refine ⟨s, ?_, run_sound 2 (Run.guarded_of_foldlM Unused step _ result)⟩
  obtain rfl := Option.some.inj result
  rfl

/-- The only session ends its first connection and is accepted into again with its socket open. -/
theorem second_visit_unsound :
    ¬ ∀ (nMaxSessionCount : Nat) (history : List ServerEvent) (s : ASIOServer),
      Run (fun s e s' => s.step e = some s') (start nMaxSessionCount) history s → Sound s := by
  intro all
  obtain ⟨s, result⟩ : ∃ s, [ServerEvent.accept false, .receive 0 true].foldlM step (start 1) =
      some s := ⟨_, rfl⟩
  have sound := all 1 _ s (.of_foldlM step _ result)
  obtain rfl := Option.some.inj result
  have closed := sound.closed 0 (List.mem_singleton_self 0)
  cases closed

end Cgsf.Proof.ASIONet.ASIOServer
