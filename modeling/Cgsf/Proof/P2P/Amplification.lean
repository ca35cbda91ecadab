import Cgsf.Library.Transition
import Cgsf.P2P.Relays
import Cgsf.Proof.P2P.Confinement

/-!
# Relays that relay to relays

The relay handlers refuse a nested `RELAYDATA` packet but not a nested `RELAYDATA_EX` one. Where no
such packet gets through, one datagram from outside is relayed once, to at most 255 destinations.
-/

namespace Cgsf.Proof.P2P
open Cgsf.P2P Library

def RelayType (d : List UInt8) : Prop :=
  packetType d = puPktHeadTypeRelayData ∨ packetType d = puPktHeadTypeRelayDataEx

instance (d : List UInt8) : Decidable (RelayType d) := inferInstanceAs (Decidable (_ ∨ _))

namespace Relay
open Cgsf.P2P.Relay

def sender : Relay → Send
  | slave => CRelaySlave.send
  | peers c => c.sendToPeer

/-- A client relays only what carries its own serial. -/
def Admits : Relay → List UInt8 → Prop
  | slave, _ => True
  | peers c, d => field d 8 4 = c.serial

instance : (r : Relay) → (d : List UInt8) → Decidable (Admits r d)
  | slave, _ => isTrue trivial
  | peers c, d => inferInstanceAs (Decidable (field d 8 4 = c.serial))

/-- The length from which on a datagram is not sent. -/
def limit : Relay → Nat
  | slave => CRelaySlave.relayPktMaxSize
  | peers c => c.maxSndPktLen

/-- The relay sends on a nested packet that is itself of a relay type. -/
def Escapes (r : Relay) (d : List UInt8) : Prop :=
  (packetType d = puPktHeadTypeRelayData ∨
      packetType d = puPktHeadTypeRelayDataEx ∧ r.relaysEx = true ∧ destSize d ≠ 0) ∧
    20 ≤ d.length ∧ Admits r d ∧ d.getD 12 0 = puPktHeadTypeRelayDataEx ∧
    12 + field d 2 2 < limit r

instance (r : Relay) (d : List UInt8) : Decidable (Escapes r d) :=
  inferInstanceAs (Decidable ((_ ∨ _ ∧ _ ∧ _) ∧ _ ∧ _ ∧ _ ∧ _))

section
variable (r : Relay) {memory : Nat → UInt8} {d : List UInt8}

/-- One datagram of the given type, or none where it is too long. -/
theorem nested_sent (memory : Nat → UInt8) (d : List UInt8) (position : Nat) (dst : SockAddr) :
    (limit r ≤ 12 + field d 2 2 ∧ (nested (sender r) d position dst).run memory = []) ∨
      (12 + field d 2 2 < limit r ∧
        ∃ p, (nested (sender r) d position dst).run memory = [p] ∧
          packetType p.data = d.getD 12 0) := by
  rcases Nat.lt_or_ge (12 + field d 2 2) (limit r) with fits | long
  · refine .inr ⟨fits, ?_⟩
    cases r with
    | slave =>
        have sent : ¬ 12 + field d 2 2 ≥ CRelaySlave.relayPktMaxSize := Nat.not_le.mpr fits
        rw [nested, sender, CRelaySlave.send, puPacketHeadLen, if_neg sent, Reader.run_bind,
          Reader.run_done]
        exact ⟨_, rfl, rfl⟩
    | peers c =>
        have sent : ¬ 12 + field d 2 2 ≥ c.maxSndPktLen := Nat.not_le.mpr fits
        rw [nested, sender, CCtrlPeers.sendToPeer, CCtrlPeers.send, puPacketHeadLen, if_neg sent,
          Reader.run_bind, Reader.run_done]
        exact ⟨_, rfl, rfl⟩
  · refine .inl ⟨long, ?_⟩
    cases r with
    | slave =>
        have refused : 12 + field d 2 2 ≥ CRelaySlave.relayPktMaxSize := long
        rw [nested, sender, CRelaySlave.send, puPacketHeadLen, if_pos refused, Reader.run_done]
    | peers c =>
        have refused : 12 + field d 2 2 ≥ c.maxSndPktLen := long
        rw [nested, sender, CCtrlPeers.sendToPeer, CCtrlPeers.send, puPacketHeadLen,
          if_pos refused, Reader.run_done]

variable (holds : Holds memory d)
include holds

theorem pktHandleRelayData_run (long : 12 ≤ d.length) :
    (pktHandleRelayData r d.length).run memory =
      if Admits r d ∧ Relays d then (nested (sender r) d 20 (destination d)).run memory else [] := by
  cases r with
  | slave =>
      refine (relayData_nested holds CRelaySlave.send).2.trans ?_
      exact if_congr (and_iff_right trivial).symm rfl rfl
  | peers c =>
      have serial := run_bStoLong holds 8 (by omega)
      rw [pktHandleRelayData, CCtrlPeers.pktHandleRelayData, Reader.run_bind, serial]
      by_cases admits : field d 8 4 = c.serial
      · rw [if_neg (not_not.mpr admits), (relayData_nested holds c.sendToPeer).2]
        exact if_congr (and_iff_right admits).symm rfl rfl
      · rw [if_pos admits, if_neg (fun both => admits both.1), Reader.run_done]

theorem pktHandleRelayDataEx_run (long : 12 ≤ d.length) :
    (pktHandleRelayDataEx r d.length).run memory =
      if Admits r d ∧ Relays d then
        ((destHeads 15 (destSize d)).run memory).flatMap fun dst =>
          (nested (sender r) d (startEx d) dst).run memory
      else [] := by
  have run (send : Send) : (relayDataEx send d.length).run memory =
      if Relays d then
        ((destHeads 15 (destSize d)).run memory).flatMap fun dst =>
          (nested send d (startEx d) dst).run memory
      else [] := by
    split
    · exact relayDataEx_run holds send ‹_›
    · exact (relayDataEx_refused holds send ‹_›).2
  cases r with
  | slave =>
      exact (run CRelaySlave.send).trans (if_congr (and_iff_right trivial).symm rfl rfl)
  | peers c =>
      have serial := run_bStoLong holds 8 (by omega)
      rw [pktHandleRelayDataEx, CCtrlPeers.pktHandleRelayDataEx, Reader.run_bind, serial]
      by_cases admits : field d 8 4 = c.serial
      · rw [if_neg (not_not.mpr admits), run c.sendToPeer]
        exact if_congr (and_iff_right admits).symm rfl rfl
      · rw [if_pos admits, if_neg (fun both => admits both.1), Reader.run_done]

end

theorem length_destHeads (memory : Nat → UInt8) (position count : Nat) :
    ((destHeads position count).run memory).length = count := by
  induction count generalizing position with
  | zero => rfl
  | succ count ih =>
      rw [destHeads, Reader.run_bind, Reader.run_bind, Reader.run_done, List.length_cons, ih]

/-- The ways a relay treats a datagram: not at all, or one nested packet to each of at most 255
destinations, or nothing because the packet is too long. -/
inductive Forwards (r : Relay) (d : List UInt8) : List Datagram → Prop where
  | nothing (refused : ¬ Escapes r d) : Forwards r d []
  | sent (ps : List Datagram) (some : ps ≠ []) (few : ps.length ≤ 255)
      (relays : RelayType d) (fresh : d.getD 12 0 ≠ puPktHeadTypeRelayData)
      (types : ∀ p ∈ ps, packetType p.data = d.getD 12 0)
      (escapes : d.getD 12 0 = puPktHeadTypeRelayDataEx → Escapes r d) : Forwards r d ps

theorem relays_of_escapes {r : Relay} {d : List UInt8} (escapes : Escapes r d) : Relays d :=
  ⟨escapes.2.1, by rw [escapes.2.2.2.1]; decide⟩

theorem nested_all (r : Relay) (memory : Nat → UInt8) (d : List UInt8) (position : Nat)
    (dests : List SockAddr) (fits : 12 + field d 2 2 < limit r) :
    (dests.flatMap fun dst => (nested (sender r) d position dst).run memory).length =
        dests.length ∧
      ∀ p ∈ dests.flatMap fun dst => (nested (sender r) d position dst).run memory,
        packetType p.data = d.getD 12 0 := by
  induction dests with
  | nil => exact ⟨rfl, nofun⟩
  | cons dst dests ih =>
      obtain ⟨long, -⟩ | ⟨-, p, run, type⟩ := nested_sent r memory d position dst
      · omega
      · rw [List.flatMap_cons, run, List.singleton_append, List.length_cons, List.length_cons,
          List.forall_mem_cons, ih.1]
        exact ⟨rfl, type, ih.2⟩

theorem forwards_nested (r : Relay) (memory : Nat → UInt8) (d : List UInt8) (position : Nat)
    (dests : List SockAddr) (relays : Relays d) (kind : RelayType d) (few : dests.length ≤ 255)
    (escapes : Escapes r d ↔ dests ≠ [] ∧ d.getD 12 0 = puPktHeadTypeRelayDataEx ∧
      12 + field d 2 2 < limit r) :
    Forwards r d (dests.flatMap fun dst => (nested (sender r) d position dst).run memory) := by
  by_cases fits : 12 + field d 2 2 < limit r
  swap
  · have nothing : (dests.flatMap fun dst => (nested (sender r) d position dst).run memory) = [] := by
      refine List.flatMap_eq_nil_iff.mpr fun dst _ => ?_
      obtain ⟨-, run⟩ | ⟨fits', -⟩ := nested_sent r memory d position dst
      · exact run
      · exact absurd fits' fits
    rw [nothing]
    exact .nothing fun escaped => fits (escapes.mp escaped).2.2
  obtain ⟨length, types⟩ := nested_all r memory d position dests fits
  by_cases none : dests = []
  · rw [none]
    exact .nothing fun escaped => (escapes.mp escaped).1 none
  · refine .sent _ (fun nothing => none ?_) (length ▸ few) kind relays.2 types
      fun type => escapes.mpr ⟨none, type, fits⟩
    rw [nothing] at length
    exact List.eq_nil_of_length_eq_zero length.symm

theorem forward_forwards (r : Relay) {memory : Nat → UInt8} {d : List UInt8}
    (holds : Holds memory d) : Forwards r d ((r.forward d.length).run memory) := by
  rw [forward, puPacketHeadLen]
  by_cases long : 12 ≤ d.length
  swap
  · rw [if_pos (by omega)]
    exact .nothing fun escapes => absurd escapes.2.1 (by omega)
  have type : memory 0 = packetType d := memory_eq holds 0 (by omega)
  have different : puPktHeadTypeRelayData ≠ puPktHeadTypeRelayDataEx := by decide
  rw [if_neg (by omega), Reader.run_read, type]
  by_cases data : packetType d = puPktHeadTypeRelayData
  · rw [if_pos data, pktHandleRelayData_run r holds long]
    split
    · obtain ⟨admits, relays⟩ := ‹Admits r d ∧ Relays d›
      rw [← List.flatMap_singleton (fun dst => (nested (sender r) d 20 dst).run memory)]
      refine forwards_nested r memory d 20 [destination d] relays (.inl data)
        (Nat.le_add_left 1 254) ?_
      simp [Escapes, data, relays.1, admits]
    · exact .nothing fun escapes => ‹¬ (_ ∧ _)› ⟨escapes.2.2.1, relays_of_escapes escapes⟩
  rw [if_neg data]
  by_cases ex : packetType d = puPktHeadTypeRelayDataEx ∧ r.relaysEx = true
  · rw [if_pos ex, pktHandleRelayDataEx_run r holds long]
    split
    · obtain ⟨admits, relays⟩ := ‹Admits r d ∧ Relays d›
      have size := length_destHeads memory 15 (destSize d)
      refine forwards_nested r memory d _ _ relays (.inr ex.1) ?_ ?_
      · have byte := (d.getD 14 0).toNat_lt
        rw [size, destSize]
        omega
      · rw [← List.length_pos_iff, size, Nat.pos_iff_ne_zero]
        simp [Escapes, ex, different.symm, relays.1, admits]
    · exact .nothing fun escapes => ‹¬ (_ ∧ _)› ⟨escapes.2.2.1, relays_of_escapes escapes⟩
  · rw [if_neg ex]
    refine .nothing fun escapes => ?_
    rcases escapes.1 with type' | ⟨type', relaysEx, -⟩
    · exact data type'
    · exact ex ⟨type', relaysEx⟩

/-- A relay sends on a packet of a relay type exactly for these datagrams. -/
theorem forward_relayType_iff (r : Relay) {memory : Nat → UInt8} {d : List UInt8}
    (holds : Holds memory d) :
    (∃ p ∈ (r.forward d.length).run memory, RelayType p.data) ↔ Escapes r d := by
  have forwards := forward_forwards r holds
  generalize (r.forward d.length).run memory = ps at forwards
  cases forwards with
  | nothing refused => exact iff_of_false nofun refused
  | sent _ some few relays fresh types escapes =>
      constructor
      · rintro ⟨p, member, data | ex⟩
        · exact absurd ((types p member).symm.trans data) fresh
        · exact escapes ((types p member).symm.trans ex)
      · intro escaped
        obtain ⟨p, member⟩ := List.exists_mem_of_ne_nil ps some
        exact ⟨p, member, .inr ((types p member).trans escaped.2.2.2.1)⟩

/-- `Do` of a relay server does with the relay types what the network has it do. -/
theorem doRound_forward {memory : Nat → UInt8} {d : List UInt8} (holds : Holds memory d)
    (stRemote : SockAddr) (long : 12 ≤ d.length) (relay : RelayType d) :
    (CRelaySlave.doRound stRemote d.length).run memory =
      some ((forward .slave d.length).run memory) := by
  obtain ⟨-, -, listed⟩ := CRelaySlave.doRound_dispatch holds stRemote long
  have type : memory 0 = packetType d := memory_eq holds 0 (by omega)
  rw [forward, puPacketHeadLen, if_neg (by omega), Reader.run_read, type]
  rcases relay with data | ex
  · have entry := CRelaySlave.pfFunc_inside puPktHeadTypeRelayData (by decide)
    rw [data] at listed ⊢
    exact (listed _ entry).2
  · have entry := CRelaySlave.pfFunc_inside puPktHeadTypeRelayDataEx (by decide)
    rw [ex] at listed ⊢
    exact (listed _ entry).2

end Relay

namespace Network
open Cgsf.P2P.Network

variable (relays : SockAddr → Option Relay)

/-- Relayed datagrams are of no relay type and passed one relay, and no datagram from outside led to
more than 255 of them. -/
def Unamplified (s : Network) : Prop :=
  (∀ m ∈ s.relayed, m.hops = 1 ∧ ¬ RelayType m.data) ∧
    ∀ origin, s.relayed.countP (·.origin = origin) ≤ 255

/-- No datagram that comes from outside makes its relay send on a packet of a relay type. -/
def Refused (s : Network) : NetworkEvent → Prop
  | .send _ | .lose _ => True
  | .relay i _ => ∀ m, s.inFlight[i]? = some m → m.hops = 0 →
      ∀ r, relays m.remote = some r → ¬ Relay.Escapes r m.data

/-- What is still to come of a datagram from outside counts 255. -/
def budget (s : Network) (origin : Nat) : Nat :=
  255 * s.inFlight.countP (fun m => m.origin = origin ∧ m.hops = 0) +
    s.relayed.countP (·.origin = origin)

structure Calm (s : Network) : Prop where
  origins : ∀ m ∈ s.inFlight ++ s.relayed, m.origin < s.origins
  inFlight : ∀ m ∈ s.inFlight, m.hops ≠ 0 → ¬ RelayType m.data
  relayed : ∀ m ∈ s.relayed, m.hops = 1 ∧ ¬ RelayType m.data
  budgets : ∀ origin, budget s origin ≤ 255

theorem calm_empty : Calm {} := ⟨nofun, nofun, nofun, fun _ => Nat.zero_le _⟩

theorem Calm.unamplified {s : Network} (calm : Calm s) : Unamplified s :=
  ⟨calm.relayed, fun origin => (Nat.le_add_left _ _).trans (calm.budgets origin)⟩

theorem countP_younger {ms : List Flight} {n : Nat} (old : ∀ m ∈ ms, m.origin < n)
    (q : Flight → Bool) (same : ∀ m, q m = true → m.origin = n) : ms.countP q = 0 :=
  List.countP_eq_zero.mpr fun m member counted => absurd (same m counted) (old m member).ne

theorem Calm.send {s : Network} (calm : Calm s) (p : Datagram) :
    Calm (step relays s (.send p)) := by
  refine ⟨fun m member => ?_, fun m member => ?_, calm.relayed, fun origin => ?_⟩
  · rcases List.mem_append.mp member with flying | relayed
    · rcases List.mem_append.mp flying with before | new
      · exact Nat.lt_succ_of_lt (calm.origins m (List.mem_append_left _ before))
      · obtain rfl := List.mem_singleton.mp new
        exact Nat.lt_succ_self _
    · exact Nat.lt_succ_of_lt (calm.origins m (List.mem_append_right _ relayed))
  · rcases List.mem_append.mp member with before | new
    · exact calm.inFlight m before
    · obtain rfl := List.mem_singleton.mp new
      exact absurd rfl
  · have before := calm.budgets origin
    rw [budget] at before ⊢
    change 255 * (s.inFlight ++ _).countP _ + s.relayed.countP _ ≤ 255
    rw [List.countP_append, List.countP_singleton]
    by_cases fresh : origin = s.origins
    · subst fresh
      rw [countP_younger (fun m member => calm.origins m (List.mem_append_left _ member)) _
          (fun m counted => (of_decide_eq_true counted).1),
        countP_younger (fun m member => calm.origins m (List.mem_append_right _ member)) _
          (fun m counted => of_decide_eq_true counted)]
      split <;> omega
    · rw [if_neg (by simpa using fun eq => absurd eq.symm fresh)]
      exact before

theorem Calm.lose {s : Network} (calm : Calm s) (i : Nat) :
    Calm (step relays s (.lose i)) := by
  have left : ∀ m ∈ s.inFlight.eraseIdx i, m ∈ s.inFlight := fun m => List.mem_of_mem_eraseIdx
  refine ⟨fun m member => ?_, fun m member => calm.inFlight m (left m member), calm.relayed,
    fun origin => ?_⟩
  · refine calm.origins m ?_
    rcases List.mem_append.mp member with flying | relayed
    · exact List.mem_append_left _ (left m flying)
    · exact List.mem_append_right _ relayed
  · have fewer := (List.eraseIdx_sublist s.inFlight i).countP_le
      (p := fun m => decide (m.origin = origin ∧ m.hops = 0))
    have before := calm.budgets origin
    rw [budget] at before ⊢
    change 255 * (s.inFlight.eraseIdx i).countP _ + s.relayed.countP _ ≤ 255
    omega

/-- What a relay sends on of a datagram that it refuses to amplify. -/
theorem relayedBy_spec {r : Relay} {m : Flight} (stale : Nat → UInt8)
    (refused : ¬ Relay.Escapes r m.data) :
    (relayedBy r m stale).length ≤ 255 ∧
      (¬ RelayType m.data → relayedBy r m stale = []) ∧
      ∀ sent ∈ relayedBy r m stale,
        sent.origin = m.origin ∧ sent.hops = m.hops + 1 ∧ ¬ RelayType sent.data := by
  have forwards : Relay.Forwards r m.data
      ((r.forward m.data.length).run (CRelaySlave.receive stale m.data)) :=
    Relay.forward_forwards r (holds_over stale m.data)
  rw [relayedBy]
  generalize (r.forward m.data.length).run (CRelaySlave.receive stale m.data) = ps at forwards
  cases forwards with
  | nothing => exact ⟨Nat.zero_le _, fun _ => rfl, nofun⟩
  | sent _ some few relays fresh types escapes =>
      refine ⟨by rwa [List.length_map], fun other => absurd relays other, fun sent member => ?_⟩
      obtain ⟨p, listed, rfl⟩ := List.mem_map.mp member
      refine ⟨rfl, rfl, ?_⟩
      rintro (data | ex)
      · exact fresh ((types p listed).symm.trans data)
      · exact refused (escapes ((types p listed).symm.trans ex))

theorem countP_eraseIdx_of {ms : List Flight} {i : Nat} {m : Flight} (at_i : ms[i]? = some m)
    (q : Flight → Bool) : ms.countP q = (ms.eraseIdx i).countP q + if q m then 1 else 0 := by
  obtain ⟨lt, rfl⟩ := List.getElem?_eq_some_iff.mp at_i
  conv_lhs => rw [← List.take_append_drop i ms, List.drop_eq_getElem_cons lt]
  rw [List.eraseIdx_eq_take_drop_succ, List.countP_append, List.countP_append, List.countP_cons]
  omega

theorem Calm.relay {s : Network} (calm : Calm s) (i : Nat) (stale : Nat → UInt8)
    (allowed : Refused relays s (.relay i stale)) : Calm (step relays s (.relay i stale)) := by
  rw [step]
  cases found : s.inFlight[i]? with
  | none => exact calm
  | some m =>
      dsimp only
      cases placed : relays m.remote with
      | none => exact calm
      | some r =>
          dsimp only
          have flying : m ∈ s.inFlight := List.mem_of_getElem? found
          have refused : ¬ Relay.Escapes r m.data := by
            by_cases external : m.hops = 0
            · exact allowed m found external r placed
            · intro escapes
              refine calm.inFlight m flying external ?_
              exact escapes.1.imp id And.left
          obtain ⟨few, other, sent⟩ := relayedBy_spec stale refused
          have external : relayedBy r m stale ≠ [] → m.hops = 0 := fun some =>
            not_not.mp fun hops => some (other (calm.inFlight m flying hops))
          have hops : ∀ p ∈ relayedBy r m stale, p.hops = 1 := fun p member => by
            rw [(sent p member).2.1, external (List.ne_nil_of_mem member)]
          generalize relayedBy r m stale = out at few other sent external hops ⊢
          refine ⟨fun p member => ?_, fun p member => ?_, fun p member => ?_, fun origin => ?_⟩
          · have known : p ∈ s.inFlight ++ s.relayed ∨ p ∈ out := by
              rw [List.mem_append, List.mem_append, List.mem_append] at member
              rw [List.mem_append]
              exact member.elim (.imp (.inl ∘ List.mem_of_mem_eraseIdx) id) (.imp .inr id)
            rcases known with before | new
            · exact calm.origins p before
            · exact (sent p new).1 ▸ calm.origins m (List.mem_append_left _ flying)
          · rcases List.mem_append.mp member with before | new
            · exact calm.inFlight p (List.mem_of_mem_eraseIdx before)
            · exact fun _ => (sent p new).2.2
          · rcases List.mem_append.mp member with before | new
            · exact calm.relayed p before
            · exact ⟨hops p new, (sent p new).2.2⟩
          · have before := calm.budgets origin
            have counted : out.countP (fun p => decide (p.origin = origin ∧ p.hops = 0)) = 0 :=
              List.countP_eq_zero.mpr fun p member zero =>
                absurd (of_decide_eq_true zero).2 (by rw [hops p member]; decide)
            rw [budget, countP_eraseIdx_of found] at before
            rw [budget, List.countP_append, List.countP_append, counted]
            by_cases same : m.origin = origin ∧ m.hops = 0
            · rw [if_pos (decide_eq_true same)] at before
              have most : out.countP (fun p => decide (p.origin = origin)) ≤ out.length :=
                List.countP_le_length
              omega
            · have unrelated : out.countP (fun p => decide (p.origin = origin)) = 0 := by
                refine List.countP_eq_zero.mpr fun p member equal => same ⟨?_, ?_⟩
                · exact (sent p member).1.symm.trans (of_decide_eq_true equal)
                · exact external (List.ne_nil_of_mem member)
              omega

/-- In every run in which each relay refuses what comes from outside with a nested packet of a relay
type, relayed datagrams are never relayed again. -/
theorem run_unamplified {history : List NetworkEvent} {s : Network}
    (run : Run (Guarded (Refused relays) fun s e s' => s' = step relays s e) {} history s) :
    Unamplified s := by
  refine (run.invariant calm_empty fun s e s' calm action => ?_).unamplified
  obtain ⟨allowed, rfl⟩ := action
  cases e with
  | send p => exact calm.send relays p
  | lose i => exact calm.lose relays i
  | relay i stale => exact calm.relay relays i stale allowed

/-- A relay datagram of type `outer` around a packet of type `inner`, with one destination. -/
def wrapped (outer inner : UInt8) : Datagram :=
  ⟨⟨1, 1⟩, [outer, 2, 0, 0] ++ List.replicate 8 0 ++ [inner, 2, 0, 0, 0, 1, 0, 1]⟩

def onlySlave (remote : SockAddr) : Option Relay :=
  if remote = ⟨1, 1⟩ then some .slave else none

theorem data_relayed_once :
    Unamplified (step onlySlave (step onlySlave {} (.send (wrapped 9 8))) (.relay 0 fun _ => 0)) := by
  have refused : Refused onlySlave (step onlySlave {} (.send (wrapped 9 8)))
      (.relay 0 fun _ => 0) := by
    rintro _ ⟨⟩ - _ ⟨⟩
    decide
  have sent : Refused onlySlave {} (.send (wrapped 9 8)) := trivial
  exact run_unamplified onlySlave (.next (.next .start ⟨sent, rfl⟩) ⟨refused, rfl⟩)

/-- A relay passes on a `RELAYDATA_EX` packet to itself. -/
theorem nested_relay_forwarded :
    ¬ ∀ (relays : SockAddr → Option Relay) (history : List NetworkEvent) (s : Network),
      Run (fun s e s' => s' = step relays s e) {} history s → Unamplified s := by
  intro all
  have unamplified := all onlySlave [.send (wrapped 9 15), .relay 0 fun _ => 0] _
    (.next (.next .start rfl) rfl)
  have relayed : ((step onlySlave (step onlySlave {} (.send (wrapped 9 15)))
      (.relay 0 fun _ => 0)).relayed.all fun m => ¬ RelayType m.data) = true :=
    List.all_eq_true.mpr fun m member => decide_eq_true (unamplified.1 m member).2
  exact absurd relayed (by decide)

end Network

end Cgsf.Proof.P2P
