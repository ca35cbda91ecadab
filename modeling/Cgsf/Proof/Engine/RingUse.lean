import Cgsf.Engine.PacketIOBuffer
import Cgsf.Engine.RingUse
import Cgsf.Proof.Engine.IOBuffer

/-!
# A run of calls on the ring

What the ring holds is what was put in and not taken. A head that is put back finds the bytes behind
it untouched, because only `AppendData` writes.
-/

namespace Cgsf.Proof.Engine
open Cgsf.Engine Library

namespace SFIOBuffer
open Cgsf.Engine.SFIOBuffer

theorem setHead_setHead (b : SFIOBuffer) (head head' : Nat) :
    (b.setHead head).setHead head' = b.setHead head' := rfl

theorem Valid.setHead_self {b : SFIOBuffer} (valid : Valid b) : b.setHead b.iHead = b := by
  have used := valid.used
  cases b
  simp only [setHead, calcUsedBufferSize, SFIOBuffer.mk.injEq, true_and]
  exact used.symm

/-- `RemoveData` is `GetData` without the copy. -/
theorem removeData_spec {b : SFIOBuffer} (valid : Valid b) (n : Nat)
    (le : n ≤ b.iUsedBufferSize) :
    ∃ b', b.removeData n = (b', n) ∧ Valid b' ∧ contents b' = (contents b).drop n ∧
      b'.iBufSize = b.iBufSize ∧ b'.setHead b.iHead = b := by
  have exactSize : (if b.iUsedBufferSize < n then b.iUsedBufferSize else n) = n :=
    if_neg (Nat.not_lt.mpr le)
  by_cases zero : n = 0
  · subst zero
    exact ⟨b, by simp [removeData], valid, rfl, rfl, valid.setHead_self⟩
  · refine ⟨b.advance n, ?_, advance_spec valid n le⟩
    rw [removeData, exactSize, if_neg zero]

theorem removeData_min (b : SFIOBuffer) (n : Nat) :
    b.removeData n = b.removeData (min b.iUsedBufferSize n) := by
  have large : (if b.iUsedBufferSize < n then b.iUsedBufferSize else n) =
      min b.iUsedBufferSize n := by
    split <;> omega
  have small : (if b.iUsedBufferSize < min b.iUsedBufferSize n then b.iUsedBufferSize
      else min b.iUsedBufferSize n) = min b.iUsedBufferSize n := if_neg (by omega)
  simp only [removeData, large, small]

end SFIOBuffer

namespace RingUse
open Cgsf.Engine.RingUse SFIOBuffer

/-- The ring, read from some head, holds what is left after the first bytes that were put in. -/
structure Holds (ring : SFIOBuffer) (put : List UInt8) (taken : Nat) : Prop where
  valid : Valid ring
  within : taken ≤ put.length
  next : contents ring = put.drop taken

structure Kept (iBufSize : Nat) (use : RingUse) : Prop where
  size : use.ring.iBufSize = iBufSize
  now : Holds use.ring use.put use.taken
  marked : ∀ mark ∈ use.mark, Holds (use.ring.setHead mark.1) use.put mark.2

variable {iBufSize : Nat} {use : RingUse}

theorem Holds.used {ring : SFIOBuffer} {put : List UInt8} {taken : Nat}
    (holds : Holds ring put taken) : taken + ring.iUsedBufferSize = put.length := by
  have length := congrArg List.length holds.next
  rw [holds.valid.length_contents, List.length_drop] at length
  have within := holds.within
  omega

/-- Taking bytes moves the head, and what is behind it stays. -/
theorem Kept.take {ring : SFIOBuffer} (kept : Kept iBufSize use) (n : Nat)
    (le : n ≤ use.ring.iUsedBufferSize) (valid : Valid ring)
    (rest : contents ring = (contents use.ring).drop n)
    (size : ring.iBufSize = use.ring.iBufSize) (back : ring.setHead use.ring.iHead = use.ring) :
    Kept iBufSize { use with ring, taken := use.taken + n } where
  size := size.trans kept.size
  now := {
    valid
    within := by
      have used := kept.now.used
      dsimp only
      omega
    next := by rw [rest, kept.now.next, List.drop_drop] }
  marked mark member := by
    have same : ring.setHead mark.1 = use.ring.setHead mark.1 := by
      rw [← back, setHead_setHead]
    have before := kept.marked mark member
    rwa [← same] at before

theorem Kept.getData (kept : Kept iBufSize use) (iSize : Int) :
    ∃ ring, use.ring.getData iSize.toNat =
        some (ring, (use.put.drop use.taken).take iSize.toNat) ∧
      Kept iBufSize { use with
        ring, taken := use.taken + ((use.put.drop use.taken).take iSize.toNat).length } := by
  have le := Nat.min_le_left use.ring.iUsedBufferSize iSize.toNat
  obtain ⟨ring, run, valid, rest, size, back⟩ := getData_spec kept.now.valid _ le
  have length := kept.now.valid.length_contents
  have bytes : (contents use.ring).take (min use.ring.iUsedBufferSize iSize.toNat) =
      (use.put.drop use.taken).take iSize.toNat := by
    rw [← kept.now.next, ← length, Nat.min_comm, ← List.take_take, List.take_length]
  have count : ((use.put.drop use.taken).take iSize.toNat).length =
      min use.ring.iUsedBufferSize iSize.toNat := by
    rw [← bytes, kept.now.valid.length_take le]
  rw [count]
  exact ⟨ring, by rw [getData_min, run, bytes], kept.take _ le valid rest size back⟩

theorem Kept.removeData (kept : Kept iBufSize use) (iSize : Int) :
    Kept iBufSize { use with
      ring := (use.ring.removeData iSize.toNat).1
      taken := use.taken + (use.ring.removeData iSize.toNat).2 } := by
  have le := Nat.min_le_left use.ring.iUsedBufferSize iSize.toNat
  obtain ⟨ring, run, valid, rest, size, back⟩ := removeData_spec kept.now.valid _ le
  rw [removeData_min, run]
  exact kept.take _ le valid rest size back

theorem Kept.appendData {ring : SFIOBuffer} {data : List UInt8} {iAdded : Int}
    (kept : Kept iBufSize use) (run : use.ring.appendData data = some (ring, iAdded)) :
    Kept iBufSize { use with
      ring, put := if iAdded = -1 then use.put else use.put ++ data, mark := none } := by
  have none (mark : Nat × Nat) (member : mark ∈ (none : Option (Nat × Nat))) {P : Prop} : P :=
    absurd member (Option.not_mem_none mark)
  by_cases room : use.ring.iUsedBufferSize + data.length < use.ring.iBufSize
  · obtain ⟨after, added, valid, joined, size⟩ := appendData_room kept.now.valid data room
    obtain ⟨rfl, rfl⟩ := Prod.mk.inj (Option.some.inj (added.symm.trans run))
    have accepted : (data.length : Int) ≠ -1 := by omega
    refine ⟨size.trans kept.size, ⟨valid, ?_, ?_⟩, fun mark member => none mark member⟩
    · have within := kept.now.within
      simp only [if_neg accepted, List.length_append]
      omega
    · rw [joined, kept.now.next, if_neg accepted, List.drop_append_of_le_length kept.now.within]
  · rw [appendData_full _ _ (Nat.not_lt.mp room)] at run
    obtain ⟨rfl, rfl⟩ := Prod.mk.inj (Option.some.inj run)
    exact ⟨kept.size, kept.now, fun mark member => none mark member⟩

theorem Kept.step {after : RingUse} {c : RingUse.Call} (kept : Kept iBufSize use)
    (step : Proceeds use c after) : Kept iBufSize after := by
  cases c with
  | appendData data =>
      obtain ⟨-, -, rest⟩ := Option.bind_eq_some_iff.mp step
      obtain ⟨answer, run, done⟩ := Option.bind_eq_some_iff.mp rest
      obtain rfl := Option.some.inj done
      exact kept.appendData run
  | getHead =>
      obtain rfl := Option.some.inj step
      refine ⟨kept.size, kept.now, fun mark member => ?_⟩
      obtain rfl := Option.some.inj member
      rw [kept.now.valid.setHead_self]
      exact kept.now
  | getData iSize =>
      obtain ⟨ring, run, kept'⟩ := kept.getData iSize
      obtain ⟨answer, run', done⟩ := Option.bind_eq_some_iff.mp step
      obtain rfl := Option.some.inj (run.symm.trans run')
      obtain rfl := Option.some.inj done
      exact kept'
  | removeData iSize =>
      obtain rfl := Option.some.inj step
      exact kept.removeData iSize
  | setHead =>
      obtain ⟨mark, member, rfl⟩ := Option.map_eq_some_iff.mp step
      have back := kept.marked mark member
      exact ⟨kept.size, back, fun mark' member' => kept.marked mark' member'⟩

theorem start_kept (iBufSize : Int) (granted : (empty.allocIOBuf iBufSize).2 = true) :
    Kept (if iBufSize ≤ 0 then maxIOSize else iBufSize.toNat) (start iBufSize) := by
  have le : iBufSize ≤ maxIOSize := by
    by_contra large
    have pos : ¬iBufSize ≤ 0 := by omega
    rw [SFIOBuffer.allocIOBuf, if_neg pos, if_pos (Int.not_le.mp large)] at granted
    cases granted
  obtain ⟨valid, nil, size⟩ := allocIOBuf_valid empty iBufSize le
  exact ⟨size, ⟨valid, le_rfl, nil⟩, fun mark member =>
    absurd member (Option.not_mem_none mark)⟩

/-- A bounded queue: what it holds and what the next call on it does. -/
structure Fifo (iBufSize : Nat) (use : RingUse) : Prop where
  size : use.ring.iBufSize = iBufSize
  head : use.ring.iHead < iBufSize
  tail : use.ring.iTail < iBufSize
  used : use.ring.iUsedBufferSize = cyclicDistance use.ring
  room : use.ring.iUsedBufferSize < iBufSize
  /-- Every byte that was put in was taken or is still there. -/
  amount : use.taken + use.ring.iUsedBufferSize = use.put.length
  /-- The bytes that are taken are the next ones. -/
  inOrder : ∀ iSize : Int, ∃ after, use.ring.getData iSize.toNat =
    some (after, (use.put.drop use.taken).take iSize.toNat)
  /-- `AppendData` returns. -/
  appends : ∀ data, Adds use.ring data → ∃ after iAdded,
    use.ring.appendData data = some (after, iAdded) ∧
      (iAdded = -1 ↔ iBufSize ≤ use.ring.iUsedBufferSize + data.length) ∧
      (iAdded = -1 → after = use.ring) ∧ (iAdded ≠ -1 → iAdded = data.length)

theorem Kept.fifo (kept : Kept iBufSize use) : Fifo iBufSize use where
  size := kept.size
  head := kept.size ▸ kept.now.valid.head
  tail := kept.size ▸ kept.now.valid.tail
  used := kept.now.valid.used
  room := kept.size ▸ kept.now.valid.used_lt
  amount := kept.now.used
  inOrder iSize := by
    obtain ⟨ring, run, -⟩ := kept.getData iSize
    exact ⟨ring, run⟩
  appends data _ := by
    rw [← kept.size]
    by_cases room : use.ring.iUsedBufferSize + data.length < use.ring.iBufSize
    · obtain ⟨after, run, -⟩ := appendData_room kept.now.valid data room
      have accepted : (data.length : Int) ≠ -1 := by omega
      exact ⟨after, _, run, iff_of_false accepted (Nat.not_le.mpr room),
        fun failed => absurd failed accepted, fun _ => rfl⟩
    · have full := Nat.not_lt.mp room
      exact ⟨use.ring, -1, appendData_full _ _ full, iff_of_true rfl full, fun _ => rfl,
        fun accepted => absurd rfl accepted⟩

/-- The ring is a bounded queue after every run of its callers' calls. -/
theorem ring_fifo (iBufSize : Int) (granted : (empty.allocIOBuf iBufSize).2 = true)
    (history : List RingUse.Call) (use : RingUse)
    (run : Run Proceeds (start iBufSize) history use) :
    Fifo (if iBufSize ≤ 0 then maxIOSize else iBufSize.toNat) use :=
  (run.invariant (start_kept iBufSize granted) fun _ _ _ kept step => kept.step step).fifo

/-- Six bytes are put in and four are taken; the next four lie across the end of the buffer. A
caller reads three of them, puts the head back and reads them again. -/
def wrappedCalls : List RingUse.Call :=
  [.appendData [1, 2, 3, 4, 5, 6], .removeData 4, .appendData [7, 8, 9, 10], .getHead, .getData 3,
    .setHead, .getData 3, .appendData [11, 12, 13, 14, 15]]

theorem ring_fifo_wrapped :
    ∃ use, Run Proceeds (start 8) wrappedCalls use ∧ use.ring.iHead = 7 ∧ use.ring.iTail = 2 ∧
      use.put = [1, 2, 3, 4, 5, 6, 7, 8, 9, 10] ∧ use.taken = 7 ∧ Fifo 8 use := by
  have plays : wrappedCalls.foldlM call (start 8) =
      some ⟨⟨7, 2, 8, [9, 10, 3, 4, 5, 6, 7, 8], 3⟩, [1, 2, 3, 4, 5, 6, 7, 8, 9, 10], 7, none⟩ := by
    decide
  have run := Run.of_foldlM _ _ plays
  exact ⟨_, run, rfl, rfl, rfl, rfl, ring_fifo 8 (by decide) wrappedCalls _ run⟩

/-! ## Reading a frame takes no other calls -/

/-- Some calls lead there, and the head they started from can be put back. -/
def Reaches (use : RingUse) (ring : SFIOBuffer) (head : Nat) : Prop :=
  ∃ after history, Run Proceeds use history after ∧ after.ring = ring ∧
    after.mark.map Prod.fst = some head

variable {ring : SFIOBuffer} {head : Nat}

theorem Reaches.here (use : RingUse) : Reaches use use.ring use.ring.iHead :=
  ⟨{ use with mark := some (use.ring.iHead, use.taken) }, _, .next .start (e := .getHead) rfl,
    rfl, rfl⟩

theorem Reaches.getData {data : List UInt8} {n : Nat} {ring' : SFIOBuffer}
    (reaches : Reaches use ring head) (run : ring.getData n = some (ring', data)) :
    Reaches use ring' head := by
  obtain ⟨after, history, before, rfl, mark⟩ := reaches
  refine ⟨{ after with ring := ring', taken := after.taken + data.length }, _,
    .next before (e := .getData n) ?_, rfl, mark⟩
  rw [Proceeds, call, Int.toNat_natCast, run]
  rfl

theorem Reaches.setHead (reaches : Reaches use ring head) :
    Reaches use (ring.setHead head) head := by
  obtain ⟨after, history, before, rfl, mark⟩ := reaches
  obtain ⟨mark', member, rfl⟩ := Option.map_eq_some_iff.mp mark
  refine ⟨{ after with ring := after.ring.setHead mark'.1, taken := mark'.2 }, _,
    .next before (e := .setHead) ?_, rfl, mark⟩
  rw [Proceeds, call, member]
  rfl

theorem getHeader_reaches {header : SFPacketHeader} {answer : SFPacketIOBuffer.Answer}
    (taken : SFPacketIOBuffer.getHeader use.ring header = some answer) :
    Reaches use answer.ring use.ring.iHead := by
  rw [SFPacketIOBuffer.getHeader] at taken
  split at taken
  · obtain rfl := Option.some.inj taken
    exact .here use
  · obtain ⟨⟨ring, bs⟩, run, rest⟩ := Option.bind_eq_some_iff.mp taken
    have back := ((Reaches.here use).getData run).setHead
    dsimp only at rest
    split at rest
    · obtain rfl := Option.some.inj rest
      exact back
    · obtain rfl := Option.some.inj rest
      exact back

theorem getPacket_reaches {header : SFPacketHeader} {capacity : Nat} {packetSize : UInt16}
    {answer : SFPacketIOBuffer.Answer}
    (taken : SFPacketIOBuffer.getPacket use.ring header capacity packetSize = some answer) :
    Reaches use answer.ring use.ring.iHead := by
  rw [SFPacketIOBuffer.getPacket] at taken
  split at taken
  · obtain rfl := Option.some.inj taken
    exact .here use
  · obtain ⟨⟨ring, bs⟩, run, rest⟩ := Option.bind_eq_some_iff.mp taken
    have read := (Reaches.here use).getData run
    have headed : Reaches use (if bs.length ≠ headerSize then ring.setHead use.ring.iHead else ring)
        use.ring.iHead := by
      split
      · exact read.setHead
      · exact read
    dsimp only at rest
    generalize (if bs.length ≠ headerSize then ring.setHead use.ring.iHead else ring) = ring'
      at rest headed
    split at rest
    · obtain rfl := Option.some.inj rest
      exact headed.setHead
    · split at rest
      · obtain rfl := Option.some.inj rest
        exact headed.setHead
      · obtain ⟨⟨ring'', data⟩, run', rest⟩ := Option.bind_eq_some_iff.mp rest
        have both := headed.getData run'
        dsimp only at rest
        split at rest
        · cases rest
        · split at rest
          · obtain rfl := Option.some.inj rest
            exact both.setHead
          · obtain rfl := Option.some.inj rest
            exact both

end RingUse

end Cgsf.Proof.Engine
