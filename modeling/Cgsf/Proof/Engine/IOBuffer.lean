import Cgsf.Engine.IOBuffer

/-!
# The receive ring is a bounded queue

`contents` reads the ring as a list. Under `Valid`, `AppendData` adds at the end of that list or,
when the ring would fill up, changes nothing; `GetData` takes from its front; putting the head back
undoes a `GetData`.
-/

namespace Cgsf.Proof.Engine
open Cgsf.Engine Library

namespace SFIOBuffer
open Cgsf.Engine.SFIOBuffer

def cyclicDistance (b : SFIOBuffer) : Nat :=
  if b.iHead > b.iTail then b.iBufSize - b.iHead + b.iTail else b.iTail - b.iHead

structure Valid (b : SFIOBuffer) : Prop where
  size : b.pBuffer.length = b.iBufSize
  head : b.iHead < b.iBufSize
  tail : b.iTail < b.iBufSize
  used : b.iUsedBufferSize = cyclicDistance b

def contents (b : SFIOBuffer) : List UInt8 := window b.pBuffer b.iHead b.iUsedBufferSize

theorem calcUsedBufferSize_eq (b : SFIOBuffer) :
    b.calcUsedBufferSize = { b with iUsedBufferSize := cyclicDistance b } := rfl

theorem Valid.used_lt {b : SFIOBuffer} (valid : Valid b) : b.iUsedBufferSize < b.iBufSize := by
  have head := valid.head
  have tail := valid.tail
  rw [valid.used, cyclicDistance]
  split <;> omega

theorem Valid.tail_eq {b : SFIOBuffer} (valid : Valid b) :
    b.iTail = (b.iHead + b.iUsedBufferSize) % b.iBufSize := by
  have head := valid.head
  have tail := valid.tail
  have used := valid.used
  rw [cyclic_index _ _ _ head valid.used_lt]
  rw [cyclicDistance] at used
  split at used <;> split <;> omega

theorem Valid.length_contents {b : SFIOBuffer} (valid : Valid b) :
    (contents b).length = b.iUsedBufferSize :=
  window_length _ _ _ (by rw [valid.size]; exact valid.used_lt.le)

theorem Valid.length_take {b : SFIOBuffer} (valid : Valid b) {n : Nat}
    (le : n ≤ b.iUsedBufferSize) : ((contents b).take n).length = n := by
  rw [List.length_take, valid.length_contents, Nat.min_eq_left le]

theorem distance_of_tail (b : SFIOBuffer) (n : Nat) (head : b.iHead < b.iBufSize)
    (lt : n < b.iBufSize) (tail : b.iTail = (b.iHead + n) % b.iBufSize) :
    cyclicDistance b = n := by
  rw [cyclic_index _ _ _ head lt] at tail
  rw [cyclicDistance]
  split at tail <;> split <;> omega

theorem allocIOBuf_valid (b : SFIOBuffer) (iBufSize : Int) (le : iBufSize ≤ maxIOSize) :
    Valid (b.allocIOBuf iBufSize).1 ∧ contents (b.allocIOBuf iBufSize).1 = [] ∧
      (b.allocIOBuf iBufSize).1.iBufSize =
        if iBufSize ≤ 0 then maxIOSize else iBufSize.toNat := by
  have pos : ¬ (if iBufSize ≤ 0 then (maxIOSize : Int) else iBufSize) > maxIOSize := by
    split <;> omega
  have size : (if iBufSize ≤ 0 then (maxIOSize : Int) else iBufSize).toNat =
      if iBufSize ≤ 0 then maxIOSize else iBufSize.toNat := by
    split <;> rfl
  have positive : 0 < if iBufSize ≤ 0 then maxIOSize else iBufSize.toNat := by
    rw [maxIOSize]
    split <;> omega
  simp only [allocIOBuf, if_neg pos, initIOBuf, size]
  exact ⟨⟨by simp, positive, positive, rfl⟩, rfl, trivial⟩

/-- One turn of the copy loop: the bytes that fit before the end of the ring join the window. -/
theorem window_splice_tail (buf : List UInt8) (head used : Nat) (xs : List UInt8)
    (start : head < buf.length) (room : used + xs.length < buf.length)
    (fits : (head + used) % buf.length + xs.length ≤ buf.length) :
    window (splice buf ((head + used) % buf.length) xs) head (used + xs.length) =
      window buf head used ++ xs := by
  have size := splice_length buf _ xs fits
  rw [window_add _ _ _ _ (by omega), size, window_splice_self _ _ _ fits,
    window_splice_outside _ _ _ _ _ (by omega) fits]
  intro i lt
  rw [cyclic_index _ _ _ start (by omega : i < buf.length)]
  rw [cyclic_index _ _ _ start (by omega : used < buf.length)] at fits ⊢
  split <;> split <;> omega

def turn (b : SFIOBuffer) (data : List UInt8) : Nat :=
  if data.length > b.iBufSize - b.iTail then b.iBufSize - b.iTail else data.length

theorem turn_bound (b : SFIOBuffer) (data : List UInt8) (nonempty : data ≠ [])
    (inside : b.iTail < b.iBufSize) :
    turn b data ≤ data.length ∧ b.iTail + turn b data ≤ b.iBufSize ∧ 0 < turn b data := by
  have long := List.length_pos_iff.mpr nonempty
  rw [turn]
  split <;> omega

theorem appendLoop_turn (fuel : Nat) (b : SFIOBuffer) (data : List UInt8) (iAdded : Nat)
    (nonempty : data ≠ []) (size : b.pBuffer.length = b.iBufSize)
    (inside : b.iTail < b.iBufSize) :
    appendLoop (fuel + 1) b data iAdded =
      appendLoop fuel { b with
        pBuffer := splice b.pBuffer b.iTail (data.take (turn b data))
        iTail := (b.iTail + turn b data) % b.iBufSize }
        (data.drop (turn b data)) (iAdded + turn b data) := by
  obtain ⟨le, fits, positive⟩ := turn_bound b data nonempty inside
  have taken : (data.take (turn b data)).length = turn b data := by simp [le]
  have wrap : (if b.iTail + turn b data ≥ b.iBufSize then b.iTail + turn b data - b.iBufSize
      else b.iTail + turn b data) = (b.iTail + turn b data) % b.iBufSize :=
    wrap_once _ _ (by omega)
  obtain ⟨byte, rest, rfl⟩ := List.exists_cons_of_ne_nil nonempty
  have step : appendLoop (fuel + 1) b (byte :: rest) iAdded =
      if turn b (byte :: rest) = 0 then appendLoop fuel b (byte :: rest) iAdded
      else (write? b.pBuffer b.iTail ((byte :: rest).take (turn b (byte :: rest)))).bind
        fun pBuffer => appendLoop fuel { b with
          pBuffer
          iTail := if b.iTail + turn b (byte :: rest) ≥ b.iBufSize
            then b.iTail + turn b (byte :: rest) - b.iBufSize
            else b.iTail + turn b (byte :: rest) }
          ((byte :: rest).drop (turn b (byte :: rest)))
          (iAdded + turn b (byte :: rest)) := rfl
  rw [step, if_neg (by omega), write?, if_pos (by rw [taken, size]; exact fits),
    Option.bind_some, wrap]

theorem appendLoop_spec (fuel : Nat) (b : SFIOBuffer) (data : List UInt8) (iAdded used : Nat)
    (enough : data.length ≤ fuel) (size : b.pBuffer.length = b.iBufSize)
    (head : b.iHead < b.iBufSize) (room : used + data.length < b.iBufSize)
    (tail : b.iTail = (b.iHead + used) % b.iBufSize) :
    ∃ pBuffer, appendLoop fuel b data iAdded =
        some ({ b with
          pBuffer, iTail := (b.iHead + used + data.length) % b.iBufSize }, iAdded + data.length) ∧
      pBuffer.length = b.iBufSize ∧
      window pBuffer b.iHead (used + data.length) = window b.pBuffer b.iHead used ++ data := by
  induction fuel generalizing b data iAdded used with
  | zero =>
      obtain rfl : data = [] := List.length_eq_zero_iff.mp (by omega)
      exact ⟨b.pBuffer, by simp [appendLoop, ← tail], size, by simp⟩
  | succ fuel ih =>
      by_cases nil : data = []
      · subst nil
        exact ⟨b.pBuffer, by simp [appendLoop, ← tail], size, by simp⟩
      · have inside : b.iTail < b.iBufSize := tail ▸ Nat.mod_lt _ (by omega)
        obtain ⟨le, fits, positive⟩ := turn_bound b data nil inside
        rw [appendLoop_turn fuel b data iAdded nil size inside]
        generalize turn b data = k at le fits positive ⊢
        have taken : (data.take k).length = k := by simp [le]
        have left : (data.drop k).length = data.length - k := List.length_drop
        have copied : b.iTail + (data.take k).length ≤ b.pBuffer.length := by
          rw [taken, size]; exact fits
        have moved : (b.iTail + k) % b.iBufSize = (b.iHead + (used + k)) % b.iBufSize := by
          rw [tail, Nat.mod_add_mod, Nat.add_assoc]
        have joined : window (splice b.pBuffer b.iTail (data.take k)) b.iHead (used + k) =
            window b.pBuffer b.iHead used ++ data.take k := by
          have := window_splice_tail b.pBuffer b.iHead used (data.take k) (by omega)
            (by omega) (by rw [size, ← tail, ← size]; exact copied)
          rwa [taken, size, ← tail] at this
        obtain ⟨pBuffer, run, length, filled⟩ := ih
          { b with
            pBuffer := splice b.pBuffer b.iTail (data.take k)
            iTail := (b.iTail + k) % b.iBufSize }
          (data.drop k) (iAdded + k) (used + k) (by omega)
          ((splice_length _ _ _ copied).trans size) head (by dsimp only; omega) moved
        have total : used + k + (data.drop k).length = used + data.length := by omega
        refine ⟨pBuffer, ?_, length, ?_⟩
        · rw [run]
          simp only [Nat.add_assoc, left]
          congr 4 <;> omega
        · rw [total] at filled
          rw [filled]
          change window (splice b.pBuffer b.iTail (data.take k)) b.iHead (used + k) ++ _ = _
          rw [joined, List.append_assoc, List.take_append_drop]

theorem appendData_full (b : SFIOBuffer) (data : List UInt8)
    (full : b.iBufSize ≤ b.iUsedBufferSize + data.length) :
    b.appendData data = some (b, -1) := by
  simp [appendData, full]

theorem appendData_room {b : SFIOBuffer} (valid : Valid b) (data : List UInt8)
    (room : b.iUsedBufferSize + data.length < b.iBufSize) :
    ∃ b', b.appendData data = some (b', (data.length : Int)) ∧ Valid b' ∧
      contents b' = contents b ++ data ∧ b'.iBufSize = b.iBufSize := by
  obtain ⟨pBuffer, run, length, filled⟩ := appendLoop_spec data.length b data 0 b.iUsedBufferSize
    le_rfl valid.size valid.head room valid.tail_eq
  let b' : SFIOBuffer := { b with
    pBuffer, iTail := (b.iHead + b.iUsedBufferSize + data.length) % b.iBufSize }
  have distance : cyclicDistance b' = b.iUsedBufferSize + data.length :=
    distance_of_tail b' _ valid.head room (by simp only [b', Nat.add_assoc])
  refine ⟨b'.calcUsedBufferSize, ?_, ⟨length, valid.head, ?_, rfl⟩, ?_, rfl⟩
  · simp [appendData, Nat.not_le.mpr room, run, b']
  · exact Nat.mod_lt _ (by have := valid.head; omega)
  · change window pBuffer b.iHead (cyclicDistance b') = _
    rw [distance, filled, contents]

theorem appendData_valid {b : SFIOBuffer} (valid : Valid b) (data : List UInt8) :
    ∃ b' added, b.appendData data = some (b', added) ∧ Valid b' := by
  by_cases room : b.iUsedBufferSize + data.length < b.iBufSize
  · obtain ⟨b', run, valid', -⟩ := appendData_room valid data room
    exact ⟨b', _, run, valid'⟩
  · exact ⟨b, -1, appendData_full b data (by omega), valid⟩

theorem advance_spec {b : SFIOBuffer} (valid : Valid b) (n : Nat) (le : n ≤ b.iUsedBufferSize) :
    Valid (b.advance n) ∧ contents (b.advance n) = (contents b).drop n ∧
      (b.advance n).iBufSize = b.iBufSize ∧ (b.advance n).setHead b.iHead = b := by
  have lt := valid.used_lt
  have tail := valid.tail_eq
  have head := valid.head
  let iHead := if b.iHead + n ≥ b.iBufSize then b.iHead + n - b.iBufSize else b.iHead + n
  have moved : iHead = (b.iHead + n) % b.iBufSize := wrap_once _ _ (by omega)
  have inside : iHead < b.iBufSize := moved ▸ Nat.mod_lt _ (by omega)
  have distance : cyclicDistance { b with iHead } = b.iUsedBufferSize - n := by
    apply distance_of_tail _ _ inside (by dsimp only; omega)
    dsimp only
    rw [tail, moved, Nat.mod_add_mod]
    congr 1
    omega
  refine ⟨⟨valid.size, inside, valid.tail, rfl⟩, ?_, rfl, ?_⟩
  · change window b.pBuffer iHead (cyclicDistance { b with iHead }) = _
    have whole : n + (b.iUsedBufferSize - n) = b.iUsedBufferSize := by omega
    have := window_drop b.pBuffer b.iHead n (b.iUsedBufferSize - n) (by rw [valid.size]; omega)
    rw [whole, valid.size, ← moved] at this
    rw [distance, contents, this]
  · have used := valid.used
    cases b
    simp only [setHead, advance, calcUsedBufferSize, SFIOBuffer.mk.injEq, true_and]
    exact used.symm

theorem getData_spec {b : SFIOBuffer} (valid : Valid b) (n : Nat) (le : n ≤ b.iUsedBufferSize) :
    ∃ b', b.getData n = some (b', (contents b).take n) ∧ Valid b' ∧
      contents b' = (contents b).drop n ∧ b'.iBufSize = b.iBufSize ∧ b'.setHead b.iHead = b := by
  have lt := valid.used_lt
  have head := valid.head
  have size := valid.size
  have exactSize : (if b.iUsedBufferSize < n then b.iUsedBufferSize else n) = n :=
    if_neg (Nat.not_lt.mpr le)
  by_cases zero : n = 0
  · subst zero
    have back : b.setHead b.iHead = b := by
      have used := valid.used
      cases b
      simp only [setHead, calcUsedBufferSize, SFIOBuffer.mk.injEq, true_and]
      exact used.symm
    exact ⟨b, by simp [getData], valid, rfl, rfl, back⟩
  · refine ⟨b.advance n, ?_, advance_spec valid n le⟩
    have read : (contents b).take n = window b.pBuffer b.iHead n := window_take _ _ _ _ le
    rw [read]
    simp only [getData, exactSize, if_neg zero]
    split
    · rename_i wrap
      rw [window_of_wrap _ _ _ (by omega) (by omega) (by omega), read?, read?,
        if_pos (by omega), if_pos (by omega), size,
        List.take_of_length_le (by rw [List.length_drop]; omega), List.drop_zero]
      simp only [Option.bind_eq_bind, Option.bind_some, Option.pure_def]
      congr 4
      omega
    · rw [window_of_le _ _ _ (by omega), read?, if_pos (by omega)]
      rfl

theorem getData_min (b : SFIOBuffer) (n : Nat) : b.getData n = b.getData (min b.iUsedBufferSize n) := by
  have large : (if b.iUsedBufferSize < n then b.iUsedBufferSize else n) =
      min b.iUsedBufferSize n := by
    split <;> omega
  have small : (if b.iUsedBufferSize < min b.iUsedBufferSize n then b.iUsedBufferSize
      else min b.iUsedBufferSize n) = min b.iUsedBufferSize n := if_neg (by omega)
  simp only [getData, large, small]

theorem getData_valid {b : SFIOBuffer} (valid : Valid b) (n : Nat) :
    ∃ b' bs, b.getData n = some (b', bs) ∧ Valid b' := by
  obtain ⟨b', data, valid', -⟩ := getData_spec valid _ (Nat.min_le_left b.iUsedBufferSize n)
  exact ⟨b', _, (getData_min b n).trans data, valid'⟩

end SFIOBuffer

end Cgsf.Proof.Engine
