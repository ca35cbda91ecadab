import Cgsf.Proof.BaseLayer.Compression

/-!
# The length of the compressed bits
-/

namespace Cgsf.Proof.BaseLayer
open Cgsf.BaseLayer Library RunLength

variable {c c' : Packed} {p p' : List BYTE} {b : BYTE} {bSet : Bool}
  {nSrcLen nBit nByte nDesLen nRunLength w : Nat}

/-! ## The first byte stays -/

def Headed (p : List BYTE) : Prop := ∃ rest, p = 1 :: rest

theorem Headed.set (headed : Headed p) (behind : 0 < nByte) : Headed (p.set nByte b) := by
  obtain ⟨rest, rfl⟩ := headed
  obtain ⟨k, rfl⟩ := Nat.exists_eq_succ_of_ne_zero (Nat.ne_of_gt behind)
  exact ⟨_, List.set_cons_succ⟩

theorem Headed.take_append (headed : Headed p) (behind : 0 < nByte) (back : List BYTE) :
    Headed (p.take nByte ++ back) := by
  obtain ⟨rest, rfl⟩ := headed
  obtain ⟨k, rfl⟩ := Nat.exists_eq_succ_of_ne_zero (Nat.ne_of_gt behind)
  exact ⟨_, rfl⟩

theorem Headed.reAllocPtr (headed : Headed p) (nSrcLen : Nat) (positive : 0 < nSrcLen) :
    Headed (reAllocPtr p nSrcLen) :=
  headed.take_append positive _

theorem Headed.writeByte (headed : Headed p) (behind : 0 < nByte)
    (is : writeByte p nByte b = some p') : Headed p' := by
  obtain ⟨-, is⟩ := Option.ite_none_right_eq_some.mp is
  obtain rfl := Option.some.inj is
  exact headed.set behind

theorem Headed.writeWord (headed : Headed p) (behind : 0 < nByte)
    (is : writeWord p nByte w = some p') : Headed p' := by
  obtain ⟨-, is⟩ := Option.ite_none_right_eq_some.mp is
  obtain rfl := Option.some.inj is
  exact (headed.set behind).set (Nat.succ_pos _)

theorem Headed.memmove {src : Nat} {size : Int} (headed : Headed p) (behind : 0 < nByte)
    (is : memmove p nByte src size = some p') : Headed p' := by
  obtain ⟨-, is⟩ := Option.ite_none_right_eq_some.mp is
  obtain rfl := Option.some.inj is
  rw [List.append_assoc]
  exact headed.take_append behind _

theorem Headed.memset (headed : Headed p) (behind : 0 < nByte)
    (is : memset p nByte b w = some p') : Headed p' := by
  obtain ⟨-, is⟩ := Option.ite_none_right_eq_some.mp is
  obtain rfl := Option.some.inj is
  rw [List.append_assoc]
  exact headed.take_append behind _

theorem Headed.setBitAt (headed : Headed p) (behind : 0 < nByte)
    (is : setBitAt p nByte nBit = some p') : Headed p' := by
  obtain ⟨-, is⟩ := Option.ite_none_right_eq_some.mp is
  obtain rfl := Option.some.inj is
  exact headed.take_append behind _

theorem headed_insertByte {nAddedSize nRest : Nat} (headed : Headed p) (behind : 0 < nByte)
    (inside : 0 < nSrcLen)
    (is : Packed.insertByte p nSrcLen nBit nByte nAddedSize nRest = some (bSet, c')) :
    Headed c'.src := by
  obtain ⟨moved, move, is⟩ := Option.bind_eq_some_iff.mp is
  obtain ⟨wiped, wipe, is⟩ := Option.bind_eq_some_iff.mp is
  have room := headed.reAllocPtr (nSrcLen + nAddedSize) (by omega)
  have clear := (room.memmove (by omega) move).memset behind wipe
  dsimp only at is
  split at is
  · obtain ⟨counted, count, is⟩ := Option.bind_eq_some_iff.mp is
    obtain ⟨set, bit, is⟩ := Option.bind_eq_some_iff.mp is
    obtain ⟨-, rfl⟩ := Prod.mk.inj (Option.some.inj is)
    exact (clear.writeWord (by omega) count).setBitAt behind bit
  · rw [Option.bind_eq_bind, Option.bind_some] at is
    obtain ⟨set, bit, is⟩ := Option.bind_eq_some_iff.mp is
    obtain ⟨-, rfl⟩ := Prod.mk.inj (Option.some.inj is)
    exact clear.setBitAt behind bit

theorem headed_splitRun (headed : Headed c.src) (behind : 1 < nByte) (inside : 0 < c.nSrcLen)
    (is : c.splitRun nBit nByte nDesLen nRunLength = some (bSet, c')) : Headed c'.src := by
  rw [Packed.splitRun] at is
  split at is
  · have counted {w at' nAddedSize nRest : Nat} (behind' : 0 < at')
        (is : (writeWord c.src nByte w).bind (fun src =>
          Packed.insertByte src c.nSrcLen nBit at' nAddedSize nRest) = some (bSet, c')) :
        Headed c'.src := by
      obtain ⟨src, count, is⟩ := Option.bind_eq_some_iff.mp is
      exact headed_insertByte (headed.writeWord (by omega) count) behind' inside is
    split at is
    · exact counted (by omega) is
    · split at is
      · exact counted (by omega) is
      · exact counted (by omega) is
  · obtain ⟨moved, move, is⟩ := Option.bind_eq_some_iff.mp is
    obtain ⟨wiped, wipe, is⟩ := Option.bind_eq_some_iff.mp is
    obtain ⟨set, bit, is⟩ := Option.bind_eq_some_iff.mp is
    obtain ⟨-, rfl⟩ := Prod.mk.inj (Option.some.inj is)
    obtain ⟨⟨size, -⟩, -⟩ := Option.ite_none_right_eq_some.mp move
    exact ((headed.memmove (by omega) move).memset (by omega) wipe).setBitAt (by omega) bit

/-- A byte is taken out of the block. -/
theorem headed_close {moved wiped : List BYTE} (headed : Headed p) (behind : 0 < nByte)
    (move : memmove p nByte (nByte + 1) ((nSrcLen : Int) - nByte - 1) = some moved)
    (wipe : writeByte moved (nSrcLen - 1) 0 = some wiped) : Headed wiped := by
  obtain ⟨⟨size, -⟩, -⟩ := Option.ite_none_right_eq_some.mp move
  exact (headed.memmove behind move).writeByte (by omega) wipe

theorem headed_growPrevious (headed : Headed p) (behind : 2 < nByte)
    (is : Packed.growPrevious p nSrcLen nByte nRunLength = some (bSet, c')) : Headed c'.src := by
  obtain ⟨moved, move, is⟩ := Option.bind_eq_some_iff.mp is
  obtain ⟨wiped, wipe, is⟩ := Option.bind_eq_some_iff.mp is
  obtain ⟨src, count, is⟩ := Option.bind_eq_some_iff.mp is
  obtain ⟨-, rfl⟩ := Prod.mk.inj (Option.some.inj is)
  exact (headed_close headed (by omega) move wipe).writeWord (by omega) count

theorem headed_growNext (headed : Headed p) (behind : 0 < nByte)
    (is : Packed.growNext p nSrcLen nByte = some (bSet, c')) : Headed c'.src := by
  obtain ⟨moved, move, is⟩ := Option.bind_eq_some_iff.mp is
  obtain ⟨wiped, wipe, is⟩ := Option.bind_eq_some_iff.mp is
  obtain ⟨w, -, is⟩ := Option.bind_eq_some_iff.mp is
  obtain ⟨src, count, is⟩ := Option.bind_eq_some_iff.mp is
  obtain ⟨-, rfl⟩ := Prod.mk.inj (Option.some.inj is)
  exact (headed_close headed behind move wipe).writeWord (by omega) count

theorem headed_startRun (headed : Headed p) (behind : 0 < nByte)
    (is : Packed.startRun p nSrcLen nByte = some (bSet, c')) : Headed c'.src := by
  obtain ⟨moved, move, is⟩ := Option.bind_eq_some_iff.mp is
  obtain ⟨src, count, is⟩ := Option.bind_eq_some_iff.mp is
  obtain ⟨-, rfl⟩ := Prod.mk.inj (Option.some.inj is)
  have room := headed.reAllocPtr (nSrcLen + 2) (by omega)
  exact (room.memmove (by omega) move).writeWord (by omega) count

/-- The loop is behind the first byte, and behind a run when it comes from one. -/
structure Passed (nByte : Nat) (b : BYTE) : Prop where
  first : 0 < nByte
  run : b = 0xff → 3 < nByte

theorem headed_fillByte (headed : Headed p) (passed : Passed nByte b)
    (is : Packed.fillByte p nSrcLen nByte nRunLength b = some (bSet, c')) : Headed c'.src := by
  rw [Packed.fillByte] at is
  split at is
  · rename_i previous
    exact headed_growPrevious headed (Nat.lt_of_succ_lt (passed.run previous.2)) is
  · obtain ⟨grows, -, is⟩ := Option.bind_eq_some_iff.mp is
    split at is
    · exact headed_growNext headed passed.first is
    · exact headed_startRun headed passed.first is

theorem headed_setLiteral (headed : Headed c.src) (passed : Passed nByte b)
    (is : c.setLiteral nBit nByte nRunLength b = some (bSet, c')) : Headed c'.src := by
  obtain ⟨byte, -, is⟩ := Option.bind_eq_some_iff.mp is
  split at is
  · obtain ⟨-, rfl⟩ := Prod.mk.inj (Option.some.inj is)
    exact headed
  · obtain ⟨set, bit, is⟩ := Option.bind_eq_some_iff.mp is
    obtain ⟨full, -, is⟩ := Option.bind_eq_some_iff.mp is
    have kept := headed.setBitAt passed.first bit
    split at is
    · exact headed_fillByte kept passed is
    · obtain ⟨-, rfl⟩ := Prod.mk.inj (Option.some.inj is)
      exact kept

theorem headed_writeRuns {nRun nLength : Nat} (headed : Headed p) (behind : nRun * 3 < nSrcLen)
    (is : Packed.writeRuns nSrcLen nRun nLength p = some p') : Headed p' := by
  induction nRun generalizing p nLength with
  | zero => exact Option.some.inj is ▸ headed
  | succ nRun ih =>
      obtain ⟨src, count, is⟩ := Option.bind_eq_some_iff.mp is
      exact ih (headed.writeWord (by omega) count) (by omega) is

theorem headed_appendAt (headed : c.nSrcLen = 0 ∨ Headed c.src)
    (is : c.appendAt nBit nDesLen = some (bSet, c')) : Headed c'.src := by
  rw [Packed.appendAt] at is
  generalize (nBit / 8 - nDesLen) / COMPRESS_COUNT +
    (if (nBit / 8 - nDesLen) % COMPRESS_COUNT ≠ 0 then 1 else 0) = nRun at is
  obtain ⟨src, nSrcLen, block, front, size⟩ : ∃ src nSrcLen,
      (if c.nSrcLen = 0 then
        ((allocPtr ((if nRun > 0 then c.nSrcLen + (nRun * 3 + 1) else c.nSrcLen + 1) + 1)).set 0 1,
          (if nRun > 0 then c.nSrcLen + (nRun * 3 + 1) else c.nSrcLen + 1) + 1)
        else (reAllocPtr c.src (if nRun > 0 then c.nSrcLen + (nRun * 3 + 1) else c.nSrcLen + 1),
          if nRun > 0 then c.nSrcLen + (nRun * 3 + 1) else c.nSrcLen + 1)) = (src, nSrcLen) ∧
        Headed src ∧ nRun * 3 + 1 < nSrcLen := by
    have total : (if nRun > 0 then c.nSrcLen + (nRun * 3 + 1) else c.nSrcLen + 1) =
        c.nSrcLen + nRun * 3 + 1 := by
      split <;> omega
    rw [total]
    split
    · exact ⟨_, _, rfl, ⟨_, List.set_cons_zero⟩, by omega⟩
    · rename_i full
      exact ⟨_, _, rfl, (headed.resolve_left full).reAllocPtr _ (Nat.succ_pos _), by omega⟩
  rw [block] at is
  obtain ⟨counted, count, is⟩ := Option.bind_eq_some_iff.mp is
  obtain ⟨set, bit, is⟩ := Option.bind_eq_some_iff.mp is
  obtain ⟨-, rfl⟩ := Prod.mk.inj (Option.some.inj is)
  exact (headed_writeRuns front (by omega) count).setBitAt (by omega) bit

theorem headed_setAtLoop {fuel : Nat} (headed : Headed c.src) (passed : Passed nByte b)
    (is : c.setAtLoop nBit fuel nByte nDesLen nRunLength b = some (bSet, c')) : Headed c'.src := by
  induction fuel generalizing nByte nDesLen nRunLength b with
  | zero => cases is
  | succ fuel ih =>
      rw [Packed.setAtLoop] at is
      split at is
      · obtain ⟨byte, -, is⟩ := Option.bind_eq_some_iff.mp is
        have behind := passed.first
        split at is
        · obtain ⟨count, -, is⟩ := Option.bind_eq_some_iff.mp is
          split at is
          · split at is
            · obtain ⟨-, rfl⟩ := Prod.mk.inj (Option.some.inj is)
              exact headed
            · exact headed_splitRun headed (by omega) (by omega) is
          · exact ih ⟨by omega, fun _ => by omega⟩ is
        · split at is
          · exact headed_setLiteral headed passed is
          · exact ih ⟨by omega, fun full => absurd full (by decide)⟩ is
      · exact headed_appendAt (.inr headed) is

theorem headed_setAt (headed : c.nSrcLen = 0 ∨ Headed c.src)
    (is : c.setAt nBit = some (bSet, c')) : Headed c'.src := by
  rw [Packed.setAt] at is
  split at is
  · exact headed_setAtLoop (headed.resolve_left (by omega))
      ⟨Nat.one_pos, fun full => absurd full (by decide)⟩ is
  · exact headed_appendAt headed is

theorem headed_made (made : c.Made) : c.nSrcLen = 0 ∨ Headed c.src := by
  induction made with
  | @compressed src c is =>
      by_cases empty : SFBitArray.trimmed src src.length = 0
      · rw [compress, if_pos empty] at is
        exact .inl (Option.some.inj is ▸ rfl)
      · obtain ⟨written, unfit⟩ := compress_reads empty
        by_cases fits : Packed.CompressFits 1 (withoutTail src).length (tokens (withoutTail src))
        · obtain ⟨c', is', reads⟩ := written fits
          obtain rfl := Option.some.inj (is.symm.trans is')
          obtain ⟨back, bytes⟩ := reads.src
          exact .inr ⟨_, bytes⟩
        · rw [unfit fits] at is
          cases is
  | changed made int is headed => exact .inr (headed_setAt headed is)

/-! ## The two loops -/

/-- From the same byte on, both count the same. -/
theorem decompressLengthLoop_eq {fuel fuel' k d : Nat} {des x : List BYTE}
    (is : c.decompressLoop (-1) fuel nByte nDesLen des = some x)
    (counted : c.decompressLengthLoop fuel' nByte d = some k) : k + nDesLen = d + x.length := by
  induction fuel generalizing fuel' nByte nDesLen des d with
  | zero => cases is
  | succ fuel ih =>
      cases fuel' with
      | zero => cases counted
      | succ fuel' =>
          rw [Packed.decompressLoop] at is
          rw [Packed.decompressLengthLoop] at counted
          by_cases inside : nByte < c.nSrcLen
          · rw [if_pos ⟨inside, .inl rfl⟩] at is
            rw [if_pos inside] at counted
            obtain ⟨byte, read, is⟩ := Option.bind_eq_some_iff.mp is
            rw [read, Option.bind_eq_bind, Option.bind_some] at counted
            by_cases marks : byte = 0 ∨ byte = 0xff
            · rw [if_pos marks] at is counted
              obtain ⟨count, word, is⟩ := Option.bind_eq_some_iff.mp is
              obtain ⟨grown, -, is⟩ := Option.bind_eq_some_iff.mp is
              rw [word, Option.bind_eq_bind, Option.bind_some] at counted
              obtain ⟨sum, add, counted⟩ := Option.bind_eq_some_iff.mp counted
              obtain ⟨-, add⟩ := Option.ite_none_right_eq_some.mp add
              obtain rfl := Option.some.inj add
              have loop : ∃ des, c.decompressLoop (-1) fuel (nByte + 3) (nDesLen + count) des =
                  some x := by
                dsimp only at is
                split at is
                · obtain ⟨filled, -, is⟩ := Option.bind_eq_some_iff.mp is
                  exact ⟨filled, is⟩
                · exact ⟨grown, is⟩
              obtain ⟨des, is⟩ := loop
              have rest := ih is counted
              omega
            · rw [if_neg marks] at is counted
              obtain ⟨grown, -, is⟩ := Option.bind_eq_some_iff.mp is
              obtain ⟨written, -, is⟩ := Option.bind_eq_some_iff.mp is
              obtain ⟨sum, add, counted⟩ := Option.bind_eq_some_iff.mp counted
              obtain ⟨-, add⟩ := Option.ite_none_right_eq_some.mp add
              obtain rfl := Option.some.inj add
              have rest := ih is counted
              omega
          · rw [if_neg fun both => inside both.1] at is
            rw [if_neg inside] at counted
            obtain rfl := Option.some.inj is
            obtain rfl := Option.some.inj counted
            rw [reAllocPtr, List.length_append, List.length_take, List.length_replicate]
            omega

/-- `DecompressLength` counts the first byte as well. -/
theorem decompressLength_succ {k : Nat} {x : List BYTE} (full : c.nSrcLen ≠ 0)
    (headed : Headed c.src) (is : c.decompress = some x) (counted : c.decompressLength = some k) :
    k = x.length + 1 := by
  obtain ⟨rest, bytes⟩ := headed
  rw [Packed.decompress, if_neg full] at is
  rw [Packed.decompressLength, Packed.decompressLengthLoop, if_pos (Nat.pos_of_ne_zero full), bytes,
    List.getElem?_cons_zero, Option.bind_eq_bind, Option.bind_some, if_neg (by decide)] at counted
  have agree := decompressLengthLoop_eq is counted
  omega

/-- For the bytes that `Compress` and `SetAt` make, the length is right where there are none. -/
theorem lengthAgrees_iff (made : c.Made) : c.LengthAgrees ↔ c.nSrcLen = 0 := by
  constructor
  · rintro ⟨x, is, counted⟩
    by_contra full
    have more := decompressLength_succ full ((headed_made made).resolve_left full) is counted
    omega
  · intro empty
    rw [Packed.LengthAgrees, Packed.decompress, if_pos empty, Packed.decompressLength, empty,
      Packed.decompressLengthLoop, if_neg (by omega)]
    exact ⟨[], rfl, rfl⟩

theorem zeros_lengthAgree : compress [0, 0] = some {} ∧
    (Packed.LengthAgrees {} ↔ ({} : Packed).nSrcLen = 0) :=
  ⟨rfl, lengthAgrees_iff (@Packed.Made.compressed [0, 0] {} rfl)⟩

/-- A bit is set in the empty array; one byte comes of it, and two are counted. -/
theorem oneBit_counted_twice : Packed.setAt {} 0 = some (true, ⟨[1, 1], 2⟩) ∧
    Packed.Made ⟨[1, 1], 2⟩ ∧ Packed.decompress ⟨[1, 1], 2⟩ = some [1] ∧
      Packed.decompressLength ⟨[1, 1], 2⟩ = some 2 ∧ ¬Packed.LengthAgrees ⟨[1, 1], 2⟩ := by
  have is : Packed.setAt {} 0 = some (true, ⟨[1, 1], 2⟩) := by decide
  have decoded : Packed.decompress ⟨[1, 1], 2⟩ = some [1] :=
    @decompress_eq _ [.literal 1] ⟨by decide, .inr ⟨rfl, 0, rfl⟩⟩ (by decide)
  have counted : Packed.decompressLength ⟨[1, 1], 2⟩ = some 2 := by decide
  refine ⟨is, .changed (@Packed.Made.compressed [] {} rfl) (by decide) is, decoded, counted, ?_⟩
  rintro ⟨x, is', counted'⟩
  obtain rfl := Option.some.inj (decoded.symm.trans is')
  cases counted.symm.trans counted'

end Cgsf.Proof.BaseLayer
