import Cgsf.RPC.RPCService

/-! # Loading what was saved -/

namespace Cgsf.Proof.RPC.CPstream
open Cgsf.RPC Library Cgsf.RPC.CPstream

theorem copyData_append (front rest : Bytes) :
    copyData front.length (front ++ rest) = some (front, rest) := by
  rw [copyData, if_pos (by simp), List.take_left, List.drop_left]

theorem eq_of_copyData {count : Nat} {stream front rest : Bytes}
    (copied : copyData count stream = some (front, rest)) :
    front.length = count ∧ stream = front ++ rest := by
  rw [copyData] at copied
  split at copied
  next within =>
    obtain ⟨rfl, rfl⟩ := Prod.mk.inj (Option.some.inj copied)
    exact ⟨List.length_take_of_le within, (List.take_append_drop count stream).symm⟩
  next => cases copied

@[simp] theorem saveInt_length (i : Int32) : (saveInt i).length = 4 := leBytes_length ..

@[simp] theorem loadInt_saveInt (i : Int32) (rest : Bytes) :
    loadInt (saveInt i ++ rest) = some (i, rest) := by
  have copied : copyData 4 (saveInt i ++ rest) = some (saveInt i, rest) := by
    conv_lhs => rw [← saveInt_length i]
    exact copyData_append _ rest
  have small : i.toUInt32.toNat < 256 ^ 4 := i.toUInt32.toNat_lt
  have value : UInt32.ofNat (leValue (saveInt i)) = i.toUInt32 := by
    rw [saveInt, leValue_leBytes_of_lt 4 _ small, UInt32.ofNat_toNat]
  rw [loadInt, copied, Option.map_some]
  exact congrArg (fun word => some (UInt32.toInt32 word, rest)) value

theorem eq_of_loadInt {stream rest : Bytes} {i : Int32}
    (loaded : loadInt stream = some (i, rest)) : stream = saveInt i ++ rest := by
  obtain ⟨⟨bytes, rest'⟩, copied, loaded⟩ := Option.map_eq_some_iff.mp loaded
  obtain ⟨rfl, rfl⟩ := Prod.mk.inj loaded
  obtain ⟨length, rfl⟩ := eq_of_copyData copied
  have small : leValue bytes < 2 ^ 32 := by
    simpa [length] using leValue_lt bytes
  have value : (UInt32.ofNat (leValue bytes)).toNat = leValue bytes :=
    UInt32.toNat_ofNat_of_lt small
  rw [saveInt]
  change _ = leBytes 4 (UInt32.ofNat (leValue bytes)).toNat ++ rest'
  rw [value, leBytes_leValue_word bytes 4 length]

@[simp] theorem loadBool_saveBool (b : Bool) (rest : Bytes) :
    loadBool (saveBool b ++ rest) = some (b, rest) := by
  cases b <;> rfl

theorem saveString_eq {ch : Bytes} (small : ch.length < 2 ^ 31) :
    saveString ch = saveInt (Int32.ofNat ch.length) ++ ch := by
  have word : (Int32.ofNat ch.length).toUInt32.toNat = ch.length := by
    rw [Int32.toUInt32_ofNat']
    exact UInt32.toNat_ofNat_of_lt (small.trans (by decide))
  rw [saveString, saveInt, word]

theorem loadString_saveString (ch rest : Bytes) (small : ch.length < 2 ^ 31) :
    loadString (saveString ch ++ rest) = some (ch, rest) := by
  have toInt : (Int32.ofNat ch.length).toInt = ch.length := Int32.toInt_ofNat_of_lt small
  have nonneg : 0 ≤ Int32.ofNat ch.length := by
    rw [Int32.le_iff_toInt_le, toInt]
    exact Int.natCast_nonneg _
  rw [loadString, saveString_eq small, List.append_assoc, loadInt_saveInt, Option.bind_some]
  change (if _ then _ else _) = _
  rw [if_pos nonneg, toInt, Int.toNat_natCast, copyData_append]

theorem eq_of_loadString {stream ch rest : Bytes} (loaded : loadString stream = some (ch, rest)) :
    ch.length < 2 ^ 31 ∧ stream = saveString ch ++ rest := by
  obtain ⟨⟨size, rest'⟩, int, loaded⟩ := Option.bind_eq_some_iff.mp loaded
  obtain ⟨nonneg, copied⟩ := Option.ite_none_right_eq_some.mp loaded
  obtain ⟨length, rfl⟩ := eq_of_copyData copied
  have bound : size.toInt < 2 ^ 31 := size.toInt_lt
  have small : ch.length < 2 ^ 31 := by omega
  have same : Int32.ofNat ch.length = size := by
    have nonneg : (0 : Int) ≤ size.toInt := Int32.le_iff_toInt_le.mp nonneg
    refine Int32.toInt.inj ?_
    rw [Int32.toInt_ofNat_of_lt small]
    omega
  exact ⟨small, by rw [eq_of_loadInt int, saveString_eq small, same, List.append_assoc]⟩

end Cgsf.Proof.RPC.CPstream
