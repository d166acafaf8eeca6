import Mathlib.Algebra.Group.Nat.Defs
import Mathlib.Data.List.Basic
import Mathlib.Logic.Function.Iterate

namespace Ext4

def crc32cPoly : UInt32 := 0x82F63B78

def crc32cBit (crc : UInt32) : UInt32 :=
  if crc &&& 1 ≠ 0 then (crc >>> 1) ^^^ crc32cPoly else crc >>> 1

def crc32cEntry (i : Nat) : UInt32 := crc32cBit^[8] (UInt32.ofNat i)

def crc32cTable : Array UInt32 := (Array.range 256).map crc32cEntry

def crc32c (seed : UInt32) (data : List UInt8) : UInt32 :=
  data.foldl (fun crc byte =>
    (crc >>> 8) ^^^ crc32cTable.getD ((crc ^^^ byte.toUInt32) &&& 0xFF).toNat 0) seed

def crc32cShift (crc : UInt32) (bit : Bool) : UInt32 :=
  if (crc.toNat.testBit 0 ^^ bit) = true then (crc >>> 1) ^^^ crc32cPoly else crc >>> 1

def messageBits (data : List UInt8) : List Bool :=
  data.flatMap fun byte => (List.range 8).map byte.toNat.testBit

def crc32cSerial (seed : UInt32) (data : List UInt8) : UInt32 := (messageBits data).foldl crc32cShift seed

theorem crc32cBit_eq (crc : UInt32) :
    crc32cBit crc = (crc >>> 1) ^^^ if crc.toNat.testBit 0 then crc32cPoly else 0 := by
  have hbit : crc &&& 1 ≠ 0 ↔ crc.toNat.testBit 0 = true := by
    rw [Ne, ← UInt32.toNat_inj, UInt32.toNat_and, Nat.testBit_zero, decide_eq_true_eq]
    change ¬crc.toNat &&& 1 = 0 ↔ _
    rw [Nat.and_one_is_mod]
    omega
  unfold crc32cBit
  rw [if_congr hbit rfl rfl]
  split
  · rfl
  · rw [UInt32.xor_zero]

theorem crc32cBit_xor (a b : UInt32) : crc32cBit (a ^^^ b) = crc32cBit a ^^^ crc32cBit b := by
  have hbit : (a ^^^ b).toNat.testBit 0 = (a.toNat.testBit 0 ^^ b.toNat.testBit 0) := by
    rw [UInt32.toNat_xor, Nat.testBit_xor]
  have hswap : ∀ p q r s : UInt32, (p ^^^ q) ^^^ (r ^^^ s) = (p ^^^ r) ^^^ (q ^^^ s) := fun p q r s => by ac_rfl
  rw [crc32cBit_eq, crc32cBit_eq, crc32cBit_eq, hswap, UInt32.shiftRight_xor, hbit]
  congr 1
  cases a.toNat.testBit 0 <;> cases b.toNat.testBit 0 <;> decide

theorem crc32cBit_iterate_xor (n : Nat) (a b : UInt32) :
    crc32cBit^[n] (a ^^^ b) = crc32cBit^[n] a ^^^ crc32cBit^[n] b := by
  induction n generalizing a b with
  | zero => rfl
  | succ n ih =>
    simp only [Function.iterate_succ_apply]
    rw [crc32cBit_xor, ih]

theorem crc32cBit_even {crc : UInt32} (h : crc.toNat % 2 = 0) : (crc32cBit crc).toNat = crc.toNat / 2 := by
  have hbit : crc.toNat.testBit 0 = false := by
    rw [Nat.testBit_zero, h]
    rfl
  rw [crc32cBit_eq, hbit]
  simp [Nat.shiftRight_eq_div_pow]

theorem crc32cBit_iterate_low {n : Nat} {crc : UInt32} (h : 2 ^ n ∣ crc.toNat) :
    (crc32cBit^[n] crc).toNat = crc.toNat / 2 ^ n := by
  induction n generalizing crc with
  | zero => simp
  | succ n ih =>
    obtain ⟨k, hk⟩ := h
    rw [Nat.pow_succ', mul_assoc] at hk
    have heven : (crc32cBit crc).toNat = crc.toNat / 2 := crc32cBit_even (by omega)
    rw [Function.iterate_succ_apply, ih, heven, Nat.div_div_eq_div_mul, Nat.pow_succ']
    rw [heven, hk, Nat.mul_div_cancel_left _ (by decide)]
    exact Nat.dvd_mul_right _ _

theorem toNat_high (x : UInt32) : ((x >>> 8) <<< 8).toNat = x.toNat / 2 ^ 8 * 2 ^ 8 := by
  have hlt := x.toNat_lt
  simp only [UInt32.toNat_shiftLeft, UInt32.toNat_shiftRight, UInt32.reduceToNat, Nat.reduceMod, Nat.shiftLeft_eq,
    Nat.shiftRight_eq_div_pow]
  exact Nat.mod_eq_of_lt (by omega)

theorem high_xor_low (x : UInt32) : ((x >>> 8) <<< 8) ^^^ (x &&& 0xFF) = x := by
  rw [← UInt32.toNat_inj, UInt32.toNat_xor, toNat_high, UInt32.toNat_and]
  change _ ^^^ x.toNat &&& 2 ^ 8 - 1 = _
  rw [Nat.and_two_pow_sub_one_eq_mod]
  refine Nat.eq_of_testBit_eq fun i => ?_
  rw [Nat.testBit_xor, ← Nat.shiftLeft_eq, Nat.testBit_shiftLeft, Nat.testBit_div_two_pow, Nat.testBit_mod_two_pow]
  by_cases hi : i < 8
  · simp [hi, Nat.not_le.mpr hi]
  · simp [hi, Nat.not_lt.mp hi]

theorem crc32cTable_get (x : UInt32) : crc32cTable.getD (x &&& 0xFF).toNat 0 = crc32cBit^[8] (x &&& 0xFF) := by
  have hlow : (x &&& 0xFF).toNat < 256 := by
    rw [UInt32.toNat_and]
    exact Nat.lt_of_le_of_lt Nat.and_le_right (by decide)
  have hsize : crc32cTable.size = 256 := by
    rw [crc32cTable, Array.size_map, Array.size_range]
  rw [Array.getD, dif_pos (by rw [hsize]; exact hlow)]
  simp only [crc32cTable, Array.getInternal_eq_getElem, Array.getElem_map, Array.getElem_range, crc32cEntry,
    UInt32.ofNat_toNat]

theorem crc32c_byte (crc : UInt32) (byte : UInt8) :
    (crc >>> 8) ^^^ crc32cTable.getD ((crc ^^^ byte.toUInt32) &&& 0xFF).toNat 0 =
      crc32cBit^[8] (crc ^^^ byte.toUInt32) := by
  have hshift : (crc ^^^ byte.toUInt32) >>> 8 = crc >>> 8 := by
    have hbyte : byte.toUInt32 >>> 8 = 0 := by
      rw [← UInt32.toNat_inj, UInt32.toNat_shiftRight, UInt8.toNat_toUInt32]
      exact (Nat.shiftRight_eq_div_pow _ _).trans (Nat.div_eq_of_lt byte.toNat_lt)
    rw [UInt32.shiftRight_xor, hbyte, UInt32.xor_zero]
  rw [← hshift]
  generalize crc ^^^ byte.toUInt32 = x
  have hhigh : crc32cBit^[8] ((x >>> 8) <<< 8) = x >>> 8 := by
    rw [← UInt32.toNat_inj, crc32cBit_iterate_low (by rw [toNat_high]; exact Nat.dvd_mul_left _ _), toNat_high,
      Nat.mul_div_cancel _ (by decide), UInt32.toNat_shiftRight]
    exact (Nat.shiftRight_eq_div_pow _ _).symm
  rw [crc32cTable_get]
  conv_rhs => rw [← high_xor_low x]
  rw [crc32cBit_iterate_xor, hhigh]

theorem crc32cShift_eq (crc : UInt32) {v : Nat} (hv : v < 2 ^ 32) :
    crc32cShift crc (v.testBit 0) ^^^ UInt32.ofNat (v / 2) = crc32cBit (crc ^^^ UInt32.ofNat v) := by
  have hshift : UInt32.ofNat v >>> 1 = UInt32.ofNat (v / 2) := by
    rw [← UInt32.toNat_inj, UInt32.toNat_shiftRight, UInt32.toNat_ofNat_of_lt' hv,
      UInt32.toNat_ofNat_of_lt' (Nat.lt_of_le_of_lt (Nat.div_le_self v 2) hv)]
    exact Nat.shiftRight_eq_div_pow _ _
  have hbit : (crc ^^^ UInt32.ofNat v).toNat.testBit 0 = (crc.toNat.testBit 0 ^^ v.testBit 0) := by
    rw [UInt32.toNat_xor, Nat.testBit_xor, UInt32.toNat_ofNat_of_lt' hv]
  rw [crc32cBit_eq, hbit, UInt32.shiftRight_xor, hshift, crc32cShift]
  split
  · ac_rfl
  · rw [UInt32.xor_zero]

theorem crc32cShift_bits (n : Nat) {v : Nat} (hv : v < 2 ^ n) (hn : n ≤ 32) (crc : UInt32) :
    ((List.range n).map v.testBit).foldl crc32cShift crc = crc32cBit^[n] (crc ^^^ UInt32.ofNat v) := by
  induction n generalizing v crc with
  | zero =>
    obtain rfl : v = 0 := by omega
    simp
  | succ n ih =>
    have hle : 2 ^ (n + 1) ≤ 2 ^ 32 := Nat.pow_le_pow_right (by decide) hn
    have htail : (List.range n).map (fun i => v.testBit (i + 1)) = (List.range n).map (v / 2).testBit :=
      List.map_congr_left fun i _ => Nat.testBit_succ v i
    rw [List.range_succ_eq_map, List.map_cons, List.map_map, List.foldl_cons, Function.iterate_succ_apply,
      ← crc32cShift_eq crc (Nat.lt_of_lt_of_le hv hle), ← ih (by rw [Nat.pow_succ] at hv; omega) (by omega)]
    exact congrArg (List.foldl crc32cShift _) htail

theorem crc32c_is_bit_serial (seed : UInt32) (a b : List UInt8) :
    crc32c seed a = crc32cSerial seed a ∧ crc32c seed (a ++ b) = crc32c (crc32c seed a) b := by
  refine ⟨?_, List.foldl_append⟩
  induction a generalizing seed with
  | nil => rfl
  | cons byte rest ih =>
    have hcast : UInt32.ofNat byte.toNat = byte.toUInt32 := by
      rw [← UInt32.toNat_inj, UInt8.toNat_toUInt32]
      exact UInt32.toNat_ofNat_of_lt' (Nat.lt_trans byte.toNat_lt (by decide))
    have hbyte : ((List.range 8).map byte.toNat.testBit).foldl crc32cShift seed =
        (seed >>> 8) ^^^ crc32cTable.getD ((seed ^^^ byte.toUInt32) &&& 0xFF).toNat 0 := by
      rw [crc32c_byte, crc32cShift_bits 8 byte.toNat_lt (by decide), hcast]
    rw [crc32cSerial, messageBits, List.flatMap_cons, List.foldl_append, hbyte]
    exact ih _

end Ext4
