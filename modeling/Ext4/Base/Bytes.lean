import Mathlib.Data.List.Basic
import Mathlib.Data.List.Induction
import Mathlib.Tactic.Ring
import Mathlib.Tactic.Common

namespace Bytes

variable {off i off' len k m w v w' : Nat} {src : List UInt8}

abbrev Buffer (n : Nat) := Fin n → UInt8

def zeros (n : Nat) : Buffer n := fun _ => 0

variable {n : Nat} {b : Buffer n}

def byteAt (b : Buffer n) (i : Nat) : UInt8 := if h : i < n then b ⟨i, h⟩ else 0

def slice (b : Buffer n) (off len : Nat) : List UInt8 :=
  (List.range len).map fun i => byteAt b (off + i)

def subslice (b : Buffer n) (lo hi : Nat) : Option (List UInt8) :=
  if lo ≤ hi ∧ hi ≤ n then some (slice b lo (hi - lo)) else none

def splice (b : Buffer n) (off : Nat) (src : List UInt8) : Buffer n := fun i =>
  if off ≤ i.val then (src[i.val - off]?).getD (b i) else b i

@[simp] theorem slice_length (b : Buffer n) (off len : Nat) : (slice b off len).length = len := by
  simp [slice]

theorem byteAt_splice_in {off i : Nat} {src : List UInt8} (hi : i < src.length) (hn : off + src.length ≤ n) :
    byteAt (splice b off src) (off + i) = src[i] := by
  have hlt : off + i < n := by omega
  simp [byteAt, splice, hlt, hi]

theorem byteAt_splice_out (h : i < off ∨ off + src.length ≤ i) : byteAt (splice b off src) i = byteAt b i := by
  unfold byteAt splice
  split
  · dsimp only
    split
    · rw [List.getElem?_eq_none (by omega)]
      rfl
    · rfl
  · rfl

theorem slice_splice_same (b : Buffer n) (off : Nat) (src : List UInt8)
    (hn : off + src.length ≤ n) : slice (splice b off src) off src.length = src := by
  apply List.ext_getElem (by simp)
  intro i _ hi
  simp only [slice, List.getElem_map, List.getElem_range]
  exact byteAt_splice_in hi hn

theorem slice_splice_disjoint (h : off + len ≤ off' ∨ off' + src.length ≤ off) :
    slice (splice b off' src) off len = slice b off len := by
  apply List.map_congr_left
  intro i hi
  have := List.mem_range.mp hi
  exact byteAt_splice_out (by omega)

theorem ext_byteAt {a b : Buffer n} (h : ∀ i < n, byteAt a i = byteAt b i) : a = b := by
  funext i
  simpa [byteAt, i.isLt] using h i i.isLt

theorem splice_splice_same {src' : List UInt8}
    (hlen : src.length = src'.length) : splice (splice b off src) off src' = splice b off src' := by
  funext i
  unfold splice
  split
  · by_cases hi : i.val - off < src'.length
    · simp [hi]
    · simp [hlen, not_lt.mp hi]
  · rfl

theorem splice_slice :
    splice b off (slice b off len) = b := by
  funext i
  unfold splice
  split
  · by_cases hi : i.val - off < len
    · have hs : (slice b off len)[i.val - off]? = some (byteAt b (off + (i.val - off))) := by
        simp [slice, hi]
      have he : off + (i.val - off) = i.val := by omega
      simp [hs, he, byteAt]
    · rw [List.getElem?_eq_none (by simp; omega)]
      rfl
  · rfl

def be : Nat → Nat → List UInt8
  | 0, _ => []
  | w + 1, v => be w (v / 256) ++ [UInt8.ofNat v]

def beVal (xs : List UInt8) : Nat := xs.foldl (fun a x => a * 256 + x.toNat) 0

def le : Nat → Nat → List UInt8
  | 0, _ => []
  | w + 1, v => UInt8.ofNat v :: le w (v / 256)

def leVal : List UInt8 → Nat
  | [] => 0
  | x :: xs => x.toNat + 256 * leVal xs

@[simp] theorem be_length (w v : Nat) : (be w v).length = w := by
  induction w generalizing v with
  | zero => rfl
  | succ w ih => simp [be, ih]

@[simp] theorem le_length (w v : Nat) : (le w v).length = w := by
  induction w generalizing v with
  | zero => rfl
  | succ w ih => simp [le, ih]

theorem mod_pow_succ (v w : Nat) :
    v / 256 % 256 ^ w * 256 + v % 256 = v % 256 ^ (w + 1) := by
  rw [pow_succ, mul_comm (256 ^ w) 256, Nat.mod_mul]
  omega

@[simp] theorem beVal_concat (xs : List UInt8) (x : UInt8) :
    beVal (xs ++ [x]) = beVal xs * 256 + x.toNat := by
  simp [beVal]

theorem beVal_be (w v : Nat) : beVal (be w v) = v % 256 ^ w := by
  induction w generalizing v with
  | zero => simp [be, beVal, Nat.mod_one]
  | succ w ih =>
    rw [be, beVal_concat, ih, ← mod_pow_succ]
    simp

theorem leVal_le (w v : Nat) : leVal (le w v) = v % 256 ^ w := by
  induction w generalizing v with
  | zero => simp [le, leVal, Nat.mod_one]
  | succ w ih =>
    rw [le, leVal, ih, ← mod_pow_succ]
    simp
    omega

theorem beVal_lt (xs : List UInt8) : beVal xs < 256 ^ xs.length := by
  induction xs using List.reverseRecOn with
  | nil => simp [beVal]
  | append_singleton xs x ih =>
    have hx := x.toNat_lt
    simp only [beVal_concat, List.length_append, List.length_singleton, pow_succ]
    omega

theorem leVal_lt (xs : List UInt8) : leVal xs < 256 ^ xs.length := by
  induction xs with
  | nil => simp [leVal]
  | cons x xs ih =>
    have hx := x.toNat_lt
    simp only [leVal, List.length_cons, pow_succ]
    omega

theorem le_leVal (xs : List UInt8) : le xs.length (leVal xs) = xs := by
  induction xs with
  | nil => rfl
  | cons x xs ih =>
    have hx := x.toNat_lt
    have hdiv : (x.toNat + 256 * leVal xs) / 256 = leVal xs := by omega
    have hbyte : UInt8.ofNat (x.toNat + 256 * leVal xs) = x := by
      apply UInt8.toNat_inj.mp
      simp only [UInt8.toNat_ofNat']
      omega
    rw [List.length_cons, le, leVal, hdiv, ih, hbyte]

theorem le_mod (w v : Nat) : le w (v % 256 ^ w) = le w v := by
  have h := le_leVal (le w v)
  rwa [le_length, leVal_le] at h

theorem slice_sub (b : Buffer n) (off : Nat) (h : k + m ≤ len) :
    slice b (off + k) m = ((slice b off len).drop k).take m := by
  apply List.ext_getElem
  · simp
    omega
  · intro i hi _
    simp only [slice_length] at hi
    simp [slice, add_assoc]

theorem slice_congr_sub {a b : Buffer n} (h : k + m ≤ len)
    (he : slice a off len = slice b off len) : slice a (off + k) m = slice b (off + k) m := by
  rw [slice_sub a off h, slice_sub b off h, he]

def getBE (b : Buffer n) (off w : Nat) : Nat := beVal (slice b off w)

def putBE (b : Buffer n) (off w v : Nat) : Buffer n := splice b off (be w v)

def getLE (b : Buffer n) (off w : Nat) : Nat := leVal (slice b off w)

def putLE (b : Buffer n) (off w v : Nat) : Buffer n := splice b off (le w v)

theorem getBE_lt (b : Buffer n) (off w : Nat) : getBE b off w < 256 ^ w := by
  simpa [getBE] using beVal_lt (slice b off w)

theorem getLE_lt (b : Buffer n) (off w : Nat) : getLE b off w < 256 ^ w := by
  simpa [getLE] using leVal_lt (slice b off w)

theorem getBE_putBE_same (hn : off + w ≤ n) :
    getBE (putBE b off w v) off w = v % 256 ^ w := by
  have h := slice_splice_same b off (be w v) (by simpa using hn)
  rw [be_length] at h
  rw [getBE, putBE, h, beVal_be]

theorem getBE_congr_sub {a b : Buffer n} (h : k + m ≤ len)
    (he : slice a off len = slice b off len) : getBE a (off + k) m = getBE b (off + k) m := by
  rw [getBE, slice_congr_sub h he, getBE]

theorem getBE_splice_disjoint (h : off + w ≤ off' ∨ off' + src.length ≤ off) :
    getBE (splice b off' src) off w = getBE b off w := by
  rw [getBE, slice_splice_disjoint h, getBE]

theorem getBE_putBE_disjoint (h : off + w ≤ off' ∨ off' + w' ≤ off) :
    getBE (putBE b off' w' v) off w = getBE b off w :=
  getBE_splice_disjoint (by simpa using h)

theorem slice_putBE_disjoint (h : off + len ≤ off' ∨ off' + w' ≤ off) :
    slice (putBE b off' w' v) off len = slice b off len :=
  slice_splice_disjoint (by simpa using h)

theorem getLE_putLE_same (hn : off + w ≤ n) :
    getLE (putLE b off w v) off w = v % 256 ^ w := by
  have h := slice_splice_same b off (le w v) (by simpa using hn)
  rw [le_length] at h
  rw [getLE, putLE, h, leVal_le]

theorem getLE_putLE_disjoint (h : off + w ≤ off' ∨ off' + w' ≤ off) :
    getLE (putLE b off' w' v) off w = getLE b off w := by
  rw [getLE, putLE, slice_splice_disjoint (by simpa using h), getLE]

theorem byteAt_putLE_out (h : i < off ∨ off + w ≤ i) :
    byteAt (putLE b off w v) i = byteAt b i :=
  byteAt_splice_out (by rw [le_length]; exact h)

theorem slice_putLE_disjoint (h : off + len ≤ off' ∨ off' + w ≤ off) :
    slice (putLE b off' w v) off len = slice b off len :=
  slice_splice_disjoint (by rw [le_length]; exact h)

theorem putLE_getLE (h : getLE b off w = v) : putLE b off w v = b := by
  have hbytes : le w v = slice b off w := by
    rw [← h, getLE]
    have hback := le_leVal (slice b off w)
    rwa [slice_length] at hback
  rw [putLE, hbytes, splice_slice]

end Bytes
