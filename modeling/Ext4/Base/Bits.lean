import Ext4.Base.Bytes

namespace Bytes

variable {n : Nat} {j i start count : Nat}

def withBit (x : UInt8) (k : Nat) (v : Bool) : UInt8 :=
  if v then ⟨x.toBitVec ||| BitVec.twoPow 8 k⟩ else ⟨x.toBitVec &&& ~~~BitVec.twoPow 8 k⟩

def bitAt (b : Buffer n) (i : Nat) : Bool := (byteAt b (i / 8)).toBitVec.getLsbD (i % 8)

def setBit (b : Buffer n) (i : Nat) (v : Bool) : Buffer n := fun k =>
  if k.val = i / 8 then withBit (b k) (i % 8) v else b k

def setBits (b : Buffer n) (start count : Nat) (v : Bool) : Buffer n :=
  (List.range' start count).foldl (fun b i => setBit b i v) b

theorem getLsbD_withBit (x : UInt8) {k : Nat} (v : Bool) (hk : k < 8) :
    (withBit x k v).toBitVec.getLsbD j = if j = k then v else x.toBitVec.getLsbD j := by
  unfold withBit
  cases v with
  | true =>
    by_cases hj : j = k
    · simp [hj, hk]
    · simp [hj, BitVec.getLsbD_twoPow, Ne.symm hj]
  | false =>
    by_cases hj : j = k
    · simp [hj, hk]
    · by_cases h8 : j < 8
      · simp [hj, h8]
      · simp [hj, not_lt.mp h8]

section

variable (b : Buffer n) (v : Bool)

include b v

theorem bitAt_setBit (hi : i < 8 * n) :
    bitAt (setBit b i v) j = if j = i then v else bitAt b j := by
  have hmod : i % 8 < 8 := Nat.mod_lt _ (by decide)
  unfold bitAt byteAt setBit
  by_cases hbyte : j / 8 = i / 8
  · have hlt : i / 8 < n := by omega
    have heq : j = i ↔ j % 8 = i % 8 := by omega
    simp only [hbyte, hlt, dite_true, if_true, getLsbD_withBit _ _ hmod, heq]
  · have hne : j ≠ i := fun h => hbyte (by rw [h])
    simp [hbyte, hne]

theorem bitAt_setBit_ne (h : j ≠ i) :
    bitAt (setBit b i v) j = bitAt b j := by
  by_cases hi : i < 8 * n
  · rw [bitAt_setBit b v hi, if_neg h]
  · have hsame : setBit b i v = b := by
      funext k
      have hk := k.isLt
      exact if_neg (by omega)
    rw [hsame]

theorem bitAt_setBits_not_mem
    (h : j < start ∨ start + count ≤ j) : bitAt (setBits b start count v) j = bitAt b j := by
  unfold setBits
  induction count generalizing start b with
  | zero => rfl
  | succ count ih =>
    rw [List.range'_succ, List.foldl_cons, ih _ (by omega), bitAt_setBit_ne b v (by omega)]

theorem bitAt_setBits_mem (hj : j < 8 * n) (hlo : start ≤ j)
    (hhi : j < start + count) : bitAt (setBits b start count v) j = v := by
  unfold setBits
  induction count generalizing start b with
  | zero => omega
  | succ count ih =>
    rw [List.range'_succ, List.foldl_cons]
    rcases eq_or_lt_of_le hlo with heq | hlt
    · subst heq
      have hrest : bitAt (setBits (setBit b start v) (start + 1) count v) start =
          bitAt (setBit b start v) start := bitAt_setBits_not_mem _ _ (.inl (Nat.lt_succ_self start))
      rw [setBits] at hrest
      rw [hrest, bitAt_setBit b v hj, if_pos rfl]
    · exact ih _ hlt (by omega)

end

theorem ext_bitAt {a b : Buffer n} (h : ∀ i < 8 * n, bitAt a i = bitAt b i) : a = b := by
  funext k
  apply UInt8.toBitVec_inj.mp
  apply BitVec.eq_of_getLsbD_eq
  intro i hi
  have hk := k.isLt
  have hbit := h (8 * k.val + i) (by omega)
  have hdiv : (8 * k.val + i) / 8 = k.val := by omega
  have hmod : (8 * k.val + i) % 8 = i := by omega
  simpa [bitAt, byteAt, hdiv, hmod] using hbit

theorem bitAt_of_ge {b : Buffer n} (h : 8 * n ≤ i) : bitAt b i = false := by
  have hbyte : ¬i / 8 < n := by omega
  simp [bitAt, byteAt, hbyte]

@[simp] theorem bitAt_zeros (i : Nat) : bitAt (zeros n) i = false := by
  unfold bitAt byteAt
  split <;> simp [zeros]

end Bytes
