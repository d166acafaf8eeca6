import Ext4.Base.Bytes

namespace Bytes

variable {n : Nat} {α : Type}

structure Cell (n : Nat) (α : Type) where
  width : Nat
  put : Buffer n → Nat → α → Buffer n
  get : Buffer n → Nat → α
  Fits : α → Prop
  get_put : ∀ b off a, Fits a → off + width ≤ n → get (put b off a) off = a
  slice_put : ∀ b off a o w, o + w ≤ off ∨ off + width ≤ o →
    slice (put b off a) o w = slice b o w
  get_congr : ∀ b b' off, slice b off width = slice b' off width → get b off = get b' off

namespace Cell

variable (c : Cell n α) {as : List α}

def writeAll (b : Buffer n) : Nat → List α → Buffer n
  | _, [] => b
  | off, a :: as => writeAll (c.put b off a) (off + c.width) as

def readAll (b : Buffer n) : Nat → Nat → List α
  | _, 0 => []
  | off, k + 1 => c.get b off :: readAll b (off + c.width) k

theorem slice_writeAll (b : Buffer n) {off o w : Nat} (h : o + w ≤ off ∨ off + c.width * as.length ≤ o) :
    slice (c.writeAll b off as) o w = slice b o w := by
  induction as generalizing b off with
  | nil => rfl
  | cons a as ih =>
    rw [List.length_cons, Nat.mul_succ] at h
    rw [writeAll, ih _ (by omega), c.slice_put _ _ _ _ _ (by omega)]

theorem readAll_congr {b b' : Buffer n} {off k : Nat}
    (h : ∀ i < k, slice b (off + c.width * i) c.width = slice b' (off + c.width * i) c.width) :
    c.readAll b off k = c.readAll b' off k := by
  induction k generalizing off with
  | zero => rfl
  | succ k ih =>
    have hhead := h 0 (Nat.zero_lt_succ k)
    rw [mul_zero, add_zero] at hhead
    rw [readAll, readAll, c.get_congr _ _ _ hhead, ih fun i hi => ?_]
    have htail := h (i + 1) (Nat.succ_lt_succ hi)
    rwa [Nat.mul_succ, add_comm (c.width * i), ← add_assoc] at htail

theorem readAll_writeAll (b : Buffer n) {off : Nat} (hfits : ∀ a ∈ as, c.Fits a)
    (hroom : off + c.width * as.length ≤ n) :
    c.readAll (c.writeAll b off as) off as.length = as := by
  induction as generalizing b off with
  | nil => rfl
  | cons a as ih =>
    rw [List.length_cons, Nat.mul_succ] at hroom
    have hrest := ih (c.put b off a) (fun x hx => hfits x (List.mem_cons_of_mem a hx))
      (show off + c.width + c.width * as.length ≤ n by omega)
    have hhead : c.get (c.writeAll (c.put b off a) (off + c.width) as) off = a := by
      rw [c.get_congr _ (c.put b off a) off (c.slice_writeAll _ (.inl le_rfl))]
      exact c.get_put b off a (hfits a List.mem_cons_self) (by omega)
    rw [List.length_cons, readAll, writeAll, hhead, hrest]

end Cell

end Bytes
