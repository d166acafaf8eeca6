import Mathlib.Data.Nat.Bitwise
import Mathlib.Tactic.Common

namespace Ext4

def nanosPerSec : Nat := 1000000000

structure Duration where
  secs : Nat
  nanos : Nat
  nanos_lt : nanos < nanosPerSec
  deriving DecidableEq

namespace Duration

@[ext] theorem ext {s t : Duration} (hs : s.secs = t.secs) (hn : s.nanos = t.nanos) : s = t := by
  cases s
  cases t
  subst hs hn
  rfl

def new (secs nanos : Nat) : Duration where
  secs := secs + nanos / nanosPerSec
  nanos := nanos % nanosPerSec
  nanos_lt := Nat.mod_lt nanos (by decide)

theorem new_of_lt {secs nanos : Nat} (h : nanos < nanosPerSec) : new secs nanos = ⟨secs, nanos, h⟩ := by
  ext
  · simp [new, Nat.div_eq_of_lt h]
  · exact Nat.mod_eq_of_lt h

def zero : Duration := ⟨0, 0, by decide⟩

def fromSecs (secs : Nat) : Duration := ⟨secs, 0, by decide⟩

instance : LE Duration where
  le s t := s.secs < t.secs ∨ s.secs = t.secs ∧ s.nanos ≤ t.nanos

instance (s t : Duration) : Decidable (s ≤ t) :=
  inferInstanceAs (Decidable (s.secs < t.secs ∨ s.secs = t.secs ∧ s.nanos ≤ t.nanos))

end Duration

def asI32 (word : Nat) : Int := if word < 2 ^ 31 then word else (word : Int) - 2 ^ 32

def decodeTime (secs extra : Nat) : Duration :=
  let epoch := extra &&& 0x3
  let nsec := extra >>> 2
  let secs := asI32 secs + (epoch <<< 32 : Nat)
  Duration.new secs.toNat nsec

def encodeTime (time : Duration) : Nat × Nat :=
  let secs := min time.secs (1 <<< 34 - 1)
  let epoch := (secs >>> 32) &&& 0x3
  (secs % 2 ^ 32, epoch ||| time.nanos <<< 2)

theorem decodeTime_eq (secs extra : Nat) :
    decodeTime secs extra =
      Duration.new (asI32 secs + (extra % 4 * 2 ^ 32 : Nat)).toNat (extra / 4) := by
  have hepoch : extra &&& 0x3 = extra % 4 := Nat.and_two_pow_sub_one_eq_mod extra 2
  simp only [decodeTime, hepoch, Nat.shiftLeft_eq, Nat.shiftRight_eq_div_pow]

theorem encodeTime_eq (time : Duration) (h : time.secs < 2 ^ 34) :
    encodeTime time = (time.secs % 2 ^ 32, time.secs / 2 ^ 32 + 4 * time.nanos) := by
  have hmin : min time.secs (1 <<< 34 - 1) = time.secs := by
    simp only [Nat.shiftLeft_eq]
    omega
  have hepoch : (time.secs >>> 32) &&& 0x3 = time.secs / 2 ^ 32 := by
    rw [Nat.shiftRight_eq_div_pow]
    have hlt : time.secs / 2 ^ 32 < 2 ^ 2 := by omega
    rw [show (0x3 : Nat) = 2 ^ 2 - 1 from rfl, Nat.and_two_pow_sub_one_eq_mod, Nat.mod_eq_of_lt hlt]
  have hor : time.secs / 2 ^ 32 ||| time.nanos <<< 2 = time.secs / 2 ^ 32 + 4 * time.nanos := by
    have hlt : time.secs / 2 ^ 32 < 2 ^ 2 := by omega
    rw [Nat.or_comm, ← Nat.shiftLeft_add_eq_or_of_lt hlt, Nat.shiftLeft_eq]
    omega
  simp only [encodeTime, hmin, hepoch, hor]

theorem decode_encode (time : Duration) (h : time.secs < 2 ^ 34) :
    decodeTime (encodeTime time).1 (encodeTime time).2 =
      if time.secs % 2 ^ 32 < 2 ^ 31 then time
      else ⟨time.secs - 2 ^ 32, time.nanos, time.nanos_lt⟩ := by
  have hepoch : (time.secs / 2 ^ 32 + 4 * time.nanos) % 4 = time.secs / 2 ^ 32 := by omega
  have hnsec : (time.secs / 2 ^ 32 + 4 * time.nanos) / 4 = time.nanos := by omega
  rw [encodeTime_eq time h, decodeTime_eq, hepoch, hnsec, Duration.new_of_lt time.nanos_lt]
  split
  case isTrue hbase =>
    ext
    · simp only [asI32, if_pos hbase]
      omega
    · rfl
  case isFalse hbase =>
    ext
    · simp only [asI32, if_neg hbase]
      omega
    · rfl

theorem encode_decode {secs extra : Nat} (hs : secs < 2 ^ 31) (he : extra / 4 < nanosPerSec) :
    encodeTime (decodeTime secs extra) = (secs, extra) := by
  have htime : decodeTime secs extra = ⟨secs + extra % 4 * 2 ^ 32, extra / 4, he⟩ := by
    rw [decodeTime_eq, Duration.new_of_lt he]
    ext
    · simp only [asI32, if_pos hs]
      omega
    · rfl
  rw [htime, encodeTime_eq _ (show secs + extra % 4 * 2 ^ 32 < 2 ^ 34 by omega)]
  dsimp only
  congr 1 <;> omega

def maxDiskSecs : Nat := 3 * 2 ^ 32 + 2 ^ 31 - 1

def Duration.Unsplit (time : Duration) : Prop := time.secs ≤ maxDiskSecs ∧ time.secs % 2 ^ 32 < 2 ^ 31

instance (time : Duration) : Decidable time.Unsplit :=
  inferInstanceAs (Decidable (time.secs ≤ maxDiskSecs ∧ time.secs % 2 ^ 32 < 2 ^ 31))

theorem Duration.Unsplit.decode_encode {time : Duration} (h : time.Unsplit) :
    decodeTime (encodeTime time).1 (encodeTime time).2 = time := by
  have hlt : time.secs < 2 ^ 34 := by
    have := h.1
    unfold maxDiskSecs at this
    omega
  rw [Ext4.decode_encode time hlt, if_pos h.2]

end Ext4
