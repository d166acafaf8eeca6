import Ext4.Journal.Geometry
import Mathlib.Data.Nat.ModEq

namespace Ext4.JournalGeometry

variable (g : JournalGeometry)

def InRing (pos : Nat) : Prop := g.first ≤ pos ∧ pos < g.maxlen

theorem first_inRing : g.InRing g.first := ⟨le_rfl, g.first_lt⟩

variable {g} {head tail k : Nat} {pos : Nat}

section

variable (h : g.InRing pos)

include h

theorem InRing.next : g.InRing (g.nextLogBlock pos) := by
  unfold nextLogBlock
  split_ifs with hm
  · exact g.first_inRing
  · exact ⟨Nat.le_succ_of_le h.1, not_le.mp hm⟩

theorem InRing.advance (n : Nat) : g.InRing (g.advance pos n) := by
  induction n generalizing pos with
  | zero => exact h
  | succ n ih => exact ih h.next

theorem InRing.next_eq :
    g.nextLogBlock pos = g.first + (pos - g.first + 1) % g.ring := by
  obtain ⟨h1, h2⟩ := h
  unfold nextLogBlock ring
  split_ifs with hm
  · rw [show pos - g.first + 1 = g.maxlen - g.first by omega, Nat.mod_self, add_zero]
  · rw [Nat.mod_eq_of_lt (by omega)]
    omega

theorem InRing.advance_eq (n : Nat) :
    g.advance pos n = g.first + (pos - g.first + n) % g.ring := by
  induction n generalizing pos with
  | zero =>
    obtain ⟨h1, h2⟩ := h
    rw [add_zero, Nat.mod_eq_of_lt (by unfold ring; omega)]
    simp only [JournalGeometry.advance]
    omega
  | succ n ih =>
    change g.advance (g.nextLogBlock pos) n = _
    rw [ih h.next, h.next_eq, Nat.add_sub_cancel_left, Nat.mod_add_mod]
    congr 2
    omega

theorem InRing.advance_inj {i j : Nat} (hi : i < g.ring)
    (hj : j < g.ring) (he : g.advance pos i = g.advance pos j) : i = j := by
  rw [h.advance_eq, h.advance_eq] at he
  have hm : (pos - g.first + i) % g.ring = (pos - g.first + j) % g.ring := by omega
  have := Nat.ModEq.add_left_cancel' (pos - g.first) (show _ ≡ _ [MOD g.ring] from hm)
  rwa [Nat.ModEq, Nat.mod_eq_of_lt hi, Nat.mod_eq_of_lt hj] at this

end

theorem freeLogBlocks_le {tail : Option Nat} (hhead : g.InRing head)
    (htail : ∀ t, tail = some t → g.InRing t) : g.freeLogBlocks head tail ≤ g.ring := by
  cases tail with
  | none => exact le_rfl
  | some t =>
    have ht := htail t rfl
    unfold InRing at hhead ht
    simp only [freeLogBlocks]
    split_ifs
    · unfold ring
      omega
    · exact Nat.sub_le _ _

def checkedSub (a b : Nat) : Option Nat := if b ≤ a then some (a - b) else none

def checkedFreeLogBlocks (g : JournalGeometry) (head : Nat) (dirtyTail : Option Nat) : Option Nat := do
  let ring ← checkedSub g.maxlen g.first
  match dirtyTail with
  | none => some ring
  | some tail =>
    let headOff ← checkedSub head g.first
    let tailOff ← checkedSub tail g.first
    if headOff ≤ tailOff then checkedSub tailOff headOff
    else
      let used ← checkedSub headOff tailOff
      checkedSub ring used

theorem checkedSub_of_le {a b : Nat} (h : b ≤ a) : checkedSub a b = some (a - b) := if_pos h

theorem checkedFreeLogBlocks_eq {dirtyTail : Option Nat} (hhead : g.InRing head)
    (htail : ∀ t, dirtyTail = some t → g.InRing t) :
    g.checkedFreeLogBlocks head dirtyTail = some (g.freeLogBlocks head dirtyTail) := by
  have hring := checkedSub_of_le (Nat.le_of_lt g.first_lt)
  cases dirtyTail with
  | none => simp only [checkedFreeLogBlocks, hring, Option.bind_eq_bind, Option.bind_some, freeLogBlocks, ring]
  | some t =>
    obtain ⟨hfirst, hlt⟩ := htail t rfl
    have hroom := hhead.2
    simp only [checkedFreeLogBlocks, hring, checkedSub_of_le hhead.1, checkedSub_of_le hfirst, Option.bind_eq_bind,
      Option.bind_some, freeLogBlocks, ring]
    split
    next hle => exact checkedSub_of_le hle
    next hlt' =>
      rw [checkedSub_of_le (Nat.le_of_not_le hlt'), Option.bind_some, checkedSub_of_le (by omega)]

theorem InRing.off_lt (h : g.InRing head) : head - g.first < g.ring := Nat.sub_lt_sub_right h.1 h.2

theorem InRing.advance_off (h : g.InRing head) (hk : k ≤ g.ring) :
    g.advance head k - g.first =
      if head - g.first + k < g.ring then head - g.first + k else head - g.first + k - g.ring := by
  have hoff := h.off_lt
  rw [h.advance_eq, Nat.add_sub_cancel_left]
  split
  next hlt => exact Nat.mod_eq_of_lt hlt
  next hge => rw [Nat.mod_eq_sub_mod (Nat.le_of_not_lt hge), Nat.mod_eq_of_lt (by omega)]

section

variable (hhead : g.InRing head) (htail : g.InRing tail)

include hhead htail

theorem freeLogBlocks_lt :
    g.freeLogBlocks head (some tail) < g.ring := by
  have hh := hhead.off_lt
  have ht := htail.off_lt
  simp only [freeLogBlocks]
  split_ifs <;> omega

theorem freeLogBlocks_advance_head (hk : k ≤ g.freeLogBlocks head (some tail)) :
    g.freeLogBlocks (g.advance head k) (some tail) = g.freeLogBlocks head (some tail) - k := by
  have hh := hhead.off_lt
  have ht := htail.off_lt
  have hoff := hhead.advance_off (le_of_lt (lt_of_le_of_lt hk (freeLogBlocks_lt hhead htail)))
  simp only [freeLogBlocks, hoff] at hk ⊢
  split_ifs at hk ⊢ <;> omega

theorem freeLogBlocks_advance_tail (hk : k ≤ g.ring - g.freeLogBlocks head (some tail)) :
    g.freeLogBlocks head (some (g.advance tail k)) =
      if k = g.ring - g.freeLogBlocks head (some tail) then 0 else g.freeLogBlocks head (some tail) + k := by
  have hh := hhead.off_lt
  have ht := htail.off_lt
  have hoff := htail.advance_off (le_trans hk (Nat.sub_le _ _))
  simp only [freeLogBlocks, hoff] at hk ⊢
  split_ifs at hk ⊢ <;> omega

end

theorem ring_arithmetic (hhead : g.InRing head) (htail : g.InRing tail) (k : Nat) :
    (g.InRing (g.advance head k) ∧ g.advance head k = g.first + (head - g.first + k) % (g.maxlen - g.first)) ∧
    (∀ dirtyTail ∈ [none, some tail],
      g.checkedFreeLogBlocks head dirtyTail = some (g.freeLogBlocks head dirtyTail) ∧
        g.freeLogBlocks head dirtyTail ≤ g.maxlen - g.first) ∧
    (k ≤ g.freeLogBlocks head (some tail) →
      g.freeLogBlocks (g.advance head k) (some tail) = g.freeLogBlocks head (some tail) - k) ∧
    (k ≤ g.maxlen - g.first - g.freeLogBlocks head (some tail) → g.freeLogBlocks head (some (g.advance tail k)) =
        if k = g.maxlen - g.first - g.freeLogBlocks head (some tail) then 0
        else g.freeLogBlocks head (some tail) + k) := by
  refine ⟨⟨hhead.advance k, hhead.advance_eq k⟩, fun dirtyTail hmem => ?_, freeLogBlocks_advance_head hhead htail,
    freeLogBlocks_advance_tail hhead htail⟩
  have hring : ∀ t, dirtyTail = some t → g.InRing t := by
    rintro t rfl
    obtain rfl : t = tail := by simpa using hmem
    exact htail
  exact ⟨checkedFreeLogBlocks_eq hhead hring, freeLogBlocks_le hhead hring⟩

theorem ring_arithmetic_wrapped : JournalGeometry.small.InRing 6 ∧ JournalGeometry.small.InRing 3 ∧
    JournalGeometry.small.freeLogBlocks (JournalGeometry.small.advance 6 4) (some 3) = 0 :=
  ⟨⟨by decide, by decide⟩, ⟨by decide, by decide⟩,
    (ring_arithmetic (g := .small) ⟨by decide, by decide⟩ ⟨by decide, by decide⟩ 4).2.2.1 (by decide)⟩

end Ext4.JournalGeometry
