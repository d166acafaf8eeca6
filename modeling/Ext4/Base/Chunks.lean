import Mathlib.Data.List.Basic

namespace List

variable {α β ε : Type} {n fuel : Nat} {xs c : List α}

def chunksAux (n : Nat) : Nat → List α → List (List α)
  | 0, _ => []
  | _, [] => []
  | fuel + 1, x :: xs => (x :: xs).take n :: chunksAux n fuel ((x :: xs).drop n)

def chunks (xs : List α) (n : Nat) : List (List α) := chunksAux n xs.length xs

section

variable (hn : 0 < n)

include hn

theorem chunksAux_flatten {xs : List α} (hf : xs.length ≤ fuel) :
    (chunksAux n fuel xs).flatten = xs := by
  induction fuel generalizing xs with
  | zero =>
    obtain rfl : xs = [] := by simpa using hf
    rfl
  | succ fuel ih =>
    cases xs with
    | nil => rfl
    | cons x xs =>
      have hd : ((x :: xs).drop n).length ≤ fuel := by
        simp only [length_drop, length_cons] at hf ⊢
        omega
      rw [chunksAux, flatten_cons, ih hd, take_append_drop]

theorem chunks_flatten (xs : List α) : (xs.chunks n).flatten = xs :=
  chunksAux_flatten hn (Nat.le_refl _)

theorem mem_chunksAux (hc : c ∈ chunksAux n fuel xs) :
    c ≠ [] ∧ c.length ≤ n := by
  induction fuel generalizing xs with
  | zero => simp [chunksAux] at hc
  | succ fuel ih =>
    cases xs with
    | nil => simp [chunksAux] at hc
    | cons x xs =>
      rcases mem_cons.mp hc with rfl | hc
      · exact ⟨by simp; omega, by simp [Nat.min_le_left]⟩
      · exact ih hc

theorem mem_chunks (hc : c ∈ xs.chunks n) :
    c ≠ [] ∧ c.length ≤ n :=
  mem_chunksAux hn hc

theorem mem_of_mem_chunks {a : α} (hc : c ∈ xs.chunks n) (ha : a ∈ c) : a ∈ xs := by
  rw [← chunks_flatten hn xs]
  exact mem_flatten.mpr ⟨c, hc, ha⟩

theorem chunksAux_length {xs : List α}
    (hf : xs.length ≤ fuel) : (chunksAux n fuel xs).length = (xs.length + n - 1) / n := by
  have hnil : 0 = (0 + n - 1) / n := (Nat.div_eq_of_lt (by omega)).symm
  induction fuel generalizing xs with
  | zero =>
    obtain rfl : xs = [] := by simpa using hf
    exact hnil
  | succ fuel ih =>
    cases xs with
    | nil => exact hnil
    | cons x xs =>
      have hd : ((x :: xs).drop n).length ≤ fuel := by
        simp only [length_drop, length_cons] at hf ⊢
        omega
      rw [chunksAux, length_cons, ih hd, length_drop]
      simp only [length_cons]
      rcases Nat.lt_or_ge xs.length n with h | h
      · have h0 : xs.length + 1 - n + n - 1 < n := by omega
        rw [Nat.div_eq_of_lt h0, show xs.length + 1 + n - 1 = xs.length + n from by omega,
          Nat.add_div_right _ hn, Nat.div_eq_of_lt h]
      · rw [show xs.length + 1 - n + n - 1 = xs.length from by omega,
          show xs.length + 1 + n - 1 = xs.length + n from by omega, Nat.add_div_right _ hn]

theorem chunks_length (xs : List α) :
    (xs.chunks n).length = (xs.length + n - 1) / n :=
  chunksAux_length hn (Nat.le_refl _)

end

theorem chunksAux_map (f : α → β) (n fuel : Nat) (xs : List α) :
    chunksAux n fuel (xs.map f) = (chunksAux n fuel xs).map (map f) := by
  induction fuel generalizing xs with
  | zero => rfl
  | succ fuel ih =>
    cases xs with
    | nil => rfl
    | cons x xs =>
      rw [map_cons, chunksAux, chunksAux, map_cons, ← map_cons, ← map_drop, ← map_take, ih]

theorem chunks_map (f : α → β) (n : Nat) (xs : List α) :
    (xs.map f).chunks n = (xs.chunks n).map (map f) := by
  rw [chunks, length_map, chunksAux_map]
  rfl

end List
