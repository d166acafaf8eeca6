import Mathlib.Algebra.GroupWithZero.Nat
import Mathlib.Data.List.Basic
import Mathlib.Order.Lattice

structure SortedMap (K V : Type) [LinearOrder K] where
  entries : List (K × V)
  sorted : entries.Pairwise fun a b => a.1 < b.1

namespace SortedMap

variable {K V : Type} [LinearOrder K] {k : K} {v : V} {es : List (K × V)} {m : SortedMap K V}

def empty : SortedMap K V := ⟨[], .nil⟩

def get (m : SortedMap K V) (k : K) : Option V := (m.entries.find? fun e => e.1 = k).map Prod.snd

def keys (m : SortedMap K V) : List K := m.entries.map Prod.fst

def insertEntry (k : K) (v : V) : List (K × V) → List (K × V)
  | [] => [(k, v)]
  | e :: es =>
    if k < e.1 then (k, v) :: e :: es
    else if k = e.1 then (k, v) :: es
    else e :: insertEntry k v es

theorem mem_insertEntry (hs : es.Pairwise fun a b => a.1 < b.1) {e : K × V} :
    e ∈ insertEntry k v es ↔ e = (k, v) ∨ (e ∈ es ∧ e.1 ≠ k) := by
  induction es with
  | nil => simp [insertEntry]
  | cons d es ih =>
    rw [List.pairwise_cons] at hs
    have hlt : ∀ x ∈ es, d.1 < x.1 := hs.1
    rw [insertEntry]
    split_ifs with h1 h2
    · have hk : ∀ x ∈ d :: es, x.1 ≠ k := by
        intro x hx
        rcases List.mem_cons.mp hx with rfl | hx
        · exact h1.ne'
        · exact (h1.trans (hlt x hx)).ne'
      rw [List.mem_cons]
      exact or_congr_right ⟨fun h => ⟨h, hk e h⟩, And.left⟩
    · have hk : ∀ x ∈ es, x.1 ≠ k := fun x hx => h2 ▸ (hlt x hx).ne'
      rw [List.mem_cons, List.mem_cons]
      refine or_congr_right ⟨fun h => ⟨.inr h, hk e h⟩, ?_⟩
      rintro ⟨rfl | h, hne⟩
      · exact absurd h2.symm hne
      · exact h
    · rw [List.mem_cons, ih hs.2, List.mem_cons]
      constructor
      · rintro (rfl | rfl | h)
        · exact .inr ⟨.inl rfl, Ne.symm h2⟩
        · exact .inl rfl
        · exact .inr ⟨.inr h.1, h.2⟩
      · rintro (rfl | ⟨rfl | h, hne⟩)
        · exact .inr (.inl rfl)
        · exact .inl rfl
        · exact .inr (.inr ⟨h, hne⟩)

theorem sorted_insertEntry (k : K) (v : V) (hs : es.Pairwise fun a b => a.1 < b.1) :
    (insertEntry k v es).Pairwise fun a b => a.1 < b.1 := by
  induction es with
  | nil => simp [insertEntry]
  | cons d es ih =>
    have hall := hs
    rw [List.pairwise_cons] at hs
    rw [insertEntry]
    split_ifs with h1 h2
    · refine List.pairwise_cons.mpr ⟨fun x hx => ?_, hall⟩
      rcases List.mem_cons.mp hx with rfl | hx
      · exact h1
      · exact h1.trans (hs.1 x hx)
    · exact List.pairwise_cons.mpr ⟨fun x hx => h2 ▸ hs.1 x hx, hs.2⟩
    · refine List.pairwise_cons.mpr ⟨fun x hx => ?_, ih hs.2⟩
      rcases (mem_insertEntry hs.2).mp hx with rfl | ⟨hx, -⟩
      · exact lt_of_le_of_ne (not_lt.mp h1) (Ne.symm h2)
      · exact hs.1 x hx

def insert (m : SortedMap K V) (k : K) (v : V) : SortedMap K V :=
  ⟨insertEntry k v m.entries, sorted_insertEntry k v m.sorted⟩

def filter (m : SortedMap K V) (p : K → V → Bool) : SortedMap K V :=
  ⟨m.entries.filter fun e => p e.1 e.2, m.sorted.filter _⟩

def erase (m : SortedMap K V) (k : K) : SortedMap K V := m.filter fun k' _ => k' ≠ k

theorem get_eq_some : m.get k = some v ↔ (k, v) ∈ m.entries := by
  obtain ⟨es, hs⟩ := m
  simp only [get]
  induction es with
  | nil => simp
  | cons d es ih =>
    rw [List.pairwise_cons] at hs
    obtain ⟨dk, dv⟩ := d
    rw [List.find?_cons, List.mem_cons]
    by_cases hk : dk = k
    · subst hk
      have hno : (dk, v) ∉ es := fun h => lt_irrefl dk (hs.1 (dk, v) h)
      simp only [decide_true, Option.map_some, Option.some.injEq, Prod.mk.injEq, true_and, hno, or_false]
      exact eq_comm
    · simp only [hk, decide_false, ih hs.2, Prod.mk.injEq, Ne.symm hk, false_and, false_or]

@[simp] theorem get_empty (k : K) : (empty : SortedMap K V).get k = none := rfl

theorem get_insert (m : SortedMap K V) (k : K) (v : V) (k' : K) :
    (m.insert k v).get k' = if k' = k then some v else m.get k' := by
  apply Option.ext
  intro u
  rw [get_eq_some, insert, mem_insertEntry m.sorted]
  split_ifs with h
  · subst h
    simp [eq_comm]
  · simp [h, get_eq_some]

theorem get_filter (m : SortedMap K V) (p : K → V → Bool) (k : K) :
    (m.filter p).get k = (m.get k).filter fun v => p k v := by
  apply Option.ext
  intro u
  simp [get_eq_some, filter, Option.filter_eq_some_iff]

theorem get_erase (m : SortedMap K V) (k k' : K) :
    (m.erase k).get k' = if k' = k then none else m.get k' := by
  rw [erase, get_filter]
  split_ifs with h
  · simp [h]
  · cases m.get k' <;> simp [h]

theorem mem_keys : k ∈ m.keys ↔ (m.get k).isSome := by
  rw [Option.isSome_iff_exists, keys, List.mem_map]
  constructor
  · rintro ⟨e, he, rfl⟩
    exact ⟨e.2, get_eq_some.mpr he⟩
  · rintro ⟨v, hv⟩
    exact ⟨_, get_eq_some.mp hv, rfl⟩

def total (m : SortedMap K V) (f : V → Nat) : Nat := (m.entries.map fun e => f e.2).sum

def weigh (f : V → Nat) (v : Option V) : Nat := (v.map f).getD 0

theorem total_insert (m : SortedMap K V) (f : V → Nat) (k : K) (v : V) :
    (m.insert k v).total f + weigh f (m.get k) = m.total f + f v := by
  obtain ⟨es, hs⟩ := m
  simp only [total, insert, get, weigh]
  induction es with
  | nil => simp [insertEntry]
  | cons d es ih =>
    rw [List.pairwise_cons] at hs
    rw [insertEntry, List.find?_cons]
    split_ifs with h1 h2
    · have hnone : es.find? (fun e => decide (e.1 = k)) = none := by
        rw [List.find?_eq_none]
        intro x hx
        simpa using (h1.trans (hs.1 x hx)).ne'
      simp only [h1.ne', decide_false, hnone, Option.map_none, Option.getD_none, List.map_cons, List.sum_cons]
      omega
    · simp only [h2, decide_true, Option.map_some, Option.getD_some, List.map_cons, List.sum_cons]
      omega
    · have hd : decide (d.1 = k) = false := by simpa using Ne.symm h2
      simp only [hd, List.map_cons, List.sum_cons]
      have := ih hs.2
      omega

theorem total_erase (m : SortedMap K V) (f : V → Nat) (k : K) :
    (m.erase k).total f + weigh f (m.get k) = m.total f := by
  obtain ⟨es, hs⟩ := m
  simp only [total, erase, filter, get, weigh]
  induction es with
  | nil => simp
  | cons d es ih =>
    rw [List.pairwise_cons] at hs
    rw [List.find?_cons]
    have := ih hs.2
    by_cases hd : d.1 = k
    · have hall : es.filter (fun e => decide (e.1 ≠ k)) = es := by
        rw [List.filter_eq_self]
        intro x hx
        simpa [← hd] using (hs.1 x hx).ne'
      simp only [hd, ne_eq, not_true_eq_false, decide_false, decide_true, List.filter_cons_of_neg,
        Bool.false_eq_true, not_false_eq_true, Option.map_some, Option.getD_some, List.map_cons,
        List.sum_cons] at this ⊢
      rw [hall]
      omega
    · simp only [hd, ne_eq, not_false_eq_true, decide_true, decide_false, List.filter_cons_of_pos,
        List.map_cons, List.sum_cons] at this ⊢
      omega

theorem le_total (h : m.get k = some v) (f : V → Nat) :
    f v ≤ m.total f := by
  have := m.total_erase f k
  simp only [h, weigh, Option.map_some, Option.getD_some] at this
  omega

theorem total_eq_zero {f : V → Nat} (h : ∀ k v, m.get k = some v → f v = 0) :
    m.total f = 0 := by
  have hall : ∀ e ∈ m.entries, f e.2 = 0 := fun e he => h e.1 e.2 (get_eq_some.mpr he)
  rw [total, List.map_congr_left hall]
  simp

theorem length_eq_total (m : SortedMap K V) : m.entries.length = m.total fun _ => 1 := by
  simp [total]

theorem length_insert (m : SortedMap K V) (k : K) (v : V) :
    (m.insert k v).entries.length = m.entries.length + if (m.get k).isSome then 0 else 1 := by
  have h := m.total_insert (fun _ => 1) k v
  rw [← length_eq_total, ← length_eq_total] at h
  cases hk : m.get k with
  | none => simpa [weigh, hk] using h
  | some u => simpa [weigh, hk] using h

theorem length_erase_le (m : SortedMap K V) (k : K) :
    (m.erase k).entries.length ≤ m.entries.length := List.length_filter_le _ _

end SortedMap
