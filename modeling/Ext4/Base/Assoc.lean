import Mathlib.Data.List.Perm.Basic
import Mathlib.Data.List.Nodup
import Mathlib.Logic.Function.Basic

namespace List

structure Maps {α β : Type} (l : List (α × β)) (M : α → Option β) : Prop where
  nodup : (l.map Prod.fst).Nodup
  iff : ∀ a b, M a = some b ↔ (a, b) ∈ l

namespace Maps

variable {α β : Type} {l l' : List (α × β)} {M : α → Option β} {a : α} {b b' : β}

theorem perm (h : l.Maps M) (hp : l.Perm l') : l'.Maps M :=
  ⟨(hp.map Prod.fst).nodup_iff.mp h.nodup, fun a b => (h.iff a b).trans hp.mem_iff⟩

theorem eq_none (h : l.Maps M) : M a = none ↔ a ∉ l.map Prod.fst := by
  constructor
  · intro hn hmem
    obtain ⟨⟨x, b⟩, hx, rfl⟩ := List.mem_map.mp hmem
    have := (h.iff x b).mpr hx
    rw [hn] at this
    cases this
  · intro hn
    cases hm : M a with
    | none => rfl
    | some b => exact absurd (List.mem_map.mpr ⟨(a, b), (h.iff a b).mp hm, rfl⟩) hn

variable [DecidableEq α]

theorem insert (h : l.Maps M) (ha : M a = none) (b : β) :
    ((a, b) :: l).Maps (Function.update M a (some b)) := by
  have hnot := h.eq_none.mp ha
  refine ⟨List.nodup_cons.mpr ⟨hnot, h.nodup⟩, fun x y => ?_⟩
  by_cases hx : x = a
  · subst hx
    rw [Function.update_self, List.mem_cons]
    constructor
    · rintro ⟨⟩
      exact .inl rfl
    · rintro (hy | hy)
      · cases hy
        rfl
      · exact absurd (List.mem_map.mpr ⟨(x, y), hy, rfl⟩) hnot
  · rw [Function.update_of_ne hx, List.mem_cons, h.iff]
    constructor
    · exact .inr
    · rintro (hy | hy)
      · cases hy
        exact absurd rfl hx
      · exact hy

theorem erase (h : ((a, b) :: l).Maps M) : l.Maps (Function.update M a none) := by
  obtain ⟨hnot, hnodup⟩ := List.nodup_cons.mp h.nodup
  refine ⟨hnodup, fun x y => ?_⟩
  by_cases hx : x = a
  · subst hx
    rw [Function.update_self]
    constructor
    · rintro ⟨⟩
    · intro hy
      exact absurd (List.mem_map.mpr ⟨(x, y), hy, rfl⟩) hnot
  · rw [Function.update_of_ne hx, h.iff, List.mem_cons]
    constructor
    · rintro (hy | hy)
      · cases hy
        exact absurd rfl hx
      · exact hy
    · exact .inr

theorem replace (h : ((a, b) :: l).Maps M) (b' : β) :
    ((a, b') :: l).Maps (Function.update M a (some b')) := by
  have hout := h.erase.insert (Function.update_self a none M) b'
  rwa [Function.update_idem] at hout

end Maps

end List
