import Mathlib.Data.List.Basic

namespace List

variable {α β : Type}

def Threaded (code : Option α → β) (next : α → Option β) (P : α → Prop) : List α → Prop
  | [] => True
  | x :: rest => (¬P x → next x = some (code rest.head?)) ∧ Threaded code next P rest

def follow (decode : β → Option α) (next : α → Option β) : Nat → Option α → Option (List α)
  | _, none => some []
  | 0, some _ => none
  | fuel + 1, some x =>
    (next x).bind fun b => (follow decode next fuel (decode b)).map fun rest => x :: rest

namespace Threaded

variable {code : Option α → β} {decode : β → Option α} {next next' : α → Option β} {P P' : α → Prop}
  {l pre post : List α} {pred x : α}

theorem congr (h : l.Threaded code next P) (hnext : ∀ y ∈ l, ¬P' y → ¬P y ∧ next' y = next y) :
    l.Threaded code next' P' := by
  induction l with
  | nil => trivial
  | cons y l ih =>
    refine ⟨fun hy => ?_, ih h.2 fun z hz => hnext z (mem_cons_of_mem y hz)⟩
    obtain ⟨hP, heq⟩ := hnext y mem_cons_self hy
    rw [heq]
    exact h.1 hP

theorem head?_splice (pre post post' : List α) (pred : α) :
    (pre ++ pred :: post).head? = (pre ++ pred :: post').head? := by
  cases pre with
  | nil => rfl
  | cons y pre => rfl

theorem splice (h : (pre ++ pred :: x :: post).Threaded code next P)
    (hpred : next' pred = some (code post.head?)) (hrest : ∀ y ∈ pre ++ post, next' y = next y) :
    (pre ++ pred :: post).Threaded code next' P := by
  induction pre with
  | nil => exact ⟨fun _ => hpred, h.2.2.congr fun y hy hP => ⟨hP, hrest y hy⟩⟩
  | cons y pre ih =>
    refine ⟨fun hP => ?_, ih h.2 fun z hz => hrest z (mem_cons_of_mem y hz)⟩
    rw [hrest y mem_cons_self, h.1 hP]
    exact congrArg (some ∘ code) (head?_splice pre (x :: post) post pred)

theorem settle (h : l.Threaded code next P) (hnodup : l.Nodup) (hx : ∀ pre post, l = pre ++ x :: post →
      next' x = some (code post.head?)) (hrest : ∀ y ∈ l, y ≠ x → next' y = next y) :
    l.Threaded code next' fun y => P y ∧ y ≠ x := by
  induction l with
  | nil => trivial
  | cons y l ih =>
    obtain ⟨hy, hnodup⟩ := nodup_cons.mp hnodup
    refine ⟨fun hP => ?_, ih h.2 hnodup (fun pre post hl => hx (y :: pre) post (by rw [hl]; rfl))
      fun z hz => hrest z (mem_cons_of_mem y hz)⟩
    by_cases heq : y = x
    · subst heq
      exact hx [] l rfl
    · rw [hrest y mem_cons_self heq]
      exact h.1 fun hPy => hP ⟨hPy, heq⟩

theorem follow_eq (h : l.Threaded code next fun _ => False)
    (hcode : decode (code none) = none) (hdecode : ∀ y ∈ l, decode (code (some y)) = some y) :
    follow decode next l.length l.head? = some l := by
  induction l with
  | nil => rfl
  | cons y l ih =>
    have hhead : decode (code l.head?) = l.head? := by
      cases l with
      | nil => exact hcode
      | cons z l => exact hdecode z (mem_cons_of_mem y mem_cons_self)
    have htail := ih h.2 fun z hz => hdecode z (mem_cons_of_mem y hz)
    simp only [head?_cons, length_cons, follow, h.1 not_false, Option.bind_some, hhead, htail, Option.map_some]

end Threaded

end List
