import Ext4.Base.Frame

namespace Op

variable {σ τ ε α β : Type}

-- a bound on what happens between two states, added up along a run
class Graded (R : Nat → σ → σ → Prop) : Prop where
  refl : ∀ s, R 0 s s
  mono : ∀ {m n s t}, m ≤ n → R m s t → R n s t
  trans : ∀ {m n s t u}, R m s t → R n t u → R (m + n) s u

def Costs (R : Nat → σ → σ → Prop) (n : Nat) (m : Op σ ε α) : Prop := Keeps (R n) m

namespace Costs

variable {R : Nat → σ → σ → Prop} {i j n : Nat} {m : Op σ ε α} {f : α → Op σ ε β}

theorem attempt (hm : Costs R n m) : Costs R n (Op.attempt m) := Keeps.attempt hm

theorem ends (hm : Costs R n m) (s : σ) : m.Leaves s (R n s) :=
  Keeps.ends hm s

variable [Graded R]

theorem le (hm : Costs R i m) (h : i ≤ n) : Costs R n m := fun s => Graded.mono h (hm s)

theorem ret (a : α) : Costs R 0 (Op.ret a : Op σ ε α) := fun s => Graded.refl s

theorem fail (e : ε) : Costs R 0 (Op.fail e : Op σ ε α) := fun s => Graded.refl s

theorem get : Costs R 0 (Op.get : Op σ ε σ) := fun s => Graded.refl s

theorem ofExcept (r : Except ε α) : Costs R 0 (Op.ofExcept r : Op σ ε α) := by
  cases r with
  | ok a => exact ret a
  | error e => exact fail e

theorem bind (hm : Costs R i m) (hf : ∀ a, Costs R j (f a)) : Costs R (i + j) (m >>= f) :=
  Keeps.bind_comp hm hf (fun _ _ h => Graded.mono (Nat.le_add_right i j) h) fun _ _ _ => Graded.trans

theorem after (hm : Costs R 0 m) (hf : ∀ a, Costs R n (f a)) : Costs R n (m >>= f) :=
  (bind hm hf).le (Nat.le_of_eq (Nat.zero_add n))

theorem before (hm : Costs R n m) (hf : ∀ a, Costs R 0 (f a)) : Costs R n (m >>= f) := bind hm hf

theorem when {c : Prop} [Decidable c] {m : Op σ ε Unit} (hm : Costs R n m) : Costs R n (Op.when c m) := by
  unfold Op.when
  split
  · exact hm
  · exact (ret ()).le (Nat.zero_le n)

theorem bind_ends {s : σ} {P : α → σ → Prop} (hm : m.Ends s (fun a t => R i s t ∧ P a t) fun _ t => R i s t)
    (hf : ∀ a t, P a t → (f a).Leaves t (R j t)) :
    (m >>= f).Leaves s (R (i + j) s) := by
  refine hm.bindOr (fun _ _ h => Graded.mono (Nat.le_add_right i j) h) fun a t h => ?_
  exact (hf a t h.2).both fun _ h' => Graded.trans h.1 h'

theorem bind_leaves {s : σ} (hm : m.Leaves s (R i s)) (hf : ∀ a, Costs R j (f a)) :
    (m >>= f).Leaves s (R (i + j) s) :=
  bind_ends (P := fun _ _ => True) (hm.mono (fun _ _ h => ⟨h, trivial⟩) fun _ _ h => h) fun a t _ => (hf a).ends t

end Costs

end Op
