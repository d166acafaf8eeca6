structure Sig where
  Op : Type
  Res : Op → Type

inductive Prog (S : Sig) (ε α : Type) where
  | ret (a : α)
  | fail (e : ε)
  | op (o : S.Op) (k : S.Res o → Prog S ε α)

namespace Prog

variable {S : Sig} {ε α β γ σ : Type}

def bind : Prog S ε α → (α → Prog S ε β) → Prog S ε β
  | .ret a, f => f a
  | .fail e, _ => .fail e
  | .op o k, f => .op o fun r => (k r).bind f

instance : Monad (Prog S ε) where
  pure := .ret
  bind := bind

def ofExcept : Except ε α → Prog S ε α
  | .ok a => .ret a
  | .error e => .fail e

def attempt : Prog S ε α → Prog S ε (Except ε α)
  | .ret a => .ret (.ok a)
  | .fail e => .ret (.error e)
  | .op o k => .op o fun r => (k r).attempt

@[simp] theorem pure_eq (a : α) : (pure a : Prog S ε α) = .ret a := rfl
@[simp] theorem bind_eq (p : Prog S ε α) (f : α → Prog S ε β) : p >>= f = p.bind f := rfl
@[simp] theorem ret_bind (a : α) (f : α → Prog S ε β) : (ret a : Prog S ε α).bind f = f a := rfl
@[simp] theorem fail_bind (e : ε) (f : α → Prog S ε β) : (fail e : Prog S ε α).bind f = .fail e := rfl
@[simp] theorem op_bind (o : S.Op) (k : S.Res o → Prog S ε α) (f : α → Prog S ε β) :
    (op o k).bind f = .op o fun r => (k r).bind f := rfl

theorem bind_assoc (p : Prog S ε α) (f : α → Prog S ε β) (g : β → Prog S ε γ) :
    (p.bind f).bind g = p.bind fun a => (f a).bind g := by
  induction p with
  | ret a => rfl
  | fail e => rfl
  | op o k ih => simp only [op_bind, ih]

abbrev Handler (S : Sig) (σ : Type) := (o : S.Op) → σ → S.Res o × σ

section Run
variable (h : Handler S σ) {s t : σ} {f : α → Prog S ε β} {p : Prog S ε α}

def run : Prog S ε α → σ → Except ε α × σ
  | .ret a, s => (.ok a, s)
  | .fail e, s => (.error e, s)
  | .op o k, s => (k (h o s).1).run (h o s).2

def trace : Prog S ε α → σ → List S.Op
  | .ret _, _ => []
  | .fail _, _ => []
  | .op o k, s => o :: (k (h o s).1).trace (h o s).2

def after : Prog S ε α → Nat → σ → σ
  | .op o k, n + 1, s => (k (h o s).1).after n (h o s).2
  | _, _, s => s

@[simp] theorem run_ret (a : α) (s : σ) : (ret a : Prog S ε α).run h s = (.ok a, s) := rfl
@[simp] theorem run_fail (e : ε) (s : σ) : (fail e : Prog S ε α).run h s = (.error e, s) := rfl
@[simp] theorem run_op (o : S.Op) (k : S.Res o → Prog S ε α) (s : σ) :
    (op o k).run h s = (k (h o s).1).run h (h o s).2 := rfl
@[simp] theorem trace_ret (a : α) (s : σ) : (ret a : Prog S ε α).trace h s = [] := rfl
@[simp] theorem trace_fail (e : ε) (s : σ) : (fail e : Prog S ε α).trace h s = [] := rfl
@[simp] theorem trace_op (o : S.Op) (k : S.Res o → Prog S ε α) (s : σ) :
    (op o k).trace h s = o :: (k (h o s).1).trace h (h o s).2 := rfl

theorem run_bind (p : Prog S ε α) (f : α → Prog S ε β) (s : σ) :
    (p.bind f).run h s = match p.run h s with
      | (.ok a, t) => (f a).run h t
      | (.error e, t) => (.error e, t) := by
  induction p generalizing s with
  | ret a => rfl
  | fail e => rfl
  | op o k ih => exact ih _ _

theorem run_bind_ok {a : α} (hp : p.run h s = (.ok a, t)) : (p.bind f).run h s = (f a).run h t := by
  rw [run_bind, hp]

theorem run_bind_error {e : ε} (hp : p.run h s = (.error e, t)) : (p.bind f).run h s = (.error e, t) := by
  rw [run_bind, hp]

theorem trace_bind_ok {a : α}
    (hp : p.run h s = (.ok a, t)) : (p.bind f).trace h s = p.trace h s ++ (f a).trace h t := by
  induction p generalizing s with
  | ret b => cases hp; rfl
  | fail e => cases hp
  | op o k ih => simpa using ih _ hp

theorem trace_bind_error {e : ε} (hp : p.run h s = (.error e, t)) : (p.bind f).trace h s = p.trace h s := by
  induction p generalizing s with
  | ret b => cases hp
  | fail e => rfl
  | op o k ih => simpa using ih _ hp

theorem mem_trace_bind {s : σ} {o : S.Op} :
    o ∈ (p.bind f).trace h s ↔
      o ∈ p.trace h s ∨ ∃ a t, p.run h s = (.ok a, t) ∧ o ∈ (f a).trace h t := by
  cases hp : p.run h s with
  | mk res t =>
    cases res with
    | ok a => simp [trace_bind_ok h hp, and_assoc]
    | error e => simp [trace_bind_error h hp]

theorem after_bind {s : σ} {P : σ → Prop} (hp : ∀ n, P (p.after h n s))
    (hf : ∀ a t, p.run h s = (.ok a, t) → ∀ n, P ((f a).after h n t)) (n : Nat) :
    P ((p.bind f).after h n s) := by
  induction p generalizing n s with
  | ret a => exact hf a s rfl n
  | fail e => exact hp n
  | op o k ih =>
    cases n with
    | zero => exact hp 0
    | succ n => exact ih _ (fun n => hp (n + 1)) hf n

end Run

section Forall

def Forall (P : S.Op → Prop) (F : ε → Prop) (Q : α → Prop) : Prog S ε α → Prop
  | .ret a => Q a
  | .fail e => F e
  | .op o k => P o ∧ ∀ r, (k r).Forall P F Q

variable {P : S.Op → Prop} {F : ε → Prop} {H : Handler S σ} {Q : α → Prop}

theorem Forall.mono {p : Prog S ε α} {F' : ε → Prop} {Q Q' : α → Prop} (h : p.Forall P F Q)
    (hf : ∀ e, F e → F' e) (hq : ∀ a, Q a → Q' a) : p.Forall P F' Q' := by
  induction p with
  | ret a => exact hq a h
  | fail e => exact hf e h
  | op o k ih => exact ⟨h.1, fun r => ih r (h.2 r)⟩

theorem Forall.bind {p : Prog S ε α} {f : α → Prog S ε β} {R : α → Prop} {Q : β → Prop}
    (hp : p.Forall P F R) (hf : ∀ a, R a → (f a).Forall P F Q) : (p.bind f).Forall P F Q := by
  induction p with
  | ret a => exact hf a hp
  | fail e => exact hp
  | op o k ih => exact ⟨hp.1, fun r => ih r (hp.2 r)⟩

theorem Forall.ite {c : Prop} [Decidable c] {p q : Prog S ε α}
    (hp : c → p.Forall P F Q) (hq : ¬c → q.Forall P F Q) : (if c then p else q).Forall P F Q := by
  split
  · exact hp ‹_›
  · exact hq ‹_›

theorem Forall.run_error {p : Prog S ε α} (h : p.Forall P F Q)
    {s t : σ} {e : ε} (hr : p.run H s = (.error e, t)) : F e := by
  induction p generalizing s with
  | ret a => cases hr
  | fail e => cases hr; exact h
  | op o k ih => exact ih _ (h.2 _) hr

theorem Forall.trace {p : Prog S ε α} (h : p.Forall P F Q) {s : σ} {o : S.Op} (ho : o ∈ p.trace H s) : P o := by
  induction p generalizing s with
  | ret a => cases ho
  | fail e => cases ho
  | op o' k ih =>
    rcases List.mem_cons.mp ho with rfl | ho
    · exact h.1
    · exact ih _ (h.2 _) ho

end Forall

end Prog
