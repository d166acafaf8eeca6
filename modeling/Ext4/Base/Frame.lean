import Ext4.Base.Op
import Mathlib.Order.Defs.Unbundled

namespace Op

variable {σ τ ε α β : Type}

def Keeps (R : σ → σ → Prop) (m : Op σ ε α) : Prop := ∀ s, R s (m s).2

namespace Keeps

variable {R : σ → σ → Prop} [IsPreorder σ R] {m : Op σ ε α} {f : α → Op σ ε β}

theorem ret (a : α) : Keeps R (Op.ret a : Op σ ε α) := fun s => refl_of R s

theorem fail (e : ε) : Keeps R (Op.fail e : Op σ ε α) := fun s => refl_of R s

theorem get : Keeps R (Op.get : Op σ ε σ) := fun s => refl_of R s

theorem ofExcept (r : Except ε α) : Keeps R (Op.ofExcept r : Op σ ε α) := by
  cases r with
  | ok a => exact ret a
  | error e => exact fail e

omit [IsPreorder σ R] in
theorem attempt (hm : Keeps R m) : Keeps R (Op.attempt m) := by
  intro s
  exact hm s

omit [IsPreorder σ R] in
theorem bind_comp {S T : σ → σ → Prop} (hm : Keeps R m) (hf : ∀ a, Keeps S (f a))
    (hfail : ∀ a b, R a b → T a b) (hcomp : ∀ a b c, R a b → S b c → T a c) :
    Keeps T (m >>= f) := by
  intro s
  change T s (Op.bind m f s).2
  have hfirst := hm s
  unfold Op.bind
  cases hrun : m s with
  | mk r s' =>
    rw [hrun] at hfirst
    cases r with
    | ok a => exact hcomp _ _ _ hfirst (hf a s')
    | error e => exact hfail _ _ hfirst

theorem bind (hm : Keeps R m) (hf : ∀ a, Keeps R (f a)) : Keeps R (m >>= f) :=
  bind_comp hm hf (fun _ _ h => h) fun _ _ _ => trans_of R

theorem when {c : Prop} [Decidable c] {m : Op σ ε Unit} (hm : c → Keeps R m) :
    Keeps R (Op.when c m) := by
  unfold Op.when
  split
  next h => exact hm h
  · exact ret ()

theorem each {g : α → Op σ ε Unit} {as : List α} (hg : ∀ a ∈ as, Keeps R (g a)) :
    Keeps R (Op.each g as) := by
  induction as with
  | nil => exact ret ()
  | cons a as ih =>
    refine bind (hg a List.mem_cons_self) fun _ => ih fun b hb => hg b (List.mem_cons_of_mem a hb)

omit [IsPreorder σ R] in
theorem modify {g : σ → σ} (hg : ∀ s, R s (g s)) : Keeps R (Op.modify g : Op σ ε Unit) := hg

omit [IsPreorder σ R] in
theorem zoom {get : τ → σ} {put : σ → τ → τ} {S : τ → τ → Prop} (m : Op σ ε α)
    (hput : ∀ t s, S t (put s t)) : Keeps S (Op.zoom get put m) := fun t => hput t (m (get t)).2

omit [IsPreorder σ R] in
theorem lift {get : τ → σ} {put : σ → τ → τ} {S : τ → τ → Prop} (hm : Keeps R m)
    (hput : ∀ t s, R (get t) s → S t (put s t)) : Keeps S (Op.zoom get put m) := fun t =>
  hput t _ (hm (get t))

omit [IsPreorder σ R] in
theorem mono {S : σ → σ → Prop} (hm : Keeps R m) (h : ∀ a b, R a b → S a b) : Keeps S m :=
  fun s => h _ _ (hm s)

omit [IsPreorder σ R] in
theorem ends (hm : Keeps R m) (s : σ) : m.Leaves s (R s) := by
  have hrun := hm s
  refine .intro (fun a s' h => ?_) fun e s' h => ?_
  · rwa [h] at hrun
  · rwa [h] at hrun

omit [IsPreorder σ R] in
theorem of_ends (h : ∀ s, m.Leaves s (R s)) : Keeps R m := fun s => (h s).state

end Keeps

def Guards (c : Op σ ε α) (m : Op σ ε β) : Prop := ∀ s e s', c s = (.error e, s') → m s = (.error e, s')

namespace Guards

variable {γ δ : Type} {c : Op σ ε α} {m : Op σ ε β} {f : α → Op σ ε γ} {g : α → Op σ ε δ}

theorem ret (a : α) (m : Op σ ε β) : Guards (Op.ret a : Op σ ε α) m := by
  intro s e s' h
  cases h

theorem fail (e : ε) : Guards (Op.fail e : Op σ ε α) (Op.fail e : Op σ ε β) := by
  intro s e' s' h
  cases h
  rfl

theorem bind (x : Op σ ε α) (h : ∀ a, Guards (f a) (g a)) : Guards (x >>= f) (x >>= g) := by
  intro s e s' hrun
  cases hx : x s with
  | mk r s1 =>
    cases r with
    | error e1 =>
      rw [Op.bind_error hx] at hrun ⊢
      cases hrun
      rfl
    | ok a =>
      rw [Op.bind_ok hx] at hrun ⊢
      exact h a s1 e s' hrun

theorem trans {m' : Op σ ε γ} (h : Guards c m) (h' : Guards m m') : Guards c m' :=
  fun s e s' hrun => h' s e s' (h s e s' hrun)

theorem first (c : Op σ ε α) (g : α → Op σ ε δ) : Guards c (c >>= g) :=
  fun _ _ _ hrun => Op.bind_error hrun

theorem discard (c : Op σ ε α) : Guards (c >>= fun _ => (Op.ret () : Op σ ε Unit)) c := by
  intro s e s' hrun
  cases hc : c s with
  | mk r s1 =>
    cases r with
    | error e1 =>
      rw [Op.bind_error hc] at hrun
      cases hrun
      rfl
    | ok a =>
      rw [Op.bind_ok hc] at hrun
      cases hrun

end Guards

def Raises (P : ε → Prop) (m : Op σ ε α) : Prop := ∀ s, m.Ends s (fun _ _ => True) fun e _ => P e

namespace Raises

variable {P : ε → Prop} {m : Op σ ε α} {f : α → Op σ ε β}

theorem of_error (h : Raises P m) {s s' : σ} {e : ε} (hrun : m s = (.error e, s')) : P e :=
  (h s).of_error hrun

theorem ret (a : α) : Raises P (Op.ret a : Op σ ε α) := fun _ => trivial

theorem fail {e : ε} (he : P e) : Raises P (Op.fail e : Op σ ε α) := fun _ => he

theorem get : Raises P (Op.get : Op σ ε σ) := fun _ => trivial

theorem modify (g : σ → σ) : Raises P (Op.modify g : Op σ ε Unit) := fun _ => trivial

theorem attempt (m : Op σ ε α) : Raises P (Op.attempt m) := fun s =>
  .attempt ((Op.Ends.any m s).both fun _ _ => trivial)

theorem ofExcept {r : Except ε α} (h : ∀ e, r = .error e → P e) : Raises P (Op.ofExcept r : Op σ ε α) :=
  fun _ => .ofExcept (fun _ _ => trivial) h

theorem bind (hm : Raises P m) (hf : ∀ a, Raises P (f a)) : Raises P (m >>= f) := fun s =>
  (hm s).bind fun a s' _ => hf a s'

theorem mono {P' : ε → Prop} (hm : Raises P m) (h : ∀ e, P e → P' e) : Raises P' m := fun s =>
  (hm s).mono (fun _ _ ht => ht) fun e _ => h e

theorem bind_attempt {f : Except ε α → Op σ ε β} (hm : Raises P m) (hok : ∀ a, Raises P (f (.ok a)))
    (herr : ∀ e, P e → Raises P (f (.error e))) : Raises P (Op.attempt m >>= f) := fun s =>
  Op.Ends.bind (Q := fun res _ => Raises P (f res))
    (.attempt ((hm s).mono (fun a _ _ => hok a) fun e _ he => herr e he)) fun _ s' h => h s'

theorem when {c : Prop} [Decidable c] {m : Op σ ε Unit} (hm : Raises P m) : Raises P (Op.when c m) := fun s =>
  .when (fun _ => hm s) fun _ => trivial

theorem each {g : α → Op σ ε Unit} (hg : ∀ a, Raises P (g a)) (as : List α) : Raises P (Op.each g as) := by
  induction as with
  | nil => exact ret ()
  | cons a as ih => exact bind (hg a) fun _ => ih

theorem zoom {get : τ → σ} {put : σ → τ → τ} (hm : Raises P m) : Raises P (Op.zoom get put m) := fun t =>
  .zoom (hm (get t))

end Raises

def Obeys (R : σ → σ → Prop) (P : ε → Prop) (m : Op σ ε α) : Prop := Keeps R m ∧ Raises P m

namespace Obeys

variable {R : σ → σ → Prop} [IsPreorder σ R] {P : ε → Prop} {m : Op σ ε α} {f : α → Op σ ε β}

theorem ret (a : α) : Obeys R P (Op.ret a : Op σ ε α) := ⟨.ret a, .ret a⟩

theorem fail {e : ε} (he : P e) : Obeys R P (Op.fail e : Op σ ε α) := ⟨.fail e, .fail he⟩

theorem get : Obeys R P (Op.get : Op σ ε σ) := ⟨.get, .get⟩

theorem ofExcept {r : Except ε α} (h : ∀ e, r = .error e → P e) : Obeys R P (Op.ofExcept r : Op σ ε α) :=
  ⟨.ofExcept r, .ofExcept h⟩

theorem bind (hm : Obeys R P m) (hf : ∀ a, Obeys R P (f a)) : Obeys R P (m >>= f) :=
  ⟨.bind hm.1 fun a => (hf a).1, .bind hm.2 fun a => (hf a).2⟩

theorem each {g : α → Op σ ε Unit} (hg : ∀ a, Obeys R P (g a)) (as : List α) : Obeys R P (Op.each g as) :=
  ⟨.each fun a _ => (hg a).1, .each (fun a => (hg a).2) as⟩

theorem bind_attempt {f : Except ε α → Op σ ε β} {c : Op σ ε Unit} (hm : Obeys R P m)
    (hok : ∀ a, Obeys R P (f (.ok a))) (hc : Obeys R P c) (herr : ∀ e, f (.error e) = c >>= fun _ => Op.fail e) :
    Obeys R P (Op.attempt m >>= f) := by
  refine ⟨.bind (.attempt hm.1) fun res => ?_, .bind_attempt hm.2 (fun a => (hok a).2) fun e he => ?_⟩
  · cases res with
    | ok a => exact (hok a).1
    | error e =>
      rw [herr]
      exact .bind hc.1 fun _ => .fail e
  · rw [herr]
    exact .bind hc.2 fun _ => .fail he

omit [IsPreorder σ R] in
theorem lift {get : τ → σ} {put : σ → τ → τ} {S : τ → τ → Prop} (hm : Obeys R P m)
    (hput : ∀ t s, R (get t) s → S t (put s t)) : Obeys S P (Op.zoom get put m) := ⟨.lift hm.1 hput, .zoom hm.2⟩

omit [IsPreorder σ R] in
theorem mono {S : σ → σ → Prop} (hm : Obeys R P m) (h : ∀ a b, R a b → S a b) : Obeys S P m := ⟨hm.1.mono h, hm.2⟩

end Obeys

end Op
