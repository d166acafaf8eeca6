def Op (σ ε α : Type) : Type := σ → Except ε α × σ

namespace Op

variable {σ τ ε α β : Type} {r : Except ε α}

def ret (a : α) : Op σ ε α := fun s => (.ok a, s)

def fail (e : ε) : Op σ ε α := fun s => (.error e, s)

def bind (m : Op σ ε α) (f : α → Op σ ε β) : Op σ ε β := fun s =>
  match m s with
  | (.ok a, s) => f a s
  | (.error e, s) => (.error e, s)

instance : Monad (Op σ ε) where
  pure := ret
  bind := bind

section

variable {m : Op σ ε α} {f : α → Op σ ε β} {s s' : σ}

theorem bind_ok {a : α} (h : m s = (.ok a, s')) :
    (m >>= f) s = f a s' := by
  change Op.bind m f s = f a s'
  rw [Op.bind, h]

theorem bind_error {e : ε} (h : m s = (.error e, s')) :
    (m >>= f) s = (.error e, s') := by
  change Op.bind m f s = (.error e, s')
  rw [Op.bind, h]

end

theorem run_eq {m : Op σ ε α} {s : σ} (h : (m s).1 = r) : m s = (r, (m s).2) := by
  rw [← h]

def get : Op σ ε σ := fun s => (.ok s, s)

theorem get_bind (f : σ → Op σ ε β) (s : σ) : ((get : Op σ ε σ) >>= f) s = f s s := rfl

def modify (f : σ → σ) : Op σ ε Unit := fun s => (.ok (), f s)

def ofExcept : Except ε α → Op σ ε α
  | .ok a => ret a
  | .error e => fail e

theorem ofExcept_ok {a : α} (h : r = .ok a) (s : σ) :
    (ofExcept r : Op σ ε α) s = (.ok a, s) := by
  rw [h]
  rfl

def attempt (m : Op σ ε α) : Op σ ε (Except ε α) := fun s =>
  match m s with
  | (r, s) => (.ok r, s)

theorem attempt_eq {m : Op σ ε α} {s s' : σ} (h : m s = (r, s')) : attempt m s = (.ok r, s') := by
  rw [attempt, h]

def zoom (get : τ → σ) (put : σ → τ → τ) (m : Op σ ε α) : Op τ ε α := fun t =>
  match m (get t) with
  | (r, s) => (r, put s t)

def when (c : Prop) [Decidable c] (m : Op σ ε Unit) : Op σ ε Unit := if c then m else ret ()

def each (f : α → Op σ ε Unit) : List α → Op σ ε Unit
  | [] => ret ()
  | a :: as => do
    f a
    each f as

def Ends (m : Op σ ε α) (s : σ) (Q : α → σ → Prop) (E : ε → σ → Prop) : Prop :=
  match m s with
  | (.ok a, s) => Q a s
  | (.error e, s) => E e s

abbrev Leaves (m : Op σ ε α) (s : σ) (P : σ → Prop) : Prop := m.Ends s (fun _ => P) fun _ => P

namespace Ends

variable {m : Op σ ε α} {f : α → Op σ ε β} {s : σ} {Q Q' : α → σ → Prop} {R : β → σ → Prop}
  {E E' : ε → σ → Prop} {g : σ → σ} {s' : σ} {a : α}

theorem ret (h : Q a s) : (Op.ret a : Op σ ε α).Ends s Q E := h

theorem fail {e : ε} (h : E e s) : (Op.fail e : Op σ ε α).Ends s Q E := h

theorem mono (h : m.Ends s Q E) (hQ : ∀ a s, Q a s → Q' a s) (hE : ∀ e s, E e s → E' e s) :
    m.Ends s Q' E' := by
  unfold Ends at h ⊢
  cases hm : m s with
  | mk r s' =>
    rw [hm] at h
    cases r with
    | ok a => exact hQ a s' h
    | error e => exact hE e s' h

theorem bind (hm : m.Ends s Q E) (hf : ∀ a s', Q a s' → (f a).Ends s' R E) :
    (m >>= f).Ends s R E := by
  change (Op.bind m f).Ends s R E
  unfold Ends at hm ⊢
  unfold Op.bind
  cases h : m s with
  | mk r s' =>
    rw [h] at hm
    cases r with
    | ok a => exact hf a s' hm
    | error e => exact hm

theorem bindOr (hm : m.Ends s Q E') (hE : ∀ e s', E' e s' → E e s')
    (hf : ∀ a s', Q a s' → (f a).Ends s' R E) : (m >>= f).Ends s R E :=
  (hm.mono (fun _ _ h => h) hE).bind hf

theorem bind_same {P : α → Prop} (hm : m.Ends s (fun a s' => s' = s ∧ P a) fun _ s' => s' = s)
    (hE : ∀ e, E e s) (hf : ∀ a, P a → (f a).Ends s R E) : (m >>= f).Ends s R E :=
  hm.bindOr (fun e _ h => h ▸ hE e) fun a _ h => h.1 ▸ hf a h.2

theorem bind_of_eq (h : m s = (.ok a, s')) (hf : (f a).Ends s' R E) :
    (m >>= f).Ends s R E := by
  unfold Ends
  rw [Op.bind_ok h]
  exact hf

theorem modify {Q : Unit → σ → Prop} (h : Q () (g s)) :
    (Op.modify g : Op σ ε Unit).Ends s Q E := h

theorem bind_get {f : σ → Op σ ε β} (h : (f s).Ends s R E) : (Op.get >>= f).Ends s R E := h

theorem bind_modify {f : Unit → Op σ ε β} (h : (f ()).Ends (g s) R E) :
    (Op.modify g >>= f).Ends s R E := h

theorem ofExcept {r : Except ε α} (hok : ∀ a, r = .ok a → Q a s) (herr : ∀ e, r = .error e → E e s) :
    (Op.ofExcept r : Op σ ε α).Ends s Q E := by
  cases r with
  | ok a => exact hok a rfl
  | error e => exact herr e rfl

theorem attempt {Q : Except ε α → σ → Prop} (h : m.Ends s (fun a s => Q (.ok a) s) fun e s => Q (.error e) s) :
    (Op.attempt m).Ends s Q E := by
  unfold Ends at h ⊢
  unfold Op.attempt
  cases hm : m s with
  | mk r s' =>
    rw [hm] at h
    cases r with
    | ok a => exact h
    | error e => exact h

theorem zoom {get : τ → σ} {put : σ → τ → τ} {t : τ} {Q : α → τ → Prop} {E : ε → τ → Prop}
    (h : m.Ends (get t) (fun a s => Q a (put s t)) fun e s => E e (put s t)) :
    (Op.zoom get put m).Ends t Q E := by
  unfold Ends at h ⊢
  unfold Op.zoom
  cases hm : m (get t) with
  | mk r s' =>
    rw [hm] at h
    cases r with
    | ok a => exact h
    | error e => exact h

theorem when {c : Prop} [Decidable c] {m : Op σ ε Unit} {Q : Unit → σ → Prop}
    (hpos : c → m.Ends s Q E) (hneg : ¬c → Q () s) : (Op.when c m).Ends s Q E := by
  by_cases h : c
  · rw [Op.when, if_pos h]
    exact hpos h
  · rw [Op.when, if_neg h]
    exact hneg h

theorem and (h : m.Ends s Q E) (h' : m.Ends s Q' E') :
    m.Ends s (fun a s => Q a s ∧ Q' a s) fun e s => E e s ∧ E' e s := by
  unfold Ends at h h' ⊢
  cases hm : m s with
  | mk r s' =>
    rw [hm] at h h'
    cases r with
    | ok a => exact ⟨h, h'⟩
    | error e => exact ⟨h, h'⟩

theorem of_ok (h : m.Ends s Q E) (hm : m s = (.ok a, s')) : Q a s' := by
  unfold Ends at h
  rw [hm] at h
  exact h

theorem of_error {e : ε} (h : m.Ends s Q E) (hm : m s = (.error e, s')) : E e s' := by
  unfold Ends at h
  rw [hm] at h
  exact h

theorem intro (hok : ∀ a s', m s = (.ok a, s') → Q a s') (herr : ∀ e s', m s = (.error e, s') → E e s') :
    m.Ends s Q E := by
  unfold Ends
  cases hm : m s with
  | mk r s' =>
    cases r with
    | ok a => exact hok a s' hm
    | error e => exact herr e s' hm

theorem state {P : σ → Prop} (h : m.Leaves s P) : P (m s).2 := by
  unfold Leaves Ends at h
  cases hm : m s with
  | mk r s' =>
    rw [hm] at h
    cases r with
    | ok a => exact h
    | error e => exact h

theorem both {P P' : σ → Prop} (h : m.Leaves s P) (hP : ∀ s, P s → P' s) : m.Leaves s P' :=
  h.mono (fun _ => hP) fun _ => hP

theorem any (m : Op σ ε α) (s : σ) : m.Leaves s fun _ => True :=
  .intro (fun _ _ _ => trivial) fun _ _ _ => trivial

end Ends

end Op
