import Ext4.Base.Prog
import Mathlib.Logic.Relation

structure Machine (S : Sig) (σ : Type) where
  handle : Prog.Handler S σ
  rely : σ → σ → Prop

structure Contract (S : Sig) (σ : Type) extends Machine S σ where
  inv : σ → Prop
  guard : σ → S.Op → Prop

variable {S : Sig} {ε α β σ : Type} {Idle : σ → Prop}

def Machine.Stable (M : Machine S σ) (P : σ → Prop) : Prop := ∀ s t, P s → M.rely s t → P t

theorem Machine.Stable.star {M : Machine S σ} {P : σ → Prop} (h : M.Stable P) {s t : σ} (hs : P s)
    (ht : Relation.ReflTransGen M.rely s t) : P t := by
  induction ht with
  | refl => exact hs
  | tail _ hstep ih => exact h _ _ ih hstep

namespace Prog

def Safe (C : Contract S σ) : Prog S ε α → (Except ε α → σ → Prop) → σ → Prop
  | .ret a, Q, s => ∀ t, Relation.ReflTransGen C.rely s t → C.inv t ∧ Q (.ok a) t
  | .fail e, Q, s => ∀ t, Relation.ReflTransGen C.rely s t → C.inv t ∧ Q (.error e) t
  | .op o k, Q, s => ∀ t, Relation.ReflTransGen C.rely s t →
      C.inv t ∧ C.guard t o ∧ (k (C.handle o t).1).Safe C Q (C.handle o t).2

variable {C : Contract S σ} {p : Prog S ε α}

theorem Safe.rely {Q : Except ε α → σ → Prop} {s t : σ} (hp : p.Safe C Q s) (hr : C.rely s t) : p.Safe C Q t := by
  cases p with
  | ret a => exact fun u hu => hp u (.head hr hu)
  | fail e => exact fun u hu => hp u (.head hr hu)
  | op o k => exact fun u hu => hp u (.head hr hu)

theorem Safe.inv {Q : Except ε α → σ → Prop} {s : σ} (hp : p.Safe C Q s) :
    C.inv s := by
  cases p with
  | ret a => exact (hp s .refl).1
  | fail e => exact (hp s .refl).1
  | op o k => exact (hp s .refl).1

theorem Safe.mono {Q Q' : Except ε α → σ → Prop} {s : σ} (hp : p.Safe C Q s)
    (hq : ∀ r t, Q r t → Q' r t) : p.Safe C Q' s := by
  induction p generalizing s with
  | ret a => exact fun t ht => ⟨(hp t ht).1, hq _ _ (hp t ht).2⟩
  | fail e => exact fun t ht => ⟨(hp t ht).1, hq _ _ (hp t ht).2⟩
  | op o k ih => exact fun t ht => ⟨(hp t ht).1, (hp t ht).2.1, ih _ (hp t ht).2.2⟩

theorem Safe.bind {f : α → Prog S ε β} {Q : Except ε β → σ → Prop} {s : σ}
    {R : Except ε α → σ → Prop} (hp : p.Safe C R s) (hok : ∀ a t, R (.ok a) t → (f a).Safe C Q t)
    (herr : ∀ e t, R (.error e) t → Q (.error e) t) : (p.bind f).Safe C Q s := by
  induction p generalizing s with
  | ret a => exact hok a s (hp s .refl).2
  | fail e => exact fun t ht => ⟨(hp t ht).1, herr e t (hp t ht).2⟩
  | op o k ih => exact fun t ht => ⟨(hp t ht).1, (hp t ht).2.1, ih _ (hp t ht).2.2⟩

theorem Safe.attempt {Q : Except ε (Except ε α) → σ → Prop} {s : σ}
    (hp : p.Safe C (fun r t => Q (.ok r) t) s) : p.attempt.Safe C Q s := by
  induction p generalizing s with
  | ret a => exact hp
  | fail e => exact hp
  | op o k ih => exact fun t ht => ⟨(hp t ht).1, (hp t ht).2.1, ih _ (hp t ht).2.2⟩

section Rules
variable {P : σ → Prop} (hR : C.Stable P) (hI : ∀ t, P t → C.inv t) {s : σ} (hs : P s) {Q : Except ε α → σ → Prop}
include hR hI hs

theorem Safe.ret {a : α} (hQ : ∀ t, P t → Q (.ok a) t) :
    (ret a : Prog S ε α).Safe C Q s :=
  fun t ht => ⟨hI t (hR.star hs ht), hQ t (hR.star hs ht)⟩

theorem Safe.fail {e : ε} (hQ : ∀ t, P t → Q (.error e) t) :
    (fail e : Prog S ε α).Safe C Q s :=
  fun t ht => ⟨hI t (hR.star hs ht), hQ t (hR.star hs ht)⟩

theorem Safe.op {o : S.Op} {k : S.Res o → Prog S ε α} (hg : ∀ t, P t → C.guard t o)
    (hk : ∀ t, P t → (k (C.handle o t).1).Safe C Q (C.handle o t).2) : (op o k).Safe C Q s :=
  fun t ht => ⟨hI t (hR.star hs ht), hg t (hR.star hs ht), hk t (hR.star hs ht)⟩

end Rules

theorem Safe.of_forall {P : σ → Prop} {K : S.Op → Prop} {F : ε → Prop} {R : α → Prop}
    (hp : p.Forall K F R) (hR : C.Stable P) (hI : ∀ t, P t → C.inv t)
    (hK : ∀ t o, K o → P t → C.guard t o ∧ P (C.handle o t).2) {s : σ} (hs : P s) :
    p.Safe C (fun _ => P) s := by
  induction p generalizing s with
  | ret a => exact .ret hR hI hs fun _ ht => ht
  | fail e => exact .fail hR hI hs fun _ ht => ht
  | op o k ih => exact .op hR hI hs (fun t ht => (hK t o hp.1 ht).1) fun t ht => ih _ (hp.2 _) (hK t o hp.1 ht).2

end Prog

structure Config (S : Sig) (ε σ : Type) where
  state : σ
  task : Option (Prog S ε Unit)

section Runs
variable (M : Machine S σ) (start : σ → σ → Prog S ε Unit → Prop)

inductive Machine.Step : Config S ε σ → Config S ε σ → Prop
  | rely {s t task} (h : M.rely s t) : Step ⟨s, task⟩ ⟨t, task⟩
  | start {s t p} (h : start s t p) : Step ⟨s, none⟩ ⟨t, some p⟩
  | op {s o k} : Step ⟨s, some (.op o k)⟩ ⟨(M.handle o s).2, some (k (M.handle o s).1)⟩
  | ret {s} : Step ⟨s, some (.ret ())⟩ ⟨s, none⟩
  | fail {s e} : Step ⟨s, some (.fail e)⟩ ⟨s, none⟩

def Machine.Reaches : Config S ε σ → Config S ε σ → Prop := Relation.ReflTransGen (M.Step start)

end Runs

def Contract.Holds (C : Contract S σ) (Idle : σ → Prop) (c : Config S ε σ) : Prop :=
  match c.task with
  | none => Idle c.state
  | some p => p.Safe C (fun _ => Idle) c.state

theorem Contract.holds_of_reaches {C : Contract S σ} {start : σ → σ → Prog S ε Unit → Prop} (hstable : C.Stable Idle)
    (hstart : ∀ s t p, Idle s → start s t p → p.Safe C (fun _ => Idle) t) {c d : Config S ε σ}
    (hc : C.Holds Idle c) (h : C.Reaches start c d) : C.Holds Idle d := by
  induction h with
  | refl => exact hc
  | tail _ hstep ih =>
    cases hstep with
    | @rely s t task hr =>
      cases task with
      | none => exact hstable s t ih hr
      | some p => exact Prog.Safe.rely ih hr
    | start hs => exact hstart _ _ _ ih hs
    | op => exact (ih _ .refl).2.2
    | ret => exact (ih _ .refl).2
    | fail => exact (ih _ .refl).2

theorem Contract.Holds.inv {C : Contract S σ} (hI : ∀ s, Idle s → C.inv s)
    {c : Config S ε σ} (h : C.Holds Idle c) : C.inv c.state := by
  obtain ⟨s, task⟩ := c
  cases task with
  | none => exact hI s h
  | some p => exact Prog.Safe.inv h

theorem Contract.Holds.guard {C : Contract S σ} {s : σ} {o : S.Op}
    {k : S.Res o → Prog S ε Unit} (h : C.Holds Idle ⟨s, some (.op o k)⟩) : C.guard s o :=
  (h s .refl).2.1
