import Ext4.Base.Disk
import Ext4.Base.Thread

variable {V M ε α β σ : Type}

namespace Disk

structure Agree (A : Nat → Prop) (d e : Disk V) : Prop where
  size_eq : e.size = d.size
  view_eq : ∀ b, A b → e.view b = d.view b

variable {A : Nat → Prop} {d e : Disk V}

theorem Agree.refl (A : Nat → Prop) (d : Disk V) : Agree A d d := ⟨rfl, fun _ _ => rfl⟩

theorem Agree.read_eq (h : Agree A d e) {b : Nat} (hb : A b) : e.read b = d.read b := by
  rw [Disk.read, Disk.read, h.size_eq, h.view_eq b hb]

theorem Agree.issue (h : Agree A d e) {ws : List (Nat × V)} (hws : ∀ x ∈ ws, ¬A x.1) :
    Agree A d (e.issue ws) := by
  refine ⟨h.size_eq, fun b hb => ?_⟩
  rw [view_issue, applyWrites_other fun x hx he => hws x hx (he ▸ hb)]
  exact h.view_eq b hb

end Disk

def IoOp.ReadsIn (A : Nat → Prop) (o : IoOp V M) : Prop := ∃ b, A b ∧ o = .read b

namespace Prog

def Local (A : Nat → Prop) (d : Disk V) (Q : α → Prop) : Prog (IoSig V M) ε α → Prop
  | .ret a => Q a
  | .fail _ => True
  | .op (.read b) k => A b ∧ (k (d.read b)).Local A d Q
  | .op (.write b _) k => ¬A b ∧ (k (decide (b < d.size))).Local A d Q
  | .op _ _ => False

variable {A : Nat → Prop} {d : Disk V} {Q : α → Prop} {F : ε → Prop} {p : Prog (IoSig V M) ε α}

theorem Local.bind {f : α → Prog (IoSig V M) ε β} {R : β → Prop}
    (hp : p.Local A d Q) (hf : ∀ a, Q a → (f a).Local A d R) : (p.bind f).Local A d R := by
  induction p with
  | ret a => exact hf a hp
  | fail e => trivial
  | op o k ih =>
    cases o with
    | read b => exact ⟨hp.1, ih _ hp.2⟩
    | write b v => exact ⟨hp.1, ih _ hp.2⟩
    | modify b f => exact hp.elim
    | barrier => exact hp.elim
    | observe => exact hp.elim
    | atomically f => exact hp.elim

theorem Local.ite {c : Prop} [Decidable c] {p q : Prog (IoSig V M) ε α}
    (hp : c → p.Local A d Q) (hq : ¬c → q.Local A d Q) : (if c then p else q).Local A d Q := by
  split
  · exact hp ‹_›
  · exact hq ‹_›

section

variable (hp : p.Forall (IoOp.ReadsIn A) F Q)

include hp

theorem Local.of_reads : p.Local A d Q := by
  induction p with
  | ret a => exact hp
  | fail e => trivial
  | op o k ih =>
    obtain ⟨⟨b, hb, rfl⟩, hk⟩ := hp
    exact ⟨hb, ih _ (hk _)⟩

theorem run_of_reads (w : World V M) : (p.run World.handle w).2 = w := by
  induction p with
  | ret a => rfl
  | fail e => rfl
  | op o k ih =>
    obtain ⟨⟨b, -, rfl⟩, hk⟩ := hp
    exact ih _ (hk _)

theorem after_of_reads (n : Nat) (w : World V M) :
    p.after World.handle n w = w := by
  induction p generalizing n with
  | ret a => rfl
  | fail e => rfl
  | op o k ih =>
    obtain ⟨⟨b, -, rfl⟩, hk⟩ := hp
    cases n with
    | zero => rfl
    | succ n => exact ih _ (hk _) n

end

theorem Local.spec (hp : p.Local A d Q) :
    ∃ res ws, (∀ x ∈ ws, ¬A x.1) ∧ (∀ a, res = .ok a → Q a) ∧
      ∀ w : World V M, d.Agree A w.disk → p.run World.handle w = (res, w.issue ws) ∧
        ∀ n, ∃ us, us <+: ws ∧ p.after World.handle n w = w.issue us := by
  induction p with
  | ret a =>
    refine ⟨.ok a, [], nofun, ?_, fun w _ => ⟨by simp, fun n => ⟨[], List.nil_prefix, ?_⟩⟩⟩
    · rintro _ ⟨⟩
      exact hp
    · simp [after]
  | fail e =>
    refine ⟨.error e, [], nofun, nofun, fun w _ => ⟨by simp, fun n => ⟨[], List.nil_prefix, ?_⟩⟩⟩
    simp [after]
  | op o k ih =>
    cases o with
    | read b =>
      obtain ⟨res, ws, hws, hres, hrun⟩ := ih _ hp.2
      refine ⟨res, ws, hws, hres, fun w hw => ?_⟩
      have hstep : World.handle (.read b) w = (d.read b, w) := by
        rw [World.handle, hw.read_eq hp.1]
      refine ⟨?_, fun n => ?_⟩
      · rw [run_op, hstep]
        exact (hrun w hw).1
      · cases n with
        | zero => exact ⟨[], List.nil_prefix, by simp [after]⟩
        | succ n =>
          rw [after, hstep]
          exact (hrun w hw).2 n
    | write b v =>
      obtain ⟨res, ws, hws, hres, hrun⟩ := ih _ hp.2
      by_cases hb : b < d.size
      · have hout : ∀ x ∈ [(b, v)], ¬A x.1 := by simpa using hp.1
        refine ⟨res, (b, v) :: ws, ?_, hres, fun w hw => ?_⟩
        · intro x hx
          rcases List.mem_cons.mp hx with rfl | hx
          · exact hp.1
          · exact hws x hx
        have hstep : World.handle (.write b v) w = (decide (b < d.size), w.issue [(b, v)]) := by
          simp only [World.handle, hw.size_eq, if_pos hb, decide_eq_true hb]
          rfl
        have hw' : d.Agree A (w.issue [(b, v)]).disk := hw.issue hout
        refine ⟨?_, fun n => ?_⟩
        · rw [run_op, hstep]
          exact (hrun _ hw').1.trans (by simp)
        · cases n with
          | zero => exact ⟨[], List.nil_prefix, by simp [after]⟩
          | succ n =>
            rw [after, hstep]
            obtain ⟨us, hus, he⟩ := (hrun _ hw').2 n
            exact ⟨(b, v) :: us, by simpa using hus, he.trans (by simp)⟩
      · refine ⟨res, ws, hws, hres, fun w hw => ?_⟩
        have hstep : World.handle (.write b v) w = (decide (b < d.size), w) := by
          simp only [World.handle, hw.size_eq, if_neg hb, decide_eq_false hb]
        refine ⟨?_, fun n => ?_⟩
        · rw [run_op, hstep]
          exact (hrun w hw).1
        · cases n with
          | zero => exact ⟨[], List.nil_prefix, by simp [after]⟩
          | succ n =>
            rw [after, hstep]
            exact (hrun w hw).2 n
    | modify b f => exact hp.elim
    | barrier => exact hp.elim
    | observe => exact hp.elim
    | atomically f => exact hp.elim

end Prog
