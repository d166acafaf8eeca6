import Ext4.Base.Prog
import Mathlib.Data.List.Sublists
import Mathlib.Logic.Function.Basic

variable {V M : Type}

structure Disk (V : Type) where
  size : Nat
  durable : Nat → V
  pending : List (Nat × V)

namespace Disk

def applyWrites (ws : List (Nat × V)) (m : Nat → V) : Nat → V :=
  ws.foldl (fun m w => Function.update m w.1 w.2) m

@[simp] theorem applyWrites_nil (m : Nat → V) : applyWrites [] m = m := rfl

@[simp] theorem applyWrites_cons (w : Nat × V) (ws : List (Nat × V)) (m : Nat → V) :
    applyWrites (w :: ws) m = applyWrites ws (Function.update m w.1 w.2) := rfl

theorem applyWrites_append (ws vs : List (Nat × V)) (m : Nat → V) :
    applyWrites (ws ++ vs) m = applyWrites vs (applyWrites ws m) := by
  simp [applyWrites]

theorem applyWrites_other {ws : List (Nat × V)} {m : Nat → V} {b : Nat}
    (h : ∀ w ∈ ws, w.1 ≠ b) : applyWrites ws m b = m b := by
  induction ws generalizing m with
  | nil => rfl
  | cons w ws ih =>
    rw [applyWrites_cons, ih (fun x hx => h x (by simp [hx]))]
    exact Function.update_of_ne (h w (by simp)).symm _ _

theorem applyWrites_congr {ws : List (Nat × V)} {m m' : Nat → V} {b : Nat}
    (h : (∃ w ∈ ws, w.1 = b) ∨ m b = m' b) : applyWrites ws m b = applyWrites ws m' b := by
  induction ws generalizing m m' with
  | nil => simpa using h
  | cons w ws ih =>
    apply ih
    by_cases hw : w.1 = b
    · subst hw
      right
      simp
    · rcases h with ⟨x, hx, hb⟩ | h
      · rcases List.mem_cons.mp hx with rfl | hx
        · exact absurd hb hw
        · exact .inl ⟨x, hx, hb⟩
      · right
        simp [Function.update_of_ne (Ne.symm hw), h]

theorem applyWrites_cases (ws : List (Nat × V)) (m : Nat → V) (b : Nat) :
    applyWrites ws m b = m b ∨ (b, applyWrites ws m b) ∈ ws := by
  induction ws generalizing m with
  | nil => exact .inl rfl
  | cons w ws ih =>
    rcases ih (Function.update m w.1 w.2) with h | h
    · by_cases hw : w.1 = b
      · subst hw
        right
        simp only [Function.update_self] at h
        simp [h]
      · left
        rw [applyWrites_cons, h, Function.update_of_ne (Ne.symm hw)]
    · right
      exact List.mem_cons_of_mem _ h

def view (d : Disk V) : Nat → V := applyWrites d.pending d.durable

def read (d : Disk V) (b : Nat) : Option V := if b < d.size then some (d.view b) else none

def write (d : Disk V) (b : Nat) (v : V) : Disk V := { d with pending := d.pending ++ [(b, v)] }

def barrier (d : Disk V) : Disk V := { d with durable := d.view, pending := [] }

def Crash (d d' : Disk V) : Prop :=
  ∃ ws, ws.Sublist d.pending ∧ d' = { d with durable := applyWrites ws d.durable, pending := [] }

@[simp] theorem write_durable (d : Disk V) (b : Nat) (v : V) :
    (d.write b v).durable = d.durable := rfl
@[simp] theorem write_pending (d : Disk V) (b : Nat) (v : V) :
    (d.write b v).pending = d.pending ++ [(b, v)] := rfl
@[simp] theorem view_barrier (d : Disk V) : d.barrier.view = d.view := rfl

@[simp] theorem view_write (d : Disk V) (b : Nat) (v : V) :
    (d.write b v).view = Function.update d.view b v := by
  simp [view, applyWrites_append]

section

variable {d d' : Disk V} (h : d.Crash d')
include h

theorem Crash.pointwise (b : Nat) :
    d'.durable b = d.durable b ∨ (b, d'.durable b) ∈ d.pending := by
  obtain ⟨ws, hs, rfl⟩ := h
  exact (applyWrites_cases ws d.durable b).imp_right hs.mem

theorem Crash.size_eq : d'.size = d.size := by
  obtain ⟨ws, _, rfl⟩ := h
  rfl

theorem Crash.pending_nil : d'.pending = [] := by
  obtain ⟨ws, _, rfl⟩ := h
  rfl

theorem Crash.view_eq : d'.view = d'.durable := by
  simp [view, h.pending_nil]

end

end Disk

structure World (V M : Type) where
  disk : Disk V
  mem : M

inductive IoOp (V M : Type) where
  | read (b : Nat)
  | write (b : Nat) (v : V)
  | modify (b : Nat) (f : V → V)
  | barrier
  | observe
  | atomically (f : M → M)

abbrev IoRes : IoOp V M → Type
  | .read _ => Option V
  | .write _ _ => Bool
  | .modify _ _ => Bool
  | .barrier => Bool
  | .observe => M
  | .atomically _ => M

abbrev IoSig (V M : Type) : Sig := ⟨IoOp V M, IoRes⟩

def World.handle : Prog.Handler (IoSig V M) (World V M)
  | .read b, w => (w.disk.read b, w)
  | .write b v, w =>
    if b < w.disk.size then (true, { w with disk := w.disk.write b v }) else (false, w)
  | .modify b f, w =>
    if b < w.disk.size then (true, { w with disk := w.disk.write b (f (w.disk.view b)) })
    else (false, w)
  | .barrier, w => (true, { w with disk := w.disk.barrier })
  | .observe, w => (w.mem, w)
  | .atomically f, w => (w.mem, { w with mem := f w.mem })

def Disk.issue (d : Disk V) (ws : List (Nat × V)) : Disk V :=
  { d with pending := d.pending ++ ws }

def World.issue (w : World V M) (ws : List (Nat × V)) : World V M :=
  { w with disk := w.disk.issue ws }

@[simp] theorem Disk.issue_nil (d : Disk V) : d.issue [] = d := by simp [issue]
@[simp] theorem Disk.issue_size (d : Disk V) (ws : List (Nat × V)) : (d.issue ws).size = d.size :=
  rfl
@[simp] theorem Disk.issue_issue (d : Disk V) (ws vs : List (Nat × V)) :
    (d.issue ws).issue vs = d.issue (ws ++ vs) := by simp [issue]
@[simp] theorem World.issue_nil (w : World V M) : w.issue [] = w := by simp [issue]
@[simp] theorem World.issue_disk (w : World V M) (ws : List (Nat × V)) :
    (w.issue ws).disk = w.disk.issue ws := rfl
@[simp] theorem World.issue_issue (w : World V M) (ws vs : List (Nat × V)) :
    (w.issue ws).issue vs = w.issue (ws ++ vs) := by simp [issue]

theorem Disk.view_issue (d : Disk V) (ws : List (Nat × V)) :
    (d.issue ws).view = applyWrites ws d.view := by simp [issue, view, applyWrites_append]

theorem Disk.read_issue_other {d : Disk V} {ws : List (Nat × V)} {b : Nat}
    (h : ∀ w ∈ ws, w.1 ≠ b) : (d.issue ws).read b = d.read b := by
  simp [Disk.read, Disk.view_issue, Disk.applyWrites_other h]

namespace Io

variable {ε : Type}

def read (b : Nat) : Prog (IoSig V M) ε (Option V) := .op (.read b) .ret
def write (b : Nat) (v : V) : Prog (IoSig V M) ε Bool := .op (.write b v) .ret
def modify (b : Nat) (f : V → V) : Prog (IoSig V M) ε Bool := .op (.modify b f) .ret
def barrier : Prog (IoSig V M) ε Bool := .op .barrier .ret
def observe : Prog (IoSig V M) ε M := .op .observe .ret
def atomically (f : M → M) : Prog (IoSig V M) ε M := .op (.atomically f) .ret

def update (f : M → Except ε M) : Prog (IoSig V M) ε Unit := do
  let m ← atomically fun m => (f m).toOption.getD m
  Prog.ofExcept ((f m).map fun _ => ())

variable {α : Type}

theorem run_atomically_bind (f : M → M) (k : M → Prog (IoSig V M) ε α) (w : World V M) :
    ((atomically f).bind k).run World.handle w =
      (k w.mem).run World.handle { w with mem := f w.mem } := rfl

end Io
