import Ext4.Journal.Pipeline

namespace Ext4

open JournalState

inductive CommitAction where
  | exit
  | advance
  | rearm
  deriving DecidableEq

namespace Journal

def ageKey (st : JournalState) : Option Tid := st.committableRunning.map Transaction.tid

def ageDeadline (j : Journal) : Option Tid := if j.aborted then none else ageKey j.state

def pollCommitAction (g : JournalGeometry) (stop expired : Bool) (armedAgeKey : Option Tid) (j : Journal) :
    Option CommitAction :=
  if stop then some .exit
  else if j.aborted then none
  else if j.state.committing.isSome then none
  else if j.spacePressure then some .advance
  else match j.state.locking with
    | some locked => if locked.tUpdates = 0 then some .advance else none
    | none =>
      if j.state.committableRunning.any fun txn => commitTriggered g txn expired j.state.commitRequest then
        some .advance
      else if ageKey j.state ≠ armedAgeKey then some .rearm
      else none

def syncDurabilityTarget (j : Journal) : Except Fault (Option Tid) :=
  match (j.state.running.or j.state.locking).filter j.state.hasDurableObligation with
  | some txn => .ok (some txn.tid)
  | none =>
    match j.state.committing.map CommittingTxn.tid with
    | some tid => .ok (some tid)
    | none => if j.aborted then .error (.error .eio "journal aborted") else .ok none

-- the condition `log_wait_commit` sleeps on
def waitCommit (target : Tid) (j : Journal) : Option (Except Fault Unit) :=
  if j.committedTid.geq target then some (.ok ())
  else if j.aborted then some (.error (.error .eio "journal aborted; the transaction will never commit"))
  else none

end Journal

theorem Tid.Before.not_geq {a b : Tid} (h : a.Before b) : a.geq b = false := by
  obtain ⟨hle, hne⟩ := h
  simp only [Tid.geq, decide_eq_true_eq, decide_eq_false_iff_not, UInt32.toNat_sub] at hle ⊢
  have ha := a.raw.toNat_lt
  have hb := b.raw.toNat_lt
  exact fun hlt => hne (Tid.ext (UInt32.toNat_inj.mp (by omega)))

namespace JournalState

-- the slot is taken, or the running transaction has moved to the locking seat
def Progresses (st st' : JournalState) : Prop :=
  st'.committing.isSome ∨ st.locking = none ∧ st'.running = none ∧ st'.locking = st.running

def isDue (g : JournalGeometry) (expired : Bool) (st : JournalState) : Bool :=
  match st.locking with
  | some locked => locked.tUpdates = 0
  | none => st.committableRunning.any fun txn => commitTriggered g txn expired st.commitRequest

theorem requestCommitFor_spec (st : JournalState) (target : Tid) :
    (st.requestCommitFor target).committing = st.committing ∧ (st.requestCommitFor target).locking = st.locking ∧
      (st.requestCommitFor target).committableRunning = st.committableRunning ∧
      ((st.requestCommitFor target).commitRequest.any fun existing => existing.geq target) = true := by
  unfold requestCommitFor
  split
  · exact ⟨rfl, rfl, rfl, ‹_›⟩
  · exact ⟨rfl, rfl, rfl, Tid.geq_self target⟩

variable {g : JournalGeometry} {st : JournalState} {expired : Bool} (hslot : st.committing = none)
include hslot

theorem advancePipeline_idle (hidle : st.isDue g expired = false) : (st.advancePipeline g expired).2 = st := by
  simp only [isDue] at hidle
  cases hl : st.locking with
  | some locked =>
    simp only [hl, decide_eq_false_iff_not] at hidle
    simp [advancePipeline, hslot, hl, hidle]
  | none =>
    cases hr : st.committableRunning with
    | none => simp [advancePipeline, hslot, hl, hr]
    | some txn =>
      simp only [hl, hr, Option.any_some] at hidle
      simp [advancePipeline, hslot, hl, hr, hidle]

theorem advancePipeline_due {later : Bool} (hle : expired = true → later = true) (hdue : st.isDue g expired = true) :
    st.Progresses (st.advancePipeline g later).2 := by
  simp only [isDue] at hdue
  cases hl : st.locking with
  | some locked =>
    simp only [hl, decide_eq_true_eq] at hdue
    simp [Progresses, advancePipeline, hslot, hl, hdue, stageCommitting]
  | none =>
    cases hr : st.committableRunning with
    | none => simp [hl, hr] at hdue
    | some txn =>
      simp only [hl, hr, Option.any_some, commitTriggered, Bool.or_eq_true] at hdue
      have hlater : commitTriggered g txn later st.commitRequest = true := by
        simp only [commitTriggered, Bool.or_eq_true]
        exact hdue.imp_left (Or.imp_right hle)
      have hrun : st.running = some txn := (Option.filter_eq_some_iff.mp hr).1
      by_cases hopen : txn.tUpdates = 0
      · simp [Progresses, advancePipeline, hslot, hl, hr, hlater, hopen, stageCommitting]
      · simp [Progresses, advancePipeline, hslot, hl, hr, hrun, hlater, hopen]

end JournalState

namespace Journal

variable (g : JournalGeometry) (expired : Bool) {j : Journal} (hslot : j.state.committing = none)
include hslot

theorem pollCommitAction_eq (hlive : j.aborted = false) (key : Option Tid) : j.pollCommitAction g false expired key =
    if j.spacePressure = true ∨ j.state.isDue g expired = true then some .advance
    else if j.state.locking = none ∧ ageKey j.state ≠ key then some .rearm else none := by
  cases hl : j.state.locking <;> cases hp : j.spacePressure <;>
    simp [pollCommitAction, isDue, hlive, hslot, hl, hp]

theorem request_due {target : Tid} (h : j.syncDurabilityTarget = .ok (some target)) :
    (j.state.requestCommitFor target).isDue g expired = true ∨
      ∃ locked, j.state.locking = some locked ∧ locked.tUpdates ≠ 0 := by
  obtain ⟨-, hlocking, hrunning, hrequest⟩ := requestCommitFor_spec j.state target
  cases hl : j.state.locking with
  | some locked =>
    by_cases hopen : locked.tUpdates = 0
    · exact .inl (by simp [isDue, hlocking, hl, hopen])
    · exact .inr ⟨locked, rfl, hopen⟩
  | none =>
    simp only [syncDurabilityTarget, hslot, hl, Option.or_none, Option.map_none] at h
    cases hrun : j.state.running.filter j.state.hasDurableObligation with
    | some txn =>
      rw [hrun] at h
      cases h
      have hrun : j.state.committableRunning = some txn := hrun
      exact .inl (by simp [isDue, hlocking, hl, hrunning, hrun, commitTriggered, hrequest])
    | none =>
      rw [hrun] at h
      cases hj : j.aborted <;> rw [hj] at h <;> cases h

end Journal

open Journal in
theorem commit_thread_sleeps_only_when_idle (g : JournalGeometry) (j : Journal) (hlive : j.aborted = false)
    (hslot : j.state.committing = none) (expired : Bool) (armed : Option Tid) :
    (j.pollCommitAction g false expired armed = none →
      j.spacePressure = false ∧ (j.state.advancePipeline g expired).2 = j.state) ∧
    (j.pollCommitAction g false expired armed = some .advance → j.spacePressure = true ∨
      ∀ later, (expired = true → later = true) → j.state.Progresses (j.state.advancePipeline g later).2) ∧
    (j.pollCommitAction g false expired armed = some .rearm →
      (j.state.advancePipeline g expired).2 = j.state ∧
        j.pollCommitAction g false expired j.ageDeadline = none) ∧
    ∀ target, j.syncDurabilityTarget = .ok (some target) →
      (j.withState (j.state.requestCommitFor target)).pollCommitAction g false expired armed = some .advance ∨
        ∃ locked, j.state.locking = some locked ∧ locked.tUpdates ≠ 0 := by
  have hpoll := pollCommitAction_eq g expired hslot hlive
  refine ⟨fun h => ?_, fun h => ?_, fun h => ?_, fun target htarget => ?_⟩
  · rw [hpoll] at h
    split at h
    · cases h
    · next hidle =>
      obtain ⟨hp, hdue⟩ := not_or.mp hidle
      exact ⟨eq_false_of_ne_true hp, advancePipeline_idle hslot (eq_false_of_ne_true hdue)⟩
  · rw [hpoll] at h
    split at h
    · next hbusy => exact hbusy.imp_right fun hdue later hle => advancePipeline_due hslot hle hdue
    · split at h <;> cases h
  · rw [hpoll] at h ⊢
    split at h
    · cases h
    · next hidle =>
      rw [if_neg hidle, if_neg (by simp [ageDeadline, hlive])]
      exact ⟨advancePipeline_idle hslot (eq_false_of_ne_true (not_or.mp hidle).2), rfl⟩
  · refine (request_due g expired hslot htarget).imp_left fun hdue => ?_
    have hempty := (requestCommitFor_spec j.state target).1.trans hslot
    have hpoll := pollCommitAction_eq g expired (j := j.withState (j.state.requestCommitFor target)) hempty hlive
    rw [hpoll, if_pos (.inr hdue)]

open Sys Journal in
theorem commit_thread_sleeps_only_when_idle_filled :
    filled.mem.pollCommitAction .small false false none = some .advance ∧
      filled.state.Progresses (filled.state.advancePipeline .small true).2 := by
  have hpoll : filled.mem.pollCommitAction .small false false none = some .advance := rfl
  have h := commit_thread_sleeps_only_when_idle .small filled.mem rfl rfl false none
  exact ⟨hpoll, (h.2.1 hpoll).resolve_left (by decide) true fun _ => rfl⟩

namespace Sys

-- a transaction of one of the three seats that a commit has to write
def Owes (s : Sys) (tid : Tid) : Prop :=
  (∃ txn, (s.state.running = some txn ∨ s.state.locking = some txn) ∧
    s.state.hasDurableObligation txn = true ∧ txn.tid = tid) ∨ ∃ c, s.state.committing = some c ∧ c.tid = tid

theorem Seated.owes_active {s : Sys} (hs : s.Seated) {tid : Tid}
    (h : s.state.active.filter s.state.hasDurableObligation = none) (howes : s.Owes tid) :
    ∃ c, s.state.committing = some c ∧ c.tid = tid := by
  rcases howes with ⟨txn, hseat, hdue, -⟩ | howes
  · rw [active_of_seat hs.seats hseat] at h
    simp [Option.filter, hdue] at h
  · exact howes

end Sys

open Journal in
theorem sync_target_covers_obligations {g : JournalGeometry} {s : Sys} {sequence : Tid} {start : Option Nat}
    {errno : Nat} (hmem : s.mem = Journal.new g sequence start errno) {c : Sys.Conf} (hreach : Sys.Reaches g s c) :
    match c.state.mem.syncDurabilityTarget with
    | .ok (some target) =>
      c.state.Owes target ∧ (∀ tid, c.state.Owes tid → tid = target ∨ tid.Before target) ∧
        (c.state.mem.waitCommit target = some (.ok ()) → ∃ x, c.state.state.committing = some x ∧
          x.tid = target ∧ x.phase = .finished ∧ target = c.state.mem.committedTid)
    | .ok none => c.state.mem.aborted = false ∧ ∀ tid, ¬c.state.Owes tid
    | .error _ => c.state.mem.aborted = true ∧ ∀ tid, ¬c.state.Owes tid := by
  have hs : c.state.Seated := ((Sys.idle_mount hmem).holds hreach).inv fun _ ht => ht.seated
  cases ha : (c.state.state.running.or c.state.state.locking).filter c.state.state.hasDurableObligation with
  | some txn =>
    obtain ⟨hactive, hdue⟩ := Option.filter_eq_some_iff.mp ha
    have hseat := Sys.seat_of_active hactive
    obtain ⟨-, hcommitted, hbehind⟩ := hs.active txn hseat
    simp only [syncDurabilityTarget, ha]
    refine ⟨.inl ⟨txn, hseat, hdue, rfl⟩, fun tid howes => ?_, fun hwait => ?_⟩
    · rcases howes with ⟨other, hother, -, rfl⟩ | ⟨x, hx, rfl⟩
      · cases (Sys.active_of_seat hs.seats hother).symm.trans hactive
        exact .inl rfl
      · exact .inr (hbehind x hx)
    · simp only [waitCommit, hcommitted.not_geq, Bool.false_eq_true, if_false] at hwait
      split at hwait <;> cases hwait
  | none =>
    cases hc : c.state.state.committing with
    | some x =>
      simp only [syncDurabilityTarget, ha, hc, Option.map_some]
      refine ⟨.inr ⟨x, hc, rfl⟩, fun tid howes => ?_, fun hwait => ?_⟩
      · obtain ⟨y, hy, rfl⟩ := hs.owes_active ha howes
        cases hc.symm.trans hy
        exact .inl rfl
      · rcases (hs.committing x hc).2 with hbefore | ⟨hphase, htid⟩
        · simp only [waitCommit, hbefore.not_geq, Bool.false_eq_true, if_false] at hwait
          split at hwait <;> cases hwait
        · exact ⟨x, rfl, rfl, hphase, htid⟩
    | none =>
      have hclear : ∀ tid, ¬c.state.Owes tid := fun tid howes => by
        obtain ⟨y, hy, -⟩ := hs.owes_active ha howes
        cases hc.symm.trans hy
      simp only [syncDurabilityTarget, ha, hc, Option.map_none]
      cases hj : c.state.mem.aborted with
      | true => exact ⟨rfl, hclear⟩
      | false => exact ⟨rfl, hclear⟩

open Sys Journal in
theorem sync_target_covers_obligations_filled :
    filled.Owes (Tid.ofNat 1) ∧ (∀ tid, filled.Owes tid → tid = Tid.ofNat 1 ∨ tid.Before (Tid.ofNat 1)) ∧
      filled.mem.waitCommit (Tid.ofNat 1) = none := by
  have h := sync_target_covers_obligations (s := blank) rfl reaches_filled
  rw [show filled.mem.syncDurabilityTarget = .ok (some (Tid.ofNat 1)) from rfl] at h
  exact ⟨h.1, h.2.1, rfl⟩

end Ext4
