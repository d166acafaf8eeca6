import Ext4.Journal.Accounting

namespace Ext4

open JournalState

variable {o : IoOp Block Journal} {i : Nat} {j j' : Journal} {tid : Tid} {st : JournalState}

structure Journal.Alike (j j' : Journal) : Prop where
  running : j'.state.running = j.state.running
  locking : j'.state.locking = j.state.locking
  committing : j'.state.committing = j.state.committing
  nextTid : j'.state.nextTid = j.state.nextTid
  committedTid : j'.committedTid = j.committedTid
  aborted : j'.aborted = j.aborted

section Mild

variable {α β : Type} {g : JournalGeometry}

def IoOp.Mild : IoOp Block Journal → Prop
  | .atomically f => ∀ j, Journal.Alike j (f j)
  | _ => True

def Mild (p : JournalIo Journal α) : Prop := p.Forall IoOp.Mild (fun _ => True) fun _ => True

namespace Mild

theorem ret (a : α) : Mild (.ret a : JournalIo Journal α) := trivial

theorem fail (e : Fault) : Mild (.fail e : JournalIo Journal α) := trivial

theorem op {k : IoRes o → JournalIo Journal α} (ho : IoOp.Mild o) (hk : ∀ r, Mild (k r)) :
    Mild (.op o k : JournalIo Journal α) := ⟨ho, hk⟩

theorem bind {p : JournalIo Journal α} {f : α → JournalIo Journal β} (hp : Mild p) (hf : ∀ a, Mild (f a)) :
    Mild (p.bind f) :=
  Prog.Forall.bind hp fun a _ => hf a

theorem ofExcept (r : Except Fault α) : Mild (Prog.ofExcept r : JournalIo Journal α) := by
  cases r <;> trivial

end Mild

theorem readBlock_mild (b : Nat) (msg : String) : Mild (readBlock b msg) := by
  refine .op trivial fun r => ?_
  cases r <;> trivial

theorem writeBlock_mild (b : Nat) (v : Block) (msg : String) : Mild (writeBlock b v msg) := by
  refine .op trivial fun r => ?_
  cases r <;> trivial

theorem barrier_mild : Mild barrier := by
  refine .op trivial fun r => ?_
  cases r <;> trivial

theorem readLogBlock_mild (log : Nat) : Mild (g.readLogBlock log) := by
  unfold JournalGeometry.readLogBlock
  split
  · exact .fail _
  · exact readBlock_mild _ _

theorem writeLogBlock_mild (log : Nat) (block : Block) : Mild (g.writeLogBlock log block) := by
  unfold JournalGeometry.writeLogBlock
  split
  · exact .fail _
  · exact writeBlock_mild _ _ _

theorem writeLogBlocks_mild (blocks : List Block) (log : Nat) : Mild (writeLogBlocks g blocks log) := by
  induction blocks generalizing log with
  | nil => exact .ret _
  | cons block blocks ih => exact .bind (writeLogBlock_mild _ _) fun _ => ih _

theorem readRawSuperblock_mild : Mild g.readRawSuperblock :=
  .bind (.ofExcept _) fun _ => .bind (readBlock_mild _ _) fun _ => .ret _

theorem writeSuperblock_mild (raw : RawJournalSuperblock) : Mild (g.writeSuperblock raw) := by
  refine .bind (.ofExcept _) fun _ => .op trivial fun r => ?_
  cases r with
  | false => exact .fail _
  | true => exact barrier_mild

theorem updateSuperblockTail_mild (start : Nat) (tid : Tid) : Mild (g.updateSuperblockTail start tid) :=
  .bind readRawSuperblock_mild fun _ => writeSuperblock_mild _

theorem applyTags_mild (tid : Tid) (revoked : RevokeTable) (tags : List (Except Fault DescriptorTag))
    (log consumed : Nat) (bad : Bool) : Mild (applyTags g tid revoked tags log consumed bad) := by
  induction tags generalizing log consumed bad with
  | nil => exact .ret _
  | cons tag tags ih =>
    cases tag with
    | error e => exact .fail e
    | ok tag =>
      rw [applyTags]
      split
      · exact ih _ _ _
      · refine .bind (readLogBlock_mild _) fun block => ?_
        split
        · exact ih _ _ _
        · exact .bind (writeBlock_mild _ _ _) fun _ => ih _ _ _

theorem applyLoop_mild (tid : Tid) (revoked : RevokeTable) (fuel : Nat) (bad : Bool) (consumed log : Nat) :
    Mild (applyLoop g tid revoked fuel bad consumed log) := by
  induction fuel generalizing bad consumed log with
  | zero => exact .fail _
  | succ fuel ih =>
    refine .bind (readLogBlock_mild _) fun block => ?_
    dsimp only
    split_ifs
    · exact .fail _
    · exact .fail _
    · exact .fail _
    · exact .ret _
    · exact .fail _
    · exact ih _ _ _
    · exact .fail _
    · exact .fail _
    · refine .bind (applyTags_mild _ _ _ _ _ _) fun p => ?_
      split_ifs
      · exact .fail _
      · exact ih _ _ _

theorem coversLoop_mild (tid : Tid) (unpublished : Nat → Bool) (fuel consumed log : Nat) :
    Mild (coversLoop g tid unpublished fuel consumed log) := by
  induction fuel generalizing consumed log with
  | zero => exact .fail _
  | succ fuel ih =>
    refine .bind (readLogBlock_mild _) fun block => ?_
    dsimp only
    split_ifs
    · exact .fail _
    · exact .fail _
    · exact .ret _
    · exact .fail _
    · exact ih _ _
    · exact .fail _
    · split
      · exact .fail _
      · exact .ret _
      · split_ifs
        · exact .fail _
        · exact ih _ _

theorem coversUnpublished_mild (fuel log : Nat) (tid : Tid) (unpublished : List Nat) :
    Mild (coversUnpublished g fuel log tid unpublished) := by
  unfold coversUnpublished
  split
  · exact .ret _
  · exact coversLoop_mild _ _ _ _ _

theorem checkpointLoop_mild (fuel : Nat) (targetFree : Option Nat) (committedTid : Tid) (head : Nat)
    (revoked : RevokeTable) (unpublished : List Nat) (n log : Nat) (tid : Tid) (applied : Bool) :
    Mild (checkpointLoop g fuel targetFree committedTid head revoked unpublished n log tid applied) := by
  induction n generalizing log tid applied with
  | zero => exact .fail _
  | succ n ih =>
    rw [checkpointLoop]
    split
    · refine .bind (coversUnpublished_mild _ _ _ _) fun covered => ?_
      split
      · exact .ret _
      · refine .bind (applyLoop_mild _ _ _ _ _ _) fun log => ?_
        dsimp only
        split
        · exact .ret _
        · exact ih _ _ _
    · exact .ret _

theorem publishTail_mild (committedTid : Tid) (head : Nat) (pass : CheckpointPass) :
    Mild (publishTail g committedTid head pass) := by
  unfold publishTail
  split
  · exact updateSuperblockTail_mild _ _
  · exact .bind readRawSuperblock_mild fun _ => writeSuperblock_mild _

theorem checkpointAdvance_mild (fuel : Nat) (targetFree : Option Nat) :
    Mild (checkpointAdvance g fuel targetFree) := by
  refine .op trivial fun j => ?_
  dsimp only [Prog.ret_bind]
  split
  · exact .ret _
  · split
    · exact .ret _
    · refine .bind (checkpointLoop_mild _ _ _ _ _ _ _ _ _ _) fun pass => ?_
      split
      · refine .bind barrier_mild fun _ => .bind (publishTail_mild _ _ _) fun _ => .op (fun j => ?_) fun _ => .ret _
        exact ⟨rfl, rfl, rfl, rfl, rfl, rfl⟩
      · exact .ret _

theorem checkpoint_mild (fuel : Nat) : Mild (checkpoint g fuel) :=
  .bind (checkpointAdvance_mild _ _) fun _ => .ret _

theorem runLazyCheckpoint_mild (fuel : Nat) : Mild (runLazyCheckpoint g fuel) := by
  refine .op (fun j => ⟨rfl, rfl, rfl, rfl, rfl, rfl⟩) fun demanded => .op trivial fun j => ?_
  dsimp only [Prog.ret_bind]
  split_ifs
  · exact .ret _
  · exact checkpointAdvance_mild _ _
  · exact checkpointAdvance_mild _ _
  · exact .ret _

theorem flushOrderedData_mild (txn : Transaction) : Mild (flushOrderedData txn) := by
  unfold flushOrderedData
  split
  · exact .ret _
  · exact barrier_mild

theorem recordTail_mild (wasClean : Bool) (startHead : Nat) (tid : Tid) :
    Mild (recordTail g wasClean startHead tid) := by
  unfold recordTail
  split
  · exact updateSuperblockTail_mild _ _
  · exact .ret _

theorem writeErrnoToSuper_mild : Mild (writeErrnoToSuper g) :=
  .bind readRawSuperblock_mild fun _ => .op trivial fun _ => writeSuperblock_mild _

end Mild

namespace Tid

def Before (a b : Tid) : Prop := b.geq a = true ∧ a ≠ b

instance (a b : Tid) : Decidable (a.Before b) := inferInstanceAs (Decidable (_ ∧ _))

theorem before_add {t : Tid} {j : Nat} (hij : i < j) (hj : j < i + 2 ^ 31) (hlt : j < 2 ^ 32) :
    (t.add i).Before (t.add j) := by
  refine ⟨?_, fun he => ?_⟩
  · rw [geq_add (by omega) (by omega)]
    exact decide_eq_true hij.le
  · have := add_inj (by omega) hlt he
    omega

end Tid

namespace Journal

variable {images : Nat → Option UncheckpointedImage}

def Lined (j : Journal) (tid : Tid) : Prop :=
  j.state.Seats ∧ match j.state.active.map Transaction.record with
    | some r => r.tid = tid ∧ j.state.nextTid = tid.next
    | none => j.state.nextTid = tid

theorem Lined.offset {committed : Tid} {k : Nat} (h : j.Lined (committed.add k)) :
    ∃ n, k ≤ n ∧ n ≤ k + 1 ∧ j.state.nextTid = committed.add n ∧
      ∀ txn, j.state.active = some txn → txn.tid = committed.add k ∧ n = k + 1 := by
  have hnext := h.2
  cases ha : j.state.active with
  | none =>
    rw [ha] at hnext
    exact ⟨k, le_rfl, by omega, hnext, fun txn htxn => by cases htxn⟩
  | some txn =>
    rw [ha] at hnext
    refine ⟨k + 1, by omega, le_rfl, ?_, fun x hx => ?_⟩
    · rw [Tid.add_succ]
      exact hnext.2
    · cases hx
      exact ⟨hnext.1, rfl⟩

theorem Lined.congr (h : j.Lined tid) (hr : j'.state.running = j.state.running)
    (hl : j'.state.locking = j.state.locking) (hn : j'.state.nextTid = j.state.nextTid) : j'.Lined tid := by
  rw [Journal.Lined, JournalState.Seats, active, hr, hl, hn]
  exact h

structure Moves (j j' : Journal) : Prop where
  lined : ∀ tid, j.Lined tid → j'.Lined tid
  committing : j'.state.committing = j.state.committing
  committedTid : j'.committedTid = j.committedTid
  aborted : j.aborted = true → j'.aborted = true

theorem Moves.refl (j : Journal) : j.Moves j := ⟨fun _ h => h, rfl, rfl, id⟩

theorem Moves.of_quiet (h : j.state.Quiet st) : j.Moves (j.withState st) where
  lined tid hl := by
    refine ⟨h.seats, ?_⟩
    have hnext := hl.2
    rw [show (j.withState st).state = st from rfl, h.active, h.nextTid]
    exact hnext
  committing := h.committing
  committedTid := rfl
  aborted := id

theorem Moves.of_edits {old new : TxnRecord} (h : j.state.Edits st old new images) :
    j.Moves (j.withState st) where
  lined tid hl := by
    refine ⟨h.seats, ?_⟩
    have hnext := hl.2
    rw [h.before] at hnext
    rw [show (j.withState st).state = st from rfl, h.active, h.nextTid]
    exact ⟨h.tid.trans hnext.1, hnext.2⟩
  committing := h.committing
  committedTid := rfl
  aborted := id

theorem Moves.of_opens (hnone : j.state.active = none)
    (h : j.state.Becomes st (some ⟨j.state.nextTid, [], []⟩) j.state.nextTid.next images) :
    j.Moves (j.withState st) where
  lined tid hl := by
    refine ⟨h.seats, ?_⟩
    have hnext : j.state.nextTid = tid := by simpa [hnone] using hl.2
    rw [show (j.withState st).state = st from rfl, h.active, h.nextTid, hnext]
    exact ⟨rfl, rfl⟩
  committing := h.committing
  committedTid := rfl
  aborted := id

end Journal

theorem OpCall.moves (g : JournalGeometry) (d : Disk Block) (hs : j.state.Seats) (c : OpCall) :
    j.Moves (c.run g d j) := by
  have hquiet : j.Moves (j.withState j.state) := .of_quiet hs.quiet
  cases c with
  | admitCredits servicer credits =>
    simp only [OpCall.run, Journal.admitCredits]
    split_ifs
    · exact .refl j
    · exact .refl j
    · rcases hs.admitCredits g servicer credits with h | ⟨hnone, h⟩
      · exact .of_quiet h
      · exact .of_opens hnone h
  | stop h => exact .of_quiet (hs.stop h)
  | extend h extra => exact .of_quiet (hs.extend g h extra)
  | getWrite h bid =>
    cases ha : j.state.activeTxn h.tid with
    | none => simpa only [OpCall.run, getWriteAccess, ha] using hquiet
    | some txn =>
      obtain ⟨new, he, -⟩ := hs.getWrite g h bid (d.read bid) ha
      exact .of_edits he
  | getCreate h bid =>
    cases ha : j.state.activeTxn h.tid with
    | none => simpa only [OpCall.run, getCreateAccess, ha] using hquiet
    | some txn =>
      obtain ⟨new, he, -⟩ := hs.getCreate g h bid ha
      exact .of_edits he
  | patch tid bid generation f =>
    cases hp : j.state.patch tid bid generation f with
    | error e =>
      rw [OpCall.run, hp]
      exact hquiet
    | ok st =>
      obtain ⟨old, new, v, he, -⟩ := hs.patch hp
      rw [OpCall.run, hp]
      exact .of_edits he
  | discharge tid start count =>
    cases ha : j.state.activeTxn tid with
    | none =>
      rw [OpCall.run, JournalState.discharge, ha]
      exact hquiet
    | some txn =>
      obtain ⟨new, he, -⟩ := hs.discharge ha
      exact .of_edits he
  | pin tid start count => exact .of_quiet (hs.pin tid start count)
  | register tid ino len => exact .of_quiet (hs.register tid ino len)
  | request target => exact .of_quiet (hs.request target)
  | pressure => exact ⟨fun _ h => h, rfl, rfl, id⟩
  | abort => exact ⟨fun _ h => h, rfl, rfl, fun _ => rfl⟩

namespace Sys

variable {s' : Sys} {α : Type} {f : Journal → Journal} {staged : Option Transaction} {p : JournalIo Journal Unit}

structure Seated (s : Sys) : Prop where
  seats : s.state.running = none ∨ s.state.locking = none
  drained : ∀ c, s.state.committing = some c → c.txn.tUpdates = 0
  committed : s.mem.committedTid.Before s.state.nextTid
  committing : ∀ c, s.state.committing = some c → c.tid.Before s.state.nextTid ∧
    (s.mem.committedTid.Before c.tid ∨ c.phase = .finished ∧ c.tid = s.mem.committedTid)
  active : ∀ txn, s.state.running = some txn ∨ s.state.locking = some txn →
    txn.tid.Before s.state.nextTid ∧ s.mem.committedTid.Before txn.tid ∧
      ∀ c, s.state.committing = some c → c.tid.Before txn.tid

inductive Advance (s : Sys) (c : CommittingTxn) : Prop
  | same (h : s.state.committing = some c)
  | stage (h : s.state.committing = none) (phase : c.phase = .locked) (drained : c.txn.tUpdates = 0)
      (seat : s.state.running = some c.txn ∨ s.state.locking = some c.txn)
      (abort : s.ghost.snapshot.aborted = false)
  | phase (before : CommitPhase) (h : s.state.committing = some ⟨c.txn, before⟩)
      (next : before.nextInPipeline = some c.phase)

def Advances (s s' : Sys) : Prop := ∀ c, s'.state.committing = some c → s.Advance c

theorem Advances.of_eq {s : Sys} (h : s'.state.committing = s.state.committing) : s.Advances s' :=
  fun _ hc => .same (h ▸ hc)

theorem Advances.of_none {s : Sys} (h : s'.state.committing = none) : s.Advances s' := by
  intro c hc
  rw [h] at hc
  cases hc

def pipeline (g : JournalGeometry) : Contract (IoSig Block Journal) Sys where
  toMachine := machine g
  inv := Seated
  guard s o := s.Advances (handle o s).2

structure Slot (quiet : Prop) (c : Option CommittingTxn) (committed next : Tid) (s : Sys) : Prop where
  lined : s.mem.Lined next
  committing : s.state.committing = c
  committedTid : s.mem.committedTid = committed
  quiet : quiet → s.ghost.closed = true ∧ s.mem.aborted = false ∧ s.ghost.snapshot.aborted = false

def Placed (c : Option CommittingTxn) (committed next : Tid) : Prop :=
  match c with
  | none => ∃ i ≤ 2, next = committed.add (i + 1)
  | some c => c.txn.tUpdates = 0 ∧ (c.tid = committed.add 1 ∧ next = committed.add 2 ∨
      c.phase = .finished ∧ c.tid = committed ∧ next = committed.add 1)

variable {g : JournalGeometry} {s t : Sys} {quiet : Prop} {c : Option CommittingTxn} {committed next : Tid}

theorem Slot.relax (hs : s.Slot quiet c committed next) : s.Slot False c committed next :=
  ⟨hs.lined, hs.committing, hs.committedTid, False.elim⟩

theorem Placed.offset (hp : Placed c committed next) : ∃ k ≤ 3, 1 ≤ k ∧ next = committed.add k ∧
    ∀ x, c = some x → x.txn.tUpdates = 0 ∧ ∃ m < k, x.tid = committed.add m ∧
      (1 ≤ m ∨ x.phase = .finished ∧ x.tid = committed) := by
  cases c with
  | none =>
    obtain ⟨i, hi, hnext⟩ := hp
    exact ⟨i + 1, by omega, by omega, hnext, fun x hx => by cases hx⟩
  | some c =>
    obtain ⟨hzero, ⟨htid, hnext⟩ | ⟨hphase, htid, hnext⟩⟩ := hp
    · refine ⟨2, by omega, by omega, hnext, fun x hx => ?_⟩
      cases hx
      exact ⟨hzero, 1, by omega, htid, .inl le_rfl⟩
    · refine ⟨1, by omega, by omega, hnext, fun x hx => ?_⟩
      cases hx
      exact ⟨hzero, 0, by omega, by rw [Tid.add_zero, htid], .inr ⟨hphase, htid⟩⟩

theorem active_of_seat (hs : s.state.Seats) {txn : Transaction}
    (h : s.state.running = some txn ∨ s.state.locking = some txn) : s.state.active = some txn := by
  rw [active]
  rcases hs with hr | hl
  · rw [hr, Option.none_or]
    exact h.resolve_left (by simp [hr])
  · rw [hl, Option.or_none]
    exact h.resolve_right (by simp [hl])

theorem seat_of_active {txn : Transaction} (h : s.state.active = some txn) :
    s.state.running = some txn ∨ s.state.locking = some txn := by
  rcases Option.or_eq_some_iff.mp h with h | ⟨-, h⟩
  · exact .inl h
  · exact .inr h

theorem Slot.seated (hs : s.Slot quiet c committed next) (hp : Placed c committed next) : s.Seated := by
  obtain ⟨hlined, hc, hcommitted, -⟩ := hs
  obtain ⟨k, hk, hpos, rfl, hplace⟩ := hp.offset
  obtain ⟨n, hkn, hnk, hnext, hactive⟩ := hlined.offset
  have hbefore : ∀ m n, m < n → n ≤ 4 → (committed.add m).Before (committed.add n) :=
    fun m n hmn hn => Tid.before_add hmn (by omega) (by omega)
  have hzero : s.mem.committedTid = committed.add 0 := by rw [hcommitted, Tid.add_zero]
  have hplaced : ∀ x, s.state.committing = some x → _ := fun x hx => hplace x (hc.symm.trans hx)
  refine ⟨hlined.1, fun x hx => (hplaced x hx).1, ?_, fun x hx => ?_, fun txn htxn => ?_⟩
  · rw [hzero, hnext]
    exact hbefore 0 n (by omega) (by omega)
  · obtain ⟨-, m, hm, htid, hphase⟩ := hplaced x hx
    rw [hnext, htid]
    refine ⟨hbefore m n (by omega) (by omega), hphase.imp (fun hm => ?_) fun ⟨hphase, he⟩ => ⟨hphase, ?_⟩⟩
    · rw [hzero]
      exact hbefore 0 m (by omega) (by omega)
    · rw [← htid, he, hcommitted]
  · obtain ⟨htid, hn⟩ := hactive txn (active_of_seat hlined.1 htxn)
    rw [hnext, htid, hzero]
    refine ⟨hbefore k n (by omega) (by omega), hbefore 0 k (by omega) (by omega), fun x hx => ?_⟩
    obtain ⟨-, m, hm, hxtid, -⟩ := hplaced x hx
    rw [hxtid]
    exact hbefore m k hm (by omega)

theorem Slot.rely (hs : s.Slot quiet c committed next) (h : Rely g s t) : t.Slot quiet c committed next := by
  cases h with
  | call call hopen _ =>
    have hmoves := call.moves g s.disk hs.lined.1
    refine ⟨hmoves.lined _ hs.lined, hmoves.committing.trans hs.committing,
      hmoves.committedTid.trans hs.committedTid, fun hq => ?_⟩
    rw [(hs.quiet hq).1] at hopen
    cases hopen
  | data b v _ => exact ⟨hs.lined, hs.committing, hs.committedTid, hs.quiet⟩
  | flush => exact ⟨hs.lined, hs.committing, hs.committedTid, hs.quiet⟩

theorem Slot.stable : (pipeline g).Stable (Slot quiet c committed next) := fun _ _ hs h => hs.rely h

theorem alike_of_mild (ho : IoOp.Mild o) (s : Sys) :
    s.mem.Alike (handle o s).2.mem := by
  have hsame : s.mem.Alike s.mem := ⟨rfl, rfl, rfl, rfl, rfl, rfl⟩
  cases o with
  | read b => exact hsame
  | write b v =>
    rw [show (handle (.write b v) s).2.mem = s.mem by
      simp only [handle, World.handle, mem]; split <;> rfl]
    exact hsame
  | modify b f =>
    rw [show (handle (.modify b f) s).2.mem = s.mem by
      simp only [handle, World.handle, mem]; split <;> rfl]
    exact hsame
  | barrier => exact hsame
  | observe => exact hsame
  | atomically f => exact ho s.mem

theorem snapshot_handle (o : IoOp Block Journal) (s : Sys) :
    (handle o s).2.ghost.snapshot = s.mem ∨ (handle o s).2.ghost.snapshot = s.ghost.snapshot := by
  cases o with
  | observe => exact .inl rfl
  | read b => exact .inr rfl
  | write b v => exact .inr rfl
  | modify b f => exact .inr rfl
  | barrier => exact .inr rfl
  | atomically f => exact .inr rfl

theorem Slot.mild (hs : s.Slot quiet c committed next) (ho : IoOp.Mild o) :
    s.Advances (handle o s).2 ∧ (handle o s).2.Slot quiet c committed next := by
  have ha := alike_of_mild ho s
  refine ⟨.of_eq ha.committing, hs.lined.congr ha.running ha.locking ha.nextTid,
    ha.committing.trans hs.committing, ha.committedTid.trans hs.committedTid, fun hq => ?_⟩
  obtain ⟨hclosed, habort, hsnap⟩ := hs.quiet hq
  refine ⟨hclosed, ha.aborted.trans habort, ?_⟩
  rcases snapshot_handle o s with h | h <;> rw [h]
  · exact habort
  · exact hsnap

theorem Slot.safe {p : JournalIo Journal α} (hs : s.Slot quiet c committed next) (hplaced : Placed c committed next)
    (hp : Mild p) :
    p.Safe (pipeline g) (fun _ => Slot quiet c committed next) s :=
  .of_forall hp Slot.stable (fun _ ht => ht.seated hplaced) (fun _ _ ho ht => ht.mild ho) hs

theorem Slot.set (hs : s.Slot quiet c committed next) {c' : Option CommittingTxn} {committed' next' : Tid}
    (hl : (f s.mem).Lined next') (hc : (f s.mem).state.committing = c')
    (hcommitted : (f s.mem).committedTid = committed') (ha : (f s.mem).aborted = s.mem.aborted) :
    (handle (.atomically f) s).2.Slot quiet c' committed' next' := by
  refine ⟨hl, hc, hcommitted, fun hq => ?_⟩
  obtain ⟨hclosed, habort, hsnap⟩ := hs.quiet hq
  exact ⟨hclosed, ha.trans habort, hsnap⟩

structure Rephases (j j' : Journal) (txn : Transaction) (before after : CommitPhase) : Prop where
  running : j'.state.running = j.state.running
  locking : j'.state.locking = j.state.locking
  nextTid : j'.state.nextTid = j.state.nextTid
  committing : j'.state.committing = some ⟨txn, after⟩
  committedTid : j'.committedTid = j.committedTid
  aborted : j'.aborted = j.aborted
  next : before.nextInPipeline = some after

section Commit

variable {txn : Transaction} {before after : CommitPhase}

def Rephased (quiet : Prop) (txn : Transaction) (before after : CommitPhase) (committed next : Tid) :
    Except Fault Unit → Sys → Prop
  | .ok _ => Slot quiet (some ⟨txn, after⟩) committed next
  | .error _ => Slot quiet (some ⟨txn, before⟩) committed next

theorem Slot.rephase (hs : s.Slot quiet (some ⟨txn, before⟩) committed next)
    (h : Rephases s.mem (f s.mem) txn before after) :
    s.Advances (handle (.atomically f) s).2 ∧
      (handle (.atomically f) s).2.Slot quiet (some ⟨txn, after⟩) committed next := by
  have hset : (handle (.atomically f) s).2.Slot quiet (some ⟨txn, after⟩) committed next :=
    hs.set (hs.lined.congr h.running h.locking h.nextTid) h.committing (h.committedTid.trans hs.committedTid)
      h.aborted
  refine ⟨fun x hx => ?_, hset⟩
  cases hset.committing.symm.trans hx
  exact .phase before hs.committing h.next

theorem Slot.idle (hs : s.Slot quiet c committed next) (h : f s.mem = s.mem) :
    s.Advances (handle (.atomically f) s).2 ∧ (handle (.atomically f) s).2.Slot quiet c committed next := by
  have hset : (handle (.atomically f) s).2.Slot quiet c committed next :=
    hs.set (h.symm ▸ hs.lined) ((congrArg (·.state.committing) h).trans hs.committing)
      ((congrArg Journal.committedTid h).trans hs.committedTid) (congrArg Journal.aborted h)
  exact ⟨.of_eq (hset.committing.trans hs.committing.symm), hset⟩

theorem Slot.update (hs : s.Slot quiet (some ⟨txn, before⟩) committed next)
    (hplaced : ∀ phase, Placed (some ⟨txn, phase⟩) committed next) {f : Journal → Except Fault Journal}
    (hf : ∀ j j', j.state.committing = some ⟨txn, before⟩ → f j = .ok j' → Rephases j j' txn before after) :
    (Io.update f : JournalIo Journal Unit).Safe (pipeline g) (Rephased quiet txn before after committed next) s := by
  have hseated : ∀ phase (t : Sys), t.Slot quiet (some ⟨txn, phase⟩) committed next → t.Seated :=
    fun phase t ht => ht.seated (hplaced phase)
  have hok : ∀ (t : Sys) j, t.Slot quiet (some ⟨txn, before⟩) committed next → f t.mem = .ok j →
      Rephases t.mem ((fun j => (f j).toOption.getD j) t.mem) txn before after := by
    intro t j ht hj
    have hr := hf t.mem j ht.committing hj
    simp only [hj]
    exact hr
  have herr : ∀ (t : Sys) e, f t.mem = .error e → (fun j => (f j).toOption.getD j) t.mem = t.mem := by
    intro t e he
    simp only [he]
    rfl
  refine .op Slot.stable (hseated before) hs (fun t ht => ?_) fun t ht => ?_
  · cases hj : f t.mem with
    | ok j => exact (ht.rephase (hok t j ht hj)).1
    | error e => exact (ht.idle (herr t e hj)).1
  · change Prog.Safe _ (Prog.ofExcept ((f t.mem).map fun _ => ())) _ _
    cases hj : f t.mem with
    | ok j => exact .ret Slot.stable (hseated after) (ht.rephase (hok t j ht hj)).2 fun _ h => h
    | error e => exact .fail Slot.stable (hseated before) (ht.idle (herr t e hj)).2 fun _ h => h

theorem advanceCommittingPhase_ok {st' : JournalState} (hc : st.committing = some ⟨txn, before⟩)
    (h : st.advanceCommittingPhase tid after = .ok st') :
    st' = { st with committing := some ⟨txn, after⟩ } ∧ before.nextInPipeline = some after := by
  rw [advanceCommittingPhase, hc] at h
  dsimp only [CommittingTxn.advanceTo] at h
  split_ifs at h with htid hnext
  · cases h
  · cases h
  · cases h
    exact ⟨rfl, not_not.mp hnext⟩

theorem rephases_advance (hc : j.state.committing = some ⟨txn, before⟩)
    (h : (j.state.advanceCommittingPhase tid after).map (fun st => { j with state := st }) = .ok j') :
    Rephases j j' txn before after := by
  cases hst : j.state.advanceCommittingPhase tid after with
  | error e =>
    rw [hst] at h
    cases h
  | ok st =>
    rw [hst] at h
    cases h
    obtain ⟨rfl, hnext⟩ := advanceCommittingPhase_ok hc hst
    exact ⟨rfl, rfl, rfl, rfl, rfl, rfl, hnext⟩

theorem rephases_publish {startHead newHead : Nat} {wasClean : Bool} (hc : j.state.committing = some ⟨txn, before⟩)
    (h : j.publishCommit txn startHead newHead wasClean = .ok j') :
    Rephases j j' txn before .finished := by
  rw [Journal.publishCommit] at h
  cases hst : j.state.advanceCommittingPhase txn.tid .finished with
  | error e =>
    rw [hst] at h
    cases h
  | ok st =>
    rw [hst] at h
    obtain ⟨rfl, hnext⟩ := advanceCommittingPhase_ok hc hst
    cases wasClean <;> cases h <;> exact ⟨rfl, rfl, rfl, rfl, rfl, rfl, hnext⟩

def Staged (quiet : Prop) (txn : Transaction) (committed : Tid) (s : Sys) : Prop :=
  ∃ phase, s.Slot quiet (some ⟨txn, phase⟩) committed (committed.add 2)

def Published (quiet : Prop) (txn : Transaction) (s : Sys) : Prop :=
  s.Slot quiet (some ⟨txn, .finished⟩) txn.tid (txn.tid.add 1)

def Attempted (quiet : Prop) (txn : Transaction) (committed : Tid) : Except Fault CommitAttempt → Sys → Prop
  | .ok (.committed _) => Published quiet txn
  | _ => Staged quiet txn committed

theorem placed_none (hi : i ≤ 2) : Placed none committed (committed.add (i + 1)) := ⟨i, hi, rfl⟩

variable (htid : txn.tid = committed.add 1) (hzero : txn.tUpdates = 0)
include htid hzero

theorem placed_staged (phase : CommitPhase) : Placed (some ⟨txn, phase⟩) committed (committed.add 2) :=
  ⟨hzero, .inl ⟨htid, rfl⟩⟩

omit htid hzero in
theorem Staged.stable : (pipeline g).Stable (Staged quiet txn committed) :=
  fun _ _ ⟨phase, hs⟩ h => ⟨phase, hs.rely h⟩

section

variable (hs : s.Staged quiet txn committed)

include hs

theorem Staged.seated : s.Seated := by
  obtain ⟨phase, hs⟩ := hs
  exact hs.seated (placed_staged htid hzero phase)

theorem Staged.safe {p : JournalIo Journal α} (hp : Mild p) :
    p.Safe (pipeline g) (fun _ => Staged quiet txn committed) s := by
  obtain ⟨phase, hs⟩ := hs
  exact (hs.safe (placed_staged htid hzero phase) hp).mono fun _ _ h => ⟨phase, h⟩

theorem Staged.advance (phase : CommitPhase) :
    (Journal.advanceCommittingPhase txn.tid phase).Safe (pipeline g) (fun _ => Staged quiet txn committed) s := by
  obtain ⟨before, hs⟩ := hs
  refine (hs.update (placed_staged htid hzero) fun j j' hc h => rephases_advance hc h).mono fun r t h => ?_
  cases r with
  | ok _ => exact ⟨phase, h⟩
  | error e => exact ⟨before, h⟩

theorem Staged.publish (startHead newHead : Nat) (wasClean : Bool) :
    (Io.update (Journal.publishCommit txn startHead newHead wasClean) : JournalIo Journal Unit).Safe (pipeline g)
      (fun r => match r with
        | .ok _ => Slot quiet (some ⟨txn, .finished⟩) committed (committed.add 2)
        | .error _ => Staged quiet txn committed) s := by
  obtain ⟨before, hs⟩ := hs
  refine (hs.update (placed_staged htid hzero) fun j j' hc h => rephases_publish hc h).mono fun r t h => ?_
  cases r with
  | ok _ => exact h
  | error e => exact ⟨before, h⟩

end

theorem store_safe (hs : s.Slot quiet (some ⟨txn, .finished⟩) committed (committed.add 2)) :
    ((Io.atomically fun j => { j with committedTid := txn.tid }).bind fun _ => .ret (.committed txn.tid) :
      JournalIo Journal CommitAttempt).Safe (pipeline g) (Attempted quiet txn committed) s := by
  have hnext : committed.add 2 = txn.tid.add 1 := by
    rw [htid, Tid.add_succ, Tid.add_succ, Tid.add_succ, Tid.add_zero, Tid.add_zero]
  have hplaced : Placed (some ⟨txn, .finished⟩) txn.tid (txn.tid.add 1) := ⟨hzero, .inr ⟨rfl, rfl, rfl⟩⟩
  refine .op Slot.stable (fun t ht => ht.seated (placed_staged htid hzero _)) hs (fun t ht => ?_) fun t ht => ?_
  · exact .of_eq rfl
  · have hset : (handle (.atomically fun j => { j with committedTid := txn.tid }) t).2.Published quiet txn :=
      ht.set (hnext ▸ ht.lined) ht.committing rfl rfl
    exact .ret Slot.stable (fun t ht => ht.seated hplaced) hset fun _ h => h

theorem writeChain_safe (now : Timestamp) (revokeBlocks : List Block) (chain : List DescriptorRun) (startHead : Nat)
    (hs : s.Staged quiet txn committed) :
    (writeChain g now txn.tid revokeBlocks chain startHead).Safe (pipeline g)
      (fun _ => Staged quiet txn committed) s := by
  refine (hs.safe htid hzero (writeLogBlocks_mild _ _)).bind (fun log s hs => ?_) fun _ _ h => h
  refine (hs.safe htid hzero (writeLogBlocks_mild _ _)).bind (fun log s hs => ?_) fun _ _ h => h
  refine (hs.safe htid hzero barrier_mild).bind (fun _ s hs => ?_) fun _ _ h => h
  refine (hs.advance htid hzero _).bind (fun _ s hs => ?_) fun _ _ h => h
  refine (hs.safe htid hzero (writeLogBlock_mild _ _)).bind (fun _ s hs => ?_) fun _ _ h => h
  exact hs.safe htid hzero barrier_mild

omit htid hzero in
theorem Staged.bind {p : JournalIo Journal α} {f : α → JournalIo Journal CommitAttempt}
    (hp : p.Safe (pipeline g) (fun _ => Staged quiet txn committed) s)
    (hf : ∀ a (t : Sys), t.Staged quiet txn committed → (f a).Safe (pipeline g) (Attempted quiet txn committed) t) :
    (p.bind f).Safe (pipeline g) (Attempted quiet txn committed) s :=
  hp.bind hf fun _ _ h => h

theorem commitAt_safe (now : Timestamp) (revokeBlocks : List Block) (chain : List DescriptorRun) (startHead : Nat)
    (wasClean : Bool) (hs : s.Staged quiet txn committed) :
    (commitAt g now txn revokeBlocks chain startHead wasClean).Safe (pipeline g)
      (Attempted quiet txn committed) s := by
  refine Staged.bind (hs.advance htid hzero _) fun _ s hs => ?_
  refine Staged.bind (hs.safe htid hzero (flushOrderedData_mild txn)) fun _ s hs => ?_
  refine Staged.bind (hs.advance htid hzero _) fun _ s hs => ?_
  refine Staged.bind (writeChain_safe htid hzero _ _ _ _ hs) fun _ s hs => ?_
  refine Staged.bind (hs.safe htid hzero (recordTail_mild _ _ _)) fun _ s hs => ?_
  refine (hs.publish htid hzero _ _ _).bind (fun _ s hs => ?_) fun _ _ h => h
  exact store_safe htid hzero hs

theorem tryCommitTransaction_safe (now : Timestamp) (hs : s.Staged quiet txn committed) :
    (tryCommitTransaction g now txn).Safe (pipeline g) (Attempted quiet txn committed) s := by
  refine Staged.bind (hs.safe htid hzero (.ofExcept _)) fun revokeBlocks s hs => ?_
  refine Staged.bind (hs.safe htid hzero (.ofExcept _)) fun chain s hs => ?_
  split
  · exact .fail Staged.stable (fun _ => Staged.seated htid hzero) hs fun _ h => h
  · refine Staged.bind (hs.safe htid hzero (.op (fun j => ⟨rfl, rfl, rfl, rfl, rfl, rfl⟩) fun _ => .ret _))
      fun j s hs => ?_
    split
    · exact .ret Staged.stable (fun _ => Staged.seated htid hzero) hs fun _ h => h
    · exact commitAt_safe htid hzero _ _ _ _ _ hs

def Drained (quiet : Prop) (txn : Transaction) (committed : Tid) : Except Fault Tid → Sys → Prop
  | .ok _ => Published quiet txn
  | .error _ => Staged quiet txn committed

omit htid in
theorem Published.seated (hs : s.Published quiet txn) : s.Seated :=
  Slot.seated hs ⟨hzero, .inr ⟨rfl, rfl, rfl⟩⟩

omit htid in
theorem Published.ret (hs : s.Published quiet txn) (tid : Tid) :
    (.ret tid : JournalIo Journal Tid).Safe (pipeline g) (Drained quiet txn committed) s :=
  .ret Slot.stable (fun _ => Published.seated hzero) hs fun _ h => h

theorem commitOrDrainTail_safe (fuel : Nat) (now : Timestamp) (hs : s.Staged quiet txn committed) :
    (commitOrDrainTail g fuel now txn).Safe (pipeline g) (Drained quiet txn committed) s := by
  refine (tryCommitTransaction_safe htid hzero now hs).bind (fun attempt s hs => ?_) fun _ _ h => h
  cases attempt with
  | committed tid => exact Published.ret hzero hs tid
  | needsLogSpace =>
    refine (Staged.safe htid hzero hs (checkpoint_mild fuel)).bind (fun _ s hs => ?_) fun _ _ h => h
    refine (tryCommitTransaction_safe htid hzero now hs).bind (fun attempt s hs => ?_) fun _ _ h => h
    cases attempt with
    | committed tid => exact Published.ret hzero hs tid
    | needsLogSpace => exact .fail Staged.stable (fun _ => Staged.seated htid hzero) hs fun _ h => h

omit htid hzero in
theorem Slot.clear {phase : CommitPhase} (hs : s.Slot quiet (some ⟨txn, phase⟩) committed next) :
    s.Advances (handle (.atomically (Journal.clearCommitting txn.tid)) s).2 ∧
      (handle (.atomically (Journal.clearCommitting txn.tid)) s).2.Slot quiet none committed next := by
  have hnone : (s.mem.clearCommitting txn.tid).state.committing = none := by
    rw [Journal.clearCommitting, show s.mem.state.committing = _ from hs.committing]
    simp [CommittingTxn.tid]
  have hset : (handle (.atomically (Journal.clearCommitting txn.tid)) s).2.Slot quiet none committed next :=
    hs.set (hs.lined.congr rfl rfl rfl) hnone hs.committedTid rfl
  exact ⟨.of_none hset.committing, hset⟩

omit htid hzero in
theorem Slot.aborted_rely (hs : s.Slot quiet c committed next) (ha : s.mem.aborted = true) (h : Rely g s t) :
    t.mem.aborted = true := by
  cases h with
  | call call _ _ => exact (call.moves g s.disk hs.lined.1).aborted ha
  | data b v _ => exact ha
  | flush => exact ha

def Failed (c : Option CommittingTxn) (committed next : Tid) (s : Sys) : Prop :=
  s.Slot False c committed next ∧ s.mem.aborted = true

omit htid hzero in
theorem Failed.stable : (pipeline g).Stable (Failed c committed next) :=
  fun _ _ hs h => ⟨hs.1.rely h, hs.1.aborted_rely hs.2 h⟩

omit htid hzero in
theorem Failed.safe {p : JournalIo Journal α} (hs : s.Failed c committed next) (hplaced : Placed c committed next)
    (hp : Mild p) :
    p.Safe (pipeline g) (fun _ => Failed c committed next) s :=
  .of_forall hp Failed.stable (fun _ ht => ht.1.seated hplaced)
    (fun t _ ho ht => ⟨(ht.1.mild ho).1, (ht.1.mild ho).2, (alike_of_mild ho t).aborted.trans ht.2⟩) hs

def Retired (quiet : Prop) (txn : Transaction) (committed : Tid) : Except Fault Tid → Sys → Prop
  | .ok _ => Slot quiet none txn.tid (txn.tid.add 1)
  | .error _ => Failed none committed (committed.add 2)

theorem abortWithError_safe (hs : s.Staged quiet txn committed) :
    (abortWithError g).Safe (pipeline g) (fun r t => r = .ok () ∧
      ∃ phase, t.Failed (some ⟨txn, phase⟩) committed (committed.add 2)) s := by
  obtain ⟨phase, hs⟩ := hs
  have hplaced := placed_staged htid hzero phase
  refine .op Slot.stable (fun _ ht => ht.seated hplaced) hs (fun t ht => .of_eq rfl) fun t ht => ?_
  have hfailed : (handle (.atomically fun j => { j with aborted := true, sbError := sErrnoErrorMarker }) t).2.Failed
      (some ⟨txn, phase⟩) committed (committed.add 2) :=
    ⟨⟨ht.lined, ht.committing, ht.committedTid, False.elim⟩, rfl⟩
  have hwrite : (writeErrnoToSuper g).attempt.Safe (pipeline g) (fun r t => r.isOk = true ∧
      t.Failed (some ⟨txn, phase⟩) committed (committed.add 2)) _ :=
    .attempt ((hfailed.safe hplaced writeErrnoToSuper_mild).mono fun _ _ h => ⟨rfl, h⟩)
  refine hwrite.bind (fun _ t ht => ?_) fun _ _ h => by cases h.1
  exact .ret Failed.stable (fun _ ht => ht.1.seated hplaced) ht.2 fun _ h => ⟨rfl, phase, h⟩

theorem clear_failed (hs : ∃ phase, s.Failed (some ⟨txn, phase⟩) committed (committed.add 2)) (e : Fault) :
    ((Io.atomically (Journal.clearCommitting txn.tid)).bind fun _ => .fail e : JournalIo Journal Tid).Safe
      (pipeline g) (Retired quiet txn committed) s := by
  obtain ⟨phase, hs⟩ := hs
  refine .op Failed.stable (fun _ ht => ht.1.seated (placed_staged htid hzero phase)) hs
    (fun t ht => ht.1.clear.1) fun t ht => ?_
  have hset : (handle (.atomically (Journal.clearCommitting txn.tid)) t).2.Failed none committed
      (committed.add 2) := ⟨ht.1.clear.2, ht.2⟩
  exact .fail Failed.stable (fun _ ht => ht.1.seated (placed_none (by decide))) hset fun _ h => h

omit htid in
theorem clear_published (hs : s.Published quiet txn) (tid : Tid) :
    ((Io.atomically (Journal.clearCommitting txn.tid)).bind fun _ => .ret tid : JournalIo Journal Tid).Safe
      (pipeline g) (Retired quiet txn committed) s := by
  refine .op Slot.stable (fun _ => Published.seated hzero) hs (fun t ht => (Slot.clear ht).1) fun t ht => ?_
  exact .ret Slot.stable (fun _ ht => ht.seated (placed_none (by decide))) (Slot.clear ht).2 fun _ h => h

theorem commitStaged_safe (fuel : Nat) (now : Timestamp) (hs : s.Staged quiet txn committed) :
    (commitStaged g fuel now txn).Safe (pipeline g) (Retired quiet txn committed) s := by
  have hcommit : (commitOrDrainTail g fuel now txn).attempt.Safe (pipeline g) (fun r => match r with
      | .ok r => Drained quiet txn committed r
      | .error _ => fun _ => False) s := .attempt (commitOrDrainTail_safe htid hzero fuel now hs)
  refine hcommit.bind (fun r s hs => ?_) fun _ _ h => h.elim
  cases r with
  | ok tid => exact clear_published hzero hs tid
  | error e =>
    refine (abortWithError_safe htid hzero hs).bind (fun _ s hs => ?_) fun _ _ h => by cases h.1
    exact clear_failed htid hzero hs.2 e

end Commit

def Idle (s : Sys) : Prop := ∃ committed, ∃ i ≤ 2, s.Slot False none committed (committed.add (i + 1)) ∧
  (i = 0 ∨ i = 1 ∧ s.mem.aborted = true ∨ s.ghost.closed = true)

theorem Idle.seated (hs : s.Idle) : s.Seated := by
  obtain ⟨committed, i, hi, hs, -⟩ := hs
  exact hs.seated (placed_none hi)

theorem closed_rely (hc : s.ghost.closed = true) (h : Rely g s t) : t.ghost.closed = true := by
  cases h with
  | call call hopen _ => exact hc
  | data b v _ => exact hc
  | flush => exact hc

theorem Idle.stable : (pipeline g).Stable Idle := by
  rintro s t ⟨committed, i, hi, hs, hgap⟩ h
  exact ⟨committed, i, hi, hs.rely h, hgap.imp_right (.imp (.imp_right fun ha => hs.aborted_rely ha h) fun hc => closed_rely hc h)⟩

theorem Idle.mild (hs : s.Idle) (ho : IoOp.Mild o) :
    s.Advances (handle o s).2 ∧ (handle o s).2.Idle := by
  obtain ⟨committed, i, hi, hs, hgap⟩ := hs
  exact ⟨(hs.mild ho).1, committed, i, hi, (hs.mild ho).2,
    hgap.imp_right (.imp_left (.imp_right (alike_of_mild ho s).aborted.trans))⟩

theorem Idle.safe {p : JournalIo Journal α} (hs : s.Idle) (hp : Mild p) :
    p.Safe (pipeline g) (fun _ => Idle) s :=
  .of_forall hp Idle.stable (fun _ ht => ht.seated) (fun _ _ ho ht => ht.mild ho) hs

inductive Taken (drops quiet : Prop) (committed : Tid) (staged : Option Transaction) (s : Sys) : Prop
  | stage (txn : Transaction) (h : staged = some txn) (tid : txn.tid = committed.add 1) (drained : txn.tUpdates = 0)
      (slot : s.Staged quiet txn committed)
  | drop (hd : drops) (h : staged = none) (slot : s.Slot quiet none committed (committed.add 2))
      (vacant : s.state.active = none)
  | keep (h : staged = none) (slot : s.Slot quiet none committed (committed.add 1))

theorem lined_vacant {txn : Transaction} (h : j.Lined (committed.add 1)) (held : j.state.active = some txn)
    (vacant : st.running = none ∧ st.locking = none) (next : st.nextTid = j.state.nextTid) :
    txn.tid = committed.add 1 ∧ (j.withState st).Lined (committed.add 2) := by
  obtain ⟨-, hnext⟩ := h
  rw [held] at hnext
  refine ⟨hnext.1, .inl vacant.1, ?_⟩
  rw [active, Journal.withState, vacant.1, vacant.2, next]
  exact hnext.2.trans (Tid.add_succ _ _).symm

theorem Slot.take {drops : Prop} (hs : s.Slot quiet none committed (committed.add 1))
    (hsnap : s.ghost.snapshot.aborted = false) {f : JournalState → JournalState}
    (ht : s.state.Takes drops staged (f s.state)) :
    s.Advances (handle (.atomically fun j => { j with state := f j.state }) s).2 ∧
      (handle (.atomically fun j => { j with state := f j.state }) s).2.Taken drops quiet committed staged := by
  cases ht with
  | stage txn h held drained vacant next committing =>
    obtain ⟨htid, hlined⟩ := lined_vacant hs.lined held vacant next
    refine ⟨fun c hc => ?_, .stage txn h htid drained ⟨.locked, hs.set hlined committing hs.committedTid rfl⟩⟩
    cases committing.symm.trans hc
    exact .stage hs.committing rfl drained (seat_of_active held) hsnap
  | drop hd h txn held drained vacant next committing =>
    obtain ⟨-, hlined⟩ := lined_vacant hs.lined held vacant next
    have hnone := committing.trans hs.committing
    refine ⟨.of_none hnone, .drop hd h (hs.set hlined hnone hs.committedTid rfl) ?_⟩
    exact (congrArg₂ Option.or vacant.1 vacant.2)
  | keep h seats active next committing =>
    have hnone := committing.trans hs.committing
    have hlined : ({ s.mem with state := f s.state } : Journal).Lined (committed.add 1) := by
      refine ⟨seats, ?_⟩
      rw [active, next]
      exact hs.lined.2
    exact ⟨.of_none hnone, .keep h (hs.set hlined hnone hs.committedTid rfl)⟩

theorem Taken.stay (hs : s.Taken False quiet committed none) : s.Slot quiet none committed (committed.add 1) := by
  cases hs with
  | stage txn h => cases h
  | drop hd => exact hd.elim
  | keep _ slot => exact slot

theorem Slot.rest (hs : s.Slot quiet none committed (committed.add 1)) : s.Idle :=
  ⟨committed, 0, by decide, hs.relax, .inl rfl⟩

theorem Failed.rest (hs : s.Failed none committed (committed.add 2)) : s.Idle :=
  ⟨committed, 1, by decide, hs.1, .inr (.inl ⟨rfl, hs.2⟩)⟩

theorem Retired.rest {txn : Transaction} {r : Except Fault Tid} (h : Retired quiet txn committed r s) : s.Idle := by
  cases r with
  | ok tid => exact Slot.rest h
  | error e => exact Failed.rest h

structure Checked (committed : Tid) (s : Sys) : Prop extends s.Slot False none committed (committed.add 1) where
  snapshot : s.ghost.snapshot.aborted = false

theorem Checked.stable : (pipeline g).Stable (Checked committed) := by
  intro s t hs h
  refine ⟨hs.toSlot.rely h, ?_⟩
  cases h with
  | call call _ _ => exact hs.snapshot
  | data b v _ => exact hs.snapshot
  | flush => exact hs.snapshot

theorem open_stable (hs : s.ghost.closed = false) (h : Rely g s t) : t.ghost.closed = false := by
  cases h with
  | call call hopen _ => exact hs
  | data b v _ => exact hs
  | flush => exact hs

section

variable (fuel : Nat) (now : Timestamp) (expired : Bool)

theorem take_safe (hs : s.Checked committed) :
    ((Io.atomically fun j => { j with state := (j.state.advancePipeline g expired).2 }).bind fun j =>
      match (j.state.advancePipeline g expired).1 with
      | .staged txn => (commitStaged g fuel now txn).attempt.bind fun _ => .ret true
      | .parked => .ret false
      | .idle => .ret false : JournalIo Journal Bool).Safe (pipeline g) (fun _ => Idle) s := by
  have htake : ∀ t : Sys, t.Checked committed → _ := fun t ht =>
    ht.toSlot.take ht.snapshot (f := fun st => (st.advancePipeline g expired).2)
      (ht.lined.1.advancePipeline_takes g expired)
  refine .op Checked.stable (fun _ ht => ht.toSlot.seated (placed_none (by decide))) hs
    (fun t ht => (htake t ht).1) fun t ht => ?_
  change Prog.Safe _ (match (t.state.advancePipeline g expired).1 with
      | .staged txn => (commitStaged g fuel now txn).attempt.bind fun _ => .ret true
      | .parked => .ret false
      | .idle => .ret false) _ _
  have htaken := (htake t ht).2
  cases hstep : (t.state.advancePipeline g expired).1 with
  | staged txn =>
    rw [hstep] at htaken
    cases htaken with
    | drop hd => exact hd.elim
    | keep h => cases h
    | stage txn h tid drained slot =>
      cases h
      have hcommit : (commitStaged g fuel now txn).attempt.Safe (pipeline g) (fun _ => Idle) _ :=
        .attempt ((commitStaged_safe tid drained fuel now slot).mono fun _ _ h => h.rest)
      exact hcommit.bind (fun _ _ ht => .ret Idle.stable (fun _ ht => ht.seated) ht fun _ h => h) fun _ _ h => h
  | parked =>
    rw [hstep] at htaken
    exact .ret Idle.stable (fun _ ht => ht.seated) htaken.stay.rest fun _ h => h
  | idle =>
    rw [hstep] at htaken
    exact .ret Idle.stable (fun _ ht => ht.seated) htaken.stay.rest fun _ h => h

theorem commitOne_safe (hs : s.Idle)
    (hopen : s.ghost.closed = false) :
    (commitOne g fuel now expired).Safe (pipeline g) (fun _ => Idle) s := by
  have hmild : IoOp.Mild .observe := trivial
  refine .op (P := fun t => t.Idle ∧ t.ghost.closed = false)
    (fun _ _ ht h => ⟨Idle.stable _ _ ht.1 h, open_stable ht.2 h⟩) (fun _ ht => ht.1.seated) ⟨hs, hopen⟩
    (fun t ht => (ht.1.mild hmild).1) fun t ht => ?_
  have hidle := (ht.1.mild hmild).2
  change Prog.Safe _ (if t.mem.aborted then .ret false else _) _ _
  split
  · exact .ret Idle.stable (fun _ ht => ht.seated) hidle fun _ h => h
  · next habort =>
    obtain ⟨committed, i, hi, hs, hgap⟩ := ht.1
    have hzero : i = 0 := by
      rcases hgap with h | h | h
      · exact h
      · exact absurd h.2 habort
      · rw [ht.2] at h
        cases h
    subst hzero
    exact take_safe fuel now expired ⟨(hs.mild hmild).2, eq_false_of_ne_true habort⟩

end

def Resting (s : Sys) : Prop := ∃ committed, s.Slot True none committed (committed.add 1) ∨
  s.Slot True none committed (committed.add 2) ∧ s.state.active = none

theorem mem_rely (hc : s.ghost.closed = true) (h : Rely g s t) : t.mem = s.mem := by
  cases h with
  | call call hopen _ =>
    rw [hc] at hopen
    cases hopen
  | data b v _ => rfl
  | flush => rfl

theorem Resting.stable : (pipeline g).Stable Resting := by
  rintro s t ⟨committed, hs | ⟨hs, hvacant⟩⟩ h
  · exact ⟨committed, .inl (hs.rely h)⟩
  · refine ⟨committed, .inr ⟨hs.rely h, ?_⟩⟩
    rw [show t.state = s.state from congrArg Journal.state (mem_rely (hs.quiet trivial).1 h)]
    exact hvacant

theorem Resting.rest (hs : s.Resting) : s.Idle := by
  obtain ⟨committed, hs | ⟨hs, -⟩⟩ := hs
  · exact hs.rest
  · exact ⟨committed, 1, by decide, hs.relax, .inr (.inr (hs.quiet trivial).1)⟩

theorem takeForFlush_vacant (hc : st.committing = none) (ha : st.active = none) :
    st.takeForFlush = (.drained, st) := by
  obtain ⟨hr, hl⟩ := Option.or_eq_none_iff.mp ha
  simp [takeForFlush, hc, hr, hl]

def Emptied (staged : Option Transaction) (s : Sys) : Prop :=
  match staged with
  | none => s.Resting
  | some txn => ∃ committed, txn.tid = committed.add 1 ∧ txn.tUpdates = 0 ∧ s.Staged True txn committed

theorem Taken.emptied (hs : s.Taken True True committed staged) : s.Emptied staged := by
  cases hs with
  | stage txn h tid drained slot =>
    subst h
    exact ⟨committed, tid, drained, slot⟩
  | drop _ h slot vacant =>
    subst h
    exact ⟨committed, .inr ⟨slot, vacant⟩⟩
  | keep h slot =>
    subst h
    exact ⟨committed, .inl slot⟩

theorem Resting.take (hs : s.Resting) :
    s.Advances (handle (.atomically fun j => { j with state := j.state.takeForFlush.2 }) s).2 ∧
      (handle (.atomically fun j => { j with state := j.state.takeForFlush.2 }) s).2.Emptied
        (flushed s.state.takeForFlush.1) := by
  obtain ⟨committed, hs | ⟨hs, hvacant⟩⟩ := hs
  · have htake := hs.take (hs.quiet trivial).2.2 (f := fun st => st.takeForFlush.2) hs.lined.1.takeForFlush_takes
    exact ⟨htake.1, htake.2.emptied⟩
  · have htake := takeForFlush_vacant hs.committing hvacant
    have hsame : ({ s.mem with state := s.state.takeForFlush.2 } : Journal) = s.mem := by rw [htake]
    have hidle := hs.idle (f := fun j => { j with state := j.state.takeForFlush.2 }) hsame
    refine ⟨hidle.1, ?_⟩
    rw [htake]
    refine ⟨committed, .inr ⟨hidle.2, ?_⟩⟩
    rw [show (handle (.atomically fun j => { j with state := j.state.takeForFlush.2 }) s).2.state = s.state from
      congrArg Prod.snd htake]
    exact hvacant

def Flushed : Except Fault Unit → Sys → Prop
  | .ok _ => Resting
  | .error _ => Idle

def flushAfter (g : JournalGeometry) (fuel : Nat) (now : Timestamp) (n : Nat) : FlushStep → JournalIo Journal Unit
  | .refused e => .fail e
  | .staged txn => (commitStaged g fuel now txn).bind fun _ => flushLoop g fuel now n
  | .dropped => flushLoop g fuel now n
  | .drained => .ret ()

theorem flushLoop_safe (fuel : Nat) (now : Timestamp) (n : Nat) (hs : s.Resting) :
    (flushLoop g fuel now n).Safe (pipeline g) Flushed s := by
  induction n generalizing s with
  | zero => exact .fail Resting.stable (fun _ ht => ht.rest.seated) hs fun _ h => h.rest
  | succ n ih =>
    refine .op Resting.stable (fun _ ht => ht.rest.seated) hs (fun t ht => ht.take.1) fun t ht => ?_
    change Prog.Safe _ (flushAfter g fuel now n t.state.takeForFlush.1) _ _
    have htaken := ht.take.2
    cases hstep : t.state.takeForFlush.1 with
    | refused e =>
      rw [hstep] at htaken
      exact .fail Resting.stable (fun _ ht => ht.rest.seated) htaken fun _ h => h.rest
    | staged txn =>
      rw [hstep] at htaken
      obtain ⟨committed, htid, hzero, hstaged⟩ := htaken
      exact (commitStaged_safe htid hzero fuel now hstaged).bind (fun _ _ h => ih ⟨_, .inl h⟩) fun _ _ h => h.rest
    | dropped =>
      rw [hstep] at htaken
      exact ih htaken
    | drained =>
      rw [hstep] at htaken
      exact .ret Resting.stable (fun _ ht => ht.rest.seated) htaken fun _ h => h

def Closing (s : Sys) : Prop := ∃ committed, ∃ i ≤ 1, s.Slot False none committed (committed.add (i + 1)) ∧
  (i = 0 ∨ s.mem.aborted = true) ∧ s.ghost.closed = true

theorem Closing.stable : (pipeline g).Stable Closing := by
  rintro s t ⟨committed, i, hi, hs, hgap, hc⟩ h
  exact ⟨committed, i, hi, hs.rely h, hgap.imp_right fun ha => hs.aborted_rely ha h, closed_rely hc h⟩

theorem Closing.rest (hs : s.Closing) : s.Idle := by
  obtain ⟨committed, i, hi, hs, -, hc⟩ := hs
  exact ⟨committed, i, by omega, hs, .inr (.inr hc)⟩

theorem Idle.close (hs : s.Idle) (hopen : s.ghost.closed = false) : s.close.Closing := by
  obtain ⟨committed, i, hi, hs, hgap⟩ := hs
  have hslot : s.close.Slot False none committed (committed.add (i + 1)) :=
    ⟨hs.lined, hs.committing, hs.committedTid, False.elim⟩
  rcases hgap with rfl | ⟨rfl, ha⟩ | hc
  · exact ⟨committed, 0, by decide, hslot, .inl rfl, rfl⟩
  · exact ⟨committed, 1, by decide, hslot, .inr ha, rfl⟩
  · rw [hopen] at hc
    cases hc

def vacate (j : Journal) : Journal := { j with state := { j.state with running := none, locking := none } }

theorem Closing.vacate (hs : s.Closing) : (handle (.atomically vacate) s).2.Idle := by
  obtain ⟨committed, i, hi, hs, hgap, hc⟩ := hs
  obtain ⟨n, hin, hni, hnext, -⟩ := hs.lined.offset
  have hlined : (Sys.vacate s.mem).Lined (committed.add n) := ⟨.inl rfl, hnext⟩
  obtain ⟨m, rfl⟩ : ∃ m, n = m + 1 := ⟨n - 1, by omega⟩
  exact ⟨committed, m, by omega, hs.set hlined hs.committing hs.committedTid rfl, .inr (.inr hc)⟩

theorem flushOnUnmount_safe (fuel : Nat) (now : Timestamp) (hs : s.Closing) :
    (flushOnUnmount g fuel now).Safe (pipeline g) (fun _ => Idle) s := by
  have hmild : IoOp.Mild .observe := trivial
  refine .op Closing.stable (fun _ ht => ht.rest.seated) hs (fun t ht => (ht.rest.mild hmild).1) fun t ht => ?_
  change Prog.Safe _ (if t.mem.aborted then
    (Io.atomically vacate).bind fun _ => .fail (.error .eio "journal aborted; leaving the log for recovery")
    else (flushLoop g fuel now fuel).bind fun _ => checkpoint g fuel) _ _
  obtain ⟨committed, i, hi, hslot, hgap, hc⟩ := ht
  have hclosing : (handle .observe t).2.Closing := ⟨committed, i, hi, (hslot.mild hmild).2, hgap, hc⟩
  split
  · refine .op Closing.stable (fun _ ht => ht.rest.seated) hclosing (fun t ht => .of_eq rfl) fun t ht => ?_
    exact .fail Idle.stable (fun _ ht => ht.seated) ht.vacate fun _ h => h
  · next habort =>
    have hfalse : t.mem.aborted = false := eq_false_of_ne_true habort
    obtain rfl : i = 0 := hgap.resolve_right habort
    have hresting : (handle .observe t).2.Resting :=
      ⟨committed, .inl ⟨hslot.lined, hslot.committing, hslot.committedTid, fun _ => ⟨hc, hfalse, hfalse⟩⟩⟩
    refine (flushLoop_safe fuel now fuel hresting).bind (fun _ _ h => ?_) fun _ _ h => h
    exact Idle.safe (Resting.rest h) (checkpoint_mild fuel)

theorem start_safe (hs : s.Idle) (h : Start g s t p) :
    p.Safe (pipeline g) (fun _ => Idle) t := by
  have hret : ∀ t : Sys, t.Idle → (.ret () : JournalIo Journal Unit).Safe (pipeline g) (fun _ => Idle) t :=
    fun t ht => .ret Idle.stable (fun _ ht => ht.seated) ht fun _ h => h
  cases h with
  | commit fuel now expired hopen =>
    exact (commitOne_safe fuel now expired hs hopen).bind (fun _ => hret) fun _ _ h => h
  | checkpoint fuel hopen => exact (hs.safe (runLazyCheckpoint_mild fuel)).bind (fun _ => hret) fun _ _ h => h
  | unmount fuel now hopen => exact flushOnUnmount_safe fuel now (hs.close hopen)

theorem idle_mount {sequence : Tid} {start : Option Nat} {errno : Nat}
    (hmem : s.mem = Journal.new g sequence start errno) : s.Idle := by
  refine ⟨sequence.prev, 0, by decide, ⟨?_, ?_, ?_, False.elim⟩, .inl rfl⟩
  · rw [hmem]
    exact ⟨.inl rfl, by simp [Journal.new, active, Tid.prev, Tid.add]⟩
  · rw [Sys.state, show s.world.mem = _ from hmem]
    rfl
  · rw [hmem]
    rfl

theorem Idle.holds {c : Conf} (hs : s.Idle) (h : Reaches g s c) : (pipeline g).Holds Idle c := by
  have hidle : (pipeline g).Holds Idle (⟨s, none⟩ : Conf) := hs
  exact Contract.holds_of_reaches Idle.stable (fun _ _ _ hs h => start_safe hs h) hidle h

theorem advances_step {c d : Conf} (hc : (pipeline g).Holds Idle c) (h : (machine g).Step (Start g) c d) :
    c.state.Advances d.state := by
  have hseats : c.state.state.Seats := (hc.inv fun _ ht => ht.seated).seats
  cases h with
  | rely hr =>
    cases hr with
    | call call _ _ => exact .of_eq (call.moves g _ hseats).committing
    | data b v _ => exact .of_eq rfl
    | flush => exact .of_eq rfl
  | start hs =>
    cases hs with
    | commit => exact .of_eq rfl
    | checkpoint => exact .of_eq rfl
    | unmount => exact .of_eq rfl
  | op => exact hc.guard
  | ret => exact .of_eq rfl
  | fail => exact .of_eq rfl

def Halted (s : Sys) : Prop := ∃ committed next, s.Failed none committed next

def halt (g : JournalGeometry) : Contract (IoSig Block Journal) Sys where
  toMachine := machine g
  inv := Halted
  guard _ _ := True

theorem Halted.stable : (halt g).Stable Halted :=
  fun s t ⟨committed, next, hs⟩ h => ⟨committed, next, Failed.stable s t hs h⟩

theorem Halted.safe {p : JournalIo Journal α} (hs : s.Halted) (hp : Mild p) :
    p.Safe (halt g) (fun _ => Halted) s := by
  refine .of_forall hp Halted.stable (fun _ ht => ht) (fun t o ho ht => ⟨trivial, ?_⟩) hs
  obtain ⟨committed, next, ht⟩ := ht
  exact ⟨committed, next, (ht.1.mild ho).2, (alike_of_mild ho t).aborted.trans ht.2⟩

theorem Halted.vacate (hs : s.Halted) : (handle (.atomically vacate) s).2.Halted := by
  obtain ⟨committed, next, hs, ha⟩ := hs
  exact ⟨committed, s.state.nextTid, hs.set ⟨.inl rfl, rfl⟩ hs.committing hs.committedTid rfl, ha⟩

theorem Halted.start_safe (hs : s.Halted) (h : Start g s t p) :
    p.Safe (halt g) (fun _ => Halted) t := by
  have hmild : IoOp.Mild .observe := trivial
  have hret : ∀ t : Sys, t.Halted → (.ret () : JournalIo Journal Unit).Safe (halt g) (fun _ => Halted) t :=
    fun t ht => .ret Halted.stable (fun _ ht => ht) ht fun _ h => h
  have hobserve : ∀ t : Sys, t.Halted → (handle .observe t).2.Halted := by
    rintro t ⟨committed, next, ht, ha⟩
    exact ⟨committed, next, (ht.mild hmild).2, ha⟩
  cases h with
  | commit fuel now expired hopen =>
    refine .op Halted.stable (fun _ ht => ht) hs (fun _ _ => trivial) fun t ht => ?_
    obtain ⟨-, -, -, ha⟩ := id ht
    change Prog.Safe _ ((if t.mem.aborted then .ret false else _ : JournalIo Journal Bool).bind fun _ => .ret ()) _ _
    rw [if_pos ha]
    exact hret _ (hobserve t ht)
  | checkpoint fuel hopen => exact (hs.safe (runLazyCheckpoint_mild fuel)).bind (fun _ => hret) fun _ _ h => h
  | unmount fuel now hopen =>
    obtain ⟨committed, next, hs, ha⟩ := hs
    have hclose : s.close.Halted := ⟨committed, next, ⟨hs.lined, hs.committing, hs.committedTid, False.elim⟩, ha⟩
    refine .op Halted.stable (fun _ ht => ht) hclose (fun _ _ => trivial) fun t ht => ?_
    obtain ⟨-, -, -, ha⟩ := id ht
    change Prog.Safe _ (if t.mem.aborted then
      (Io.atomically Sys.vacate).bind fun _ => .fail (.error .eio "journal aborted; leaving the log for recovery")
      else (flushLoop g fuel now fuel).bind fun _ => checkpoint g fuel) _ _
    rw [if_pos ha]
    refine .op Halted.stable (fun _ ht => ht) (hobserve t ht) (fun _ _ => trivial) fun t ht => ?_
    exact .fail Halted.stable (fun _ ht => ht) ht.vacate fun _ h => h

theorem Halted.committing {c : Conf} (hs : s.Halted) (h : Reaches g s c) : c.state.state.committing = none := by
  have hc : (halt g).Holds Halted (⟨s, none⟩ : Conf) := hs
  have hd := Contract.holds_of_reaches Halted.stable (fun _ _ _ hs h => hs.start_safe h) hc h
  obtain ⟨committed, next, hd, -⟩ := hd.inv fun _ ht => ht
  exact hd.committing

end Sys

theorem pipeline_seats {g : JournalGeometry} {s : Sys} {sequence : Tid} {start : Option Nat} {errno : Nat}
    (hmem : s.mem = Journal.new g sequence start errno) {c : Sys.Conf} (hreach : Sys.Reaches g s c) :
    c.state.Seated ∧
      (∀ d, (Sys.machine g).Step (Sys.Start g) c d → c.state.Advances d.state) ∧
      (c.task = none → c.state.mem.aborted = true →
        ∀ d, Sys.Reaches g c.state d → d.state.state.committing = none) := by
  have hc := (Sys.idle_mount hmem).holds hreach
  refine ⟨hc.inv fun _ ht => ht.seated, fun d hd => Sys.advances_step hc hd, fun htask ha d hd => ?_⟩
  obtain ⟨t, task⟩ := c
  subst htask
  obtain ⟨committed, i, hi, ht, -⟩ := hc
  exact Sys.Halted.committing ⟨committed, _, ht, ha⟩ hd

namespace Sys

variable {g : JournalGeometry} {s : Sys}

theorem Reaches.call {c : Conf} (h : Reaches g s c) (call : OpCall) (hopen : c.state.ghost.closed = false)
    (hc : call.Allowed g c.state.disk.size) : Reaches g s ⟨c.state.call g call, c.task⟩ :=
  h.tail (.rely (.call call hopen hc))

def blank : Sys :=
  mount ⟨⟨16, fun _ => Bytes.zeros 4096, []⟩, Journal.new .small (Tid.ofNat 1) none 0⟩ []

def firstHandle : Handle := journalStart (Tid.ofNat 1) 1

def filled : Sys :=
  ((blank.call .small (.admitCredits true 1)).call .small (.getCreate firstHandle 9)).call .small (.stop firstHandle)

theorem reaches_filled : Reaches .small blank ⟨filled, none⟩ := by
  have h0 : Reaches .small blank ⟨blank, none⟩ := .refl
  have h1 := h0.call (.admitCredits true 1) rfl trivial
  have h2 := h1.call (.getCreate firstHandle 9) rfl ⟨by decide, by decide⟩
  exact h2.call (.stop firstHandle) rfl trivial

end Sys

open Sys in
theorem pipeline_seats_filled :
    (∃ c : Conf, Sys.Reaches .small blank c ∧ c.state.state.committing.isSome = true ∧ c.state.Seated ∧
      ∀ d, (machine .small).Step (Start .small) c d → c.state.Advances d.state) ∧
    ∀ d, Sys.Reaches .small (filled.call .small .abort) d → d.state.state.committing = none := by
  have hstart : Sys.Reaches .small blank ⟨filled, some ((commitOne .small 1 ⟨0, 0⟩ true).bind fun _ => .ret ())⟩ :=
    reaches_filled.tail (.start (.commit 1 ⟨0, 0⟩ true rfl))
  have hstaged := (hstart.tail .op).tail .op
  have h := pipeline_seats (s := blank) rfl hstaged
  refine ⟨⟨_, hstaged, rfl, h.1, h.2.1⟩, ?_⟩
  exact (pipeline_seats (s := blank) rfl (reaches_filled.call .abort rfl trivial)).2.2 rfl rfl

open Sys in
-- the abort lands between the committer's check and its take of the seat
theorem aborted_journal_stages : ∃ c d : Conf, Sys.Reaches .small blank c ∧ (machine .small).Step (Start .small) c d ∧
    c.state.mem.aborted = true ∧ c.state.state.committing = none ∧ d.state.state.committing.isSome = true := by
  have hstart : Sys.Reaches .small blank ⟨filled, some ((commitOne .small 1 ⟨0, 0⟩ true).bind fun _ => .ret ())⟩ :=
    reaches_filled.tail (.start (.commit 1 ⟨0, 0⟩ true rfl))
  have hraced := (hstart.tail .op).tail (.rely (.call .abort rfl trivial))
  exact ⟨_, _, hraced, .op, rfl, rfl, rfl⟩

end Ext4
