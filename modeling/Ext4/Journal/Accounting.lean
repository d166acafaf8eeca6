import Ext4.Journal.CallEffects

namespace Ext4

open SortedMap JournalState Option

variable {credits k : Nat} {h : Handle} {j : Journal} {txn : Transaction} (g : JournalGeometry)
  {running : Transaction}

inductive HandleTask where
  | idle
  | starting (credits : Nat)
  | held (h : Handle)
  | restarting (h : Handle) (credits : Nat)
  | leaving (h : Handle) (credits : Nat)
  | requesting (h : Handle) (credits : Nat)
  | rejoining (h : Handle) (credits : Nat)

inductive HandleCall where
  | start (credits : Nat)
  | stop
  | extend (extra : Nat)
  | ensureChunk (need : Nat)
  | reserveNext (need : Nat)
  | reserveBurst (extra : Nat)
  | restart (credits : Nat)
  | resume (servicer : Bool)
  | getWrite (bid : Nat) (device : Option Block)
  | getCreate (bid : Nat)
  | patch (bid generation : Nat) (f : Block → Block)
  | discharge (start count : Nat)
  | pin (start count : Nat)
  | register (ino len : Nat)

namespace HandleTask

def attached : HandleTask → Option Handle
  | .held h => some h
  | .restarting h _ => some h
  | .leaving h _ => some h
  | _ => none

def updates (tid : Tid) (t : HandleTask) : Nat :=
  if t.attached.any fun h => h.tid = tid then 1 else 0

def reserved (tid : Tid) (t : HandleTask) : Nat :=
  ((t.attached.filter fun h => h.tid = tid).map Handle.remaining).getD 0

def keeping {α : Type} (j : Journal) (r : Except Fault α × Handle × JournalState) :
    HandleTask × Journal :=
  (.held r.2.1, j.withState r.2.2)

-- one call runs to the end of its journal lock window; `resume` is the next window of a task that
-- waits for admission or is inside journal_restart
def call (g : JournalGeometry) (j : Journal) : HandleTask → HandleCall → HandleTask × Journal
  | .idle, .start credits => (.starting credits, j)
  | .starting credits, .resume servicer =>
    match j.admitCredits g servicer credits with
    | (.ok (.admitted tid), j) => (.held (journalStart tid credits), j)
    | (.ok _, j) => (.starting credits, j)
    | (.error _, j) => (.idle, j)
  | .held h, .stop => (.idle, j.withState (j.state.journalStop h))
  | .held h, .extend extra => keeping j (j.state.journalExtend g h extra)
  | .held h, .ensureChunk need =>
    if need ≤ h.remaining then (.held h, j)
    else match j.state.journalExtend g h (need - h.remaining) with
      | (.ok .needsRestart, h, st) => (.restarting h need, j.withState st)
      | (_, h, st) => (.held h, j.withState st)
  | .held h, .reserveNext need => keeping j (j.state.tryReserveNext g h need)
  | .held h, .reserveBurst extra => keeping j (j.state.extendReservationForBurst g h extra)
  | .held h, .restart credits => (.restarting h credits, j)
  | .restarting h credits, .resume _ => if j.aborted then (.held h, j) else (.leaving h credits, j)
  | .leaving h credits, .resume _ => (.requesting h credits, j.withState (j.state.journalStop h))
  | .requesting h credits, .resume _ =>
    (.rejoining h credits, j.withState (j.state.requestCommitFor h.tid))
  | .rejoining h credits, .resume servicer =>
    match j.admitCredits g servicer credits with
    | (.ok (.admitted tid), j) => (.held (journalStart tid credits), j)
    | (.ok _, j) => (.rejoining h credits, j)
    | (.error _, j) => (.held h, j)
  | .held h, .getWrite bid device => keeping j (j.state.getWriteAccess g h bid device)
  | .held h, .getCreate bid => keeping j (j.state.getCreateAccess g h bid)
  | .held h, .patch bid generation f =>
    (.held h, j.withState (orKeep (j.state.patch h.tid bid generation f) j.state))
  | .held h, .discharge start count =>
    (.held h, j.withState (orKeep (j.state.discharge h.tid start count) j.state))
  | .held h, .pin start count =>
    (.held h, j.withState (orKeep (j.state.pinFreedRun h.tid start count) j.state))
  | .held h, .register ino len =>
    (.held h, j.withState (orKeep (j.state.registerOrderedData h.tid ino len) j.state))
  | t, _ => (t, j)

def refused (g : JournalGeometry) (j : Journal) : HandleTask → HandleCall → Bool
  | .rejoining _ credits, .resume servicer =>
    match (j.admitCredits g servicer credits).1 with
    | .ok _ => false
    | .error _ => true
  | _, _ => false

end HandleTask

structure HandleSys where
  journal : Journal
  tasks : SortedMap Nat HandleTask

inductive HandleEvent where
  | task (k : Nat) (c : HandleCall)
  | pipeline (expired : Bool)
  | flush
  | background (j : Journal)

namespace HandleSys

abbrev state (s : HandleSys) : JournalState := s.journal.state

def task (s : HandleSys) (k : Nat) : HandleTask := (s.tasks.get k).getD .idle

def updates (s : HandleSys) (tid : Tid) : Nat := s.tasks.total (HandleTask.updates tid)

def reserved (s : HandleSys) (tid : Tid) : Nat := s.tasks.total (HandleTask.reserved tid)

def mount (j : Journal) : HandleSys := ⟨j, .empty⟩

def step (g : JournalGeometry) (s : HandleSys) : HandleEvent → HandleSys
  | .task k c =>
    let (t, j) := (s.task k).call g s.journal c
    ⟨j, s.tasks.insert k t⟩
  | .pipeline expired => { s with journal := s.journal.withState (s.state.advancePipeline g expired).2 }
  | .flush => { s with journal := s.journal.withState s.state.takeForFlush.2 }
  | .background j => { s with journal := { j with
      state := { j.state with running := s.state.running, locking := s.state.locking } } }

def run (g : JournalGeometry) (s : HandleSys) (evs : List HandleEvent) : HandleSys :=
  evs.foldl (step g) s

def refused (g : JournalGeometry) (s : HandleSys) : HandleEvent → Bool
  | .task k c => (s.task k).refused g s.journal c
  | _ => false

def Readmits (g : JournalGeometry) : HandleSys → List HandleEvent → Prop
  | _, [] => True
  | s, ev :: evs => s.refused g ev = false ∧ Readmits g (s.step g ev) evs

instance decidableReadmits (g : JournalGeometry) :
    ∀ (s : HandleSys) (evs : List HandleEvent), Decidable (s.Readmits g evs)
  | _, [] => .isTrue trivial
  | s, ev :: evs =>
    have := decidableReadmits g (s.step g ev) evs
    inferInstanceAs (Decidable (_ ∧ _))

structure Accounted (s : HandleSys) : Prop where
  seats : s.state.Seats
  joined : ∀ k h, (s.task k).attached = some h → ∃ txn, s.state.active = some txn ∧ txn.tid = h.tid
  updates : ∀ txn, s.state.active = some txn → txn.tUpdates = s.updates txn.tid
  credits : ∀ txn, s.state.active = some txn → txn.outstandingCredits = s.reserved txn.tid

end HandleSys

structure Transfer (txn txn' : Transaction) (h h' : Handle) : Prop where
  tid : txn'.tid = txn.tid
  updates : txn'.tUpdates = txn.tUpdates
  handle : h'.tid = h.tid
  credits : txn'.outstandingCredits + h.remaining = txn.outstandingCredits + h'.remaining

namespace Transfer

variable {txn txn' captured : Transaction} {h h' : Handle}

theorem of_same (h : Handle) (htid : txn'.tid = txn.tid) (hup : txn'.tUpdates = txn.tUpdates)
    (hcr : txn'.outstandingCredits = txn.outstandingCredits) : Transfer txn txn' h h :=
  ⟨htid, hup, rfl, by rw [hcr]⟩

theorem trans {txn'' : Transaction} {h'' : Handle} (h1 : Transfer txn txn' h h')
    (h2 : Transfer txn' txn'' h' h'') : Transfer txn txn'' h h'' where
  tid := h2.tid.trans h1.tid
  updates := h2.updates.trans h1.updates
  handle := h2.handle.trans h1.handle
  credits := by
    have := h1.credits
    have := h2.credits
    omega

theorem grow (h : Handle) (txn : Transaction) (extra : Nat) :
    Transfer txn (tryGrowReservation g h txn extra).2.2 h (tryGrowReservation g h txn extra).2.1 := by
  unfold tryGrowReservation
  split_ifs
  · exact ⟨rfl, rfl, rfl, by simp only [Handle.grantCredits]; omega⟩
  · exact of_same h rfl rfl rfl

theorem spend (hpos : 0 < h.remaining) (hle : h.remaining ≤ txn.outstandingCredits) :
    Transfer txn txn.consumeReservedCredit h h.spendOneCredit :=
  ⟨rfl, rfl, rfl, by simp only [Transaction.consumeReservedCredit, Handle.spendOneCredit]; omega⟩

theorem grow_spend (h : Handle) (txn : Transaction) {extra : Nat} (hextra : 0 < extra) (h0 : h.remaining = 0)
    (hgrant : (tryGrowReservation g h txn extra).1 = .granted) :
    Transfer txn (tryGrowReservation g h txn extra).2.2.consumeReservedCredit h
      (tryGrowReservation g h txn extra).2.1.spendOneCredit := by
  refine (grow g h txn extra).trans (spend ?_ ?_)
  · unfold tryGrowReservation at hgrant ⊢
    split_ifs at hgrant ⊢
    simp only [Handle.grantCredits]
    omega
  · have hc := (grow g h txn extra).credits
    omega

theorem charge (hle : h.remaining ≤ txn.outstandingCredits) :
    Transfer txn (chargeFreshCapture g h txn).2.2 h (chargeFreshCapture g h txn).2.1 := by
  unfold chargeFreshCapture
  split_ifs with h0
  · cases hb : tryGrowReservation g h txn extendBatchBlocks with
    | mk outcome rest =>
      cases outcome with
      | granted =>
        have ht := grow_spend g h txn (show 0 < extendBatchBlocks by decide) h0 (by rw [hb])
        rw [hb] at ht
        exact ht
      | needsRestart =>
        cases h1 : tryGrowReservation g h txn 1 with
        | mk outcome rest =>
          cases outcome with
          | granted =>
            have ht := grow_spend g h txn Nat.one_pos h0 (by rw [h1])
            rw [h1] at ht
            exact ht
          | needsRestart => exact of_same h rfl rfl rfl
  · exact spend (by omega) hle

theorem captureWrite (h : Handle) (txn : Transaction) (bid : Nat) (seed device : Option Block) :
    Transfer txn (txn.captureWrite bid seed device).2 h h := by
  cases hget : (txn.unrevoke bid).metadata.get bid with
  | some capture =>
    simp only [Transaction.captureWrite, hget]
    exact of_same h rfl rfl rfl
  | none =>
    cases hsrc : seed.or device with
    | some bytes =>
      simp only [Transaction.captureWrite, hget, hsrc]
      exact of_same h rfl rfl rfl
    | none =>
      simp only [Transaction.captureWrite, hget, hsrc]
      exact of_same h rfl rfl rfl

theorem captureCreate (h : Handle) (txn : Transaction) (bid : Nat) :
    Transfer txn (txn.captureCreate bid).2 h h := by
  cases hget : (txn.unrevoke bid).metadata.get bid with
  | some capture =>
    simp only [Transaction.captureCreate, hget]
    exact of_same h rfl rfl rfl
  | none =>
    simp only [Transaction.captureCreate, hget]
    exact of_same h rfl rfl rfl

theorem applyPatch (h : Handle) {bid generation : Nat} {f : Block → Block}
    (hp : txn.applyPatch bid generation f = .ok txn') : Transfer txn txn' h h := by
  unfold Transaction.applyPatch at hp
  split at hp
  · cases hp
  · split_ifs at hp
    cases hp
    exact of_same h rfl rfl rfl

theorem forgetAll (h : Handle) (bids : List Nat) (txn : Transaction) :
    Transfer txn (bids.foldl Transaction.forgetBlock txn) h h := by
  induction bids generalizing txn with
  | nil => exact of_same h rfl rfl rfl
  | cons bid bids ih =>
    have hone : Transfer txn (txn.forgetBlock bid) h h := of_same h rfl rfl rfl
    exact hone.trans (ih (txn.forgetBlock bid))

end Transfer

namespace Transaction

variable {bid generation : Nat} {seed device : Option Block} {captured : Transaction}

theorem metadata_captureWrite (h : txn.captureWrite bid seed device = (.ok generation, captured)) :
    ∃ c, captured.metadata.get bid = some c ∧ c.generation = generation := by
  cases hget : (txn.unrevoke bid).metadata.get bid with
  | some capture =>
    simp only [captureWrite, hget, Prod.mk.injEq, Except.ok.injEq] at h
    obtain ⟨hgen, rfl⟩ := h
    exact ⟨capture, hget, hgen⟩
  | none =>
    cases hsrc : seed.or device with
    | some bytes =>
      simp only [captureWrite, hget, hsrc, Prod.mk.injEq, Except.ok.injEq] at h
      obtain ⟨hgen, rfl⟩ := h
      exact ⟨_, by rw [insertCapture, get_insert, if_pos rfl], hgen⟩
    | none => simp [captureWrite, hget, hsrc] at h

theorem metadata_captureCreate (txn : Transaction) (bid : Nat) :
    ∃ c, (txn.captureCreate bid).2.metadata.get bid = some c ∧
      c.generation = (txn.captureCreate bid).1 := by
  cases hget : (txn.unrevoke bid).metadata.get bid with
  | some capture =>
    simp only [captureCreate, hget]
    exact ⟨capture, rfl, rfl⟩
  | none =>
    simp only [captureCreate, hget]
    exact ⟨_, by rw [insertCapture, get_insert, if_pos rfl], rfl⟩

theorem metadata_charge (g : JournalGeometry) (h : Handle) (txn : Transaction) :
    (chargeFreshCapture g h txn).2.2.metadata = txn.metadata := by
  obtain ⟨-, credits, hcharge⟩ := charge_credits g h txn
  rw [hcharge]

end Transaction

def isFull {α : Type} : Except Fault α → Bool
  | .error (.error .enospc _) => true
  | _ => false

theorem isFull_map {α β : Type} (f : α → β) (r : Except Fault α) : isFull (r.map f) = isFull r := by
  cases r with
  | ok a => rfl
  | error e =>
    cases e with
    | spin => rfl
    | error errno msg => cases errno <;> rfl

-- the flag marks what can outgrow the reservation: a capture without room, a free's revoke records
inductive TxnEdit (g : JournalGeometry) (h : Handle) (txn : Transaction) : Bool → Handle → Transaction → Prop
  | same : TxnEdit g h txn false h txn
  | grow (extra : Nat) :
      TxnEdit g h txn false (tryGrowReservation g h txn extra).2.1 (tryGrowReservation g h txn extra).2.2
  | unrevoke (bid : Nat) : TxnEdit g h txn false h (txn.unrevoke bid)
  | capture {bid : Nat} {captured : Transaction} (bytes : Block) (fresh : txn.metadata.get bid = none)
      (inserted : captured = (txn.unrevoke bid).insertCapture bid bytes (txn.unrevoke_revoked bid)) :
      TxnEdit g h txn (isFull (chargeFreshCapture g h captured).1) (chargeFreshCapture g h captured).2.1
        (chargeFreshCapture g h captured).2.2
  | patch {bid generation : Nat} {f : Block → Block} {patched : Transaction}
      (applied : txn.applyPatch bid generation f = .ok patched) : TxnEdit g h txn false h patched
  | forget (bids : List Nat) : TxnEdit g h txn true h (bids.foldl Transaction.forgetBlock txn)
  | register (ino len : Nat) : TxnEdit g h txn false h (txn.registerOrderedData ino len)

variable {g}

section

variable {txn' : Transaction} {h' : Handle} {strained : Bool} (he : TxnEdit g h txn strained h' txn')
include he

theorem TxnEdit.transfer (hle : h.remaining ≤ txn.outstandingCredits) : Transfer txn txn' h h' := by
  cases he with
  | same => exact .of_same h rfl rfl rfl
  | grow extra => exact .grow g h txn extra
  | unrevoke bid => exact .of_same h rfl rfl rfl
  | @capture bid captured bytes fresh inserted =>
    have ht : Transfer txn captured h h := .of_same h (inserted ▸ rfl) (inserted ▸ rfl) (inserted ▸ rfl)
    have hcr := ht.credits
    exact ht.trans (.charge g (by omega))
  | patch applied => exact .applyPatch h applied
  | forget bids => exact .forgetAll h bids txn
  | register ino len => exact .of_same h rfl rfl rfl

theorem TxnEdit.tids :
    txn'.tid = txn.tid ∧ h'.tid = h.tid := by
  cases he with
  | same => exact ⟨rfl, rfl⟩
  | grow extra => exact ⟨(Transfer.grow g h txn extra).tid, (Transfer.grow g h txn extra).handle⟩
  | unrevoke bid => exact ⟨rfl, rfl⟩
  | @capture bid captured bytes fresh inserted =>
    obtain ⟨htid, credits, hcharge⟩ := charge_credits g h captured
    refine ⟨?_, htid⟩
    rw [hcharge, inserted]
    rfl
  | patch applied => exact ⟨(Transfer.applyPatch h applied).tid, rfl⟩
  | forget bids => exact ⟨(Transfer.forgetAll h bids txn).tid, rfl⟩
  | register ino len => exact ⟨rfl, rfl⟩

end

variable (g)

namespace JournalState

variable {st st' : JournalState} {txn txn' : Transaction} {h h' : Handle}

inductive Grown (g : JournalGeometry) (h : Handle) (st : JournalState) : Handle → JournalState → Prop
  | same : Grown g h st h st
  | grow {running : Transaction} (extra : Nat) (held : st.running = some running) :
      Grown g h st (tryGrowReservation g h running extra).2.1
        { st with running := some (tryGrowReservation g h running extra).2.2 }

theorem grown_journalExtend (st : JournalState) (h : Handle) (extra : Nat) :
    Grown g h st (st.journalExtend g h extra).2.1 (st.journalExtend g h extra).2.2 := by
  unfold journalExtend
  split_ifs
  · exact .same
  · cases hr : st.running with
    | none => exact .same
    | some running => exact .grow extra hr

theorem grown_tryReserveNext (st : JournalState) (h : Handle) (need : Nat) :
    Grown g h st (st.tryReserveNext g h need).2.1 (st.tryReserveNext g h need).2.2 := by
  unfold tryReserveNext
  split_ifs
  · exact .same
  · exact .same
  · cases hr : st.running with
    | none => exact .same
    | some running => exact .grow (need - h.remaining) hr

theorem grown_extendReservationForBurst (st : JournalState) (h : Handle) (extra : Nat) :
    Grown g h st (st.extendReservationForBurst g h extra).2.1 (st.extendReservationForBurst g h extra).2.2 := by
  unfold extendReservationForBurst
  split_ifs
  · exact .same
  · cases hr : st.running with
    | none => exact .same
    | some running => exact .grow extra hr

structure Serves (st : JournalState) (txn : Transaction) (h : Handle) : Prop where
  seats : st.Seats
  active : st.active = some txn
  tid : txn.tid = h.tid

theorem Serves.activeTxn (hs : st.Serves txn h) : st.activeTxn h.tid = some txn := by
  obtain ⟨hseats, hactive, htid⟩ := hs
  unfold JournalState.activeTxn
  unfold JournalState.active at hactive
  rcases hseats with hr | hl
  · rw [hr, none_or] at hactive
    simp [hr, hactive, htid]
  · rw [hl, or_none] at hactive
    simp [hactive, htid]

theorem Serves.seat (hs : st.Serves txn h) (htid : txn'.tid = txn.tid) :
    (st.setActive txn').Seats ∧ (st.setActive txn').active = some txn' := by
  obtain ⟨hseats, hactive, -⟩ := hs
  unfold JournalState.active at hactive
  unfold setActive
  rcases hseats with hr | hl
  · rw [hr, none_or] at hactive
    simp only [hr, filter_none, isSome_none, Bool.false_eq_true, if_false, hactive,
      filter_some, htid, decide_true, if_true, isSome_some]
    exact ⟨.inl rfl, by simp [JournalState.active]⟩
  · rw [hl, or_none] at hactive
    simp only [hactive, filter_some, htid, decide_true, if_true, isSome_some]
    exact ⟨.inr hl, by simp [JournalState.active]⟩

def Hands (txn : Transaction) (h : Handle) (st : JournalState) (h' : Handle) : Prop :=
  ∃ txn', st.Serves txn' h' ∧ Transfer txn txn' h h'

def Edited (g : JournalGeometry) (h : Handle) (txn : Transaction) (strained : Bool) (st : JournalState) (h' : Handle) : Prop :=
  ∃ txn', st.Serves txn' h' ∧ TxnEdit g h txn strained h' txn'

section

variable (hs : st.Serves txn h)

include hs

theorem Serves.same : Edited g h txn false st h := ⟨txn, hs, .same⟩

theorem Serves.set {strained : Bool} (he : TxnEdit g h txn strained h' txn') :
    Edited g h txn strained (st.setActive txn') h' := by
  obtain ⟨htid, hhandle⟩ := he.tids
  obtain ⟨hseats, hactive⟩ := hs.seat htid
  exact ⟨txn', ⟨hseats, hactive, (htid.trans hs.tid).trans hhandle.symm⟩, he⟩

theorem Serves.grown (hg : Grown g h st h' st') : Edited g h txn false st' h' := by
  cases hg with
  | same => exact hs.same g
  | @grow running extra hr =>
    obtain rfl : running = txn := by simpa [JournalState.active, hr] using hs.active
    have ht := Transfer.grow g h running extra
    have hl : st.locking = none := hs.seats.resolve_left (by simp [hr])
    exact ⟨_, ⟨.inr hl, by simp [JournalState.active], (ht.tid.trans hs.tid).trans ht.handle.symm⟩, .grow extra⟩

theorem Serves.settleFresh {bid : Nat} (bytes : Block) (hfresh : txn.metadata.get bid = none) (generation : Nat) :
    let captured := (txn.unrevoke bid).insertCapture bid bytes (txn.unrevoke_revoked bid)
    Edited g h txn (isFull (settleCapture g h st true generation captured).1)
      (settleCapture g h st true generation captured).2.2 (settleCapture g h st true generation captured).2.1 := by
  intro captured
  simp only [settleCapture, if_true, isFull_map]
  exact hs.set g (.capture bytes hfresh rfl)

theorem Serves.getWriteAccess (bid : Nat)
    (device : Option Block) : Edited g h txn (isFull (st.getWriteAccess g h bid device).1)
      (st.getWriteAccess g h bid device).2.2 (st.getWriteAccess g h bid device).2.1 := by
  simp only [JournalState.getWriteAccess, hs.activeTxn, Transaction.captureWrite, Transaction.isCaptured]
  cases hget : txn.metadata.get bid with
  | some capture =>
    simp only [Transaction.unrevoke, hget]
    exact hs.set g (.unrevoke bid)
  | none =>
    cases hsrc : (st.captureSeed h.tid bid).or device with
    | some bytes =>
      simp only [Transaction.unrevoke, hget]
      exact hs.settleFresh g bytes hget _
    | none =>
      simp only [Transaction.unrevoke, hget]
      exact hs.set g (.unrevoke bid)

theorem Serves.getCreateAccess (bid : Nat) :
    Edited g h txn (isFull (st.getCreateAccess g h bid).1) (st.getCreateAccess g h bid).2.2
      (st.getCreateAccess g h bid).2.1 := by
  simp only [JournalState.getCreateAccess, hs.activeTxn, Transaction.captureCreate, Transaction.isCaptured]
  cases hget : txn.metadata.get bid with
  | some capture =>
    simp only [Transaction.unrevoke, hget]
    exact hs.set g (.unrevoke bid)
  | none =>
    simp only [Transaction.unrevoke, hget]
    exact hs.settleFresh g _ hget _

theorem Serves.patch (bid generation : Nat)
    (f : Block → Block) : Edited g h txn false (orKeep (st.patch h.tid bid generation f) st) h := by
  cases hp : txn.applyPatch bid generation f with
  | error e =>
    simp only [JournalState.patch, hs.activeTxn, hp, Except.map, orKeep, Except.toOption]
    exact hs.same g
  | ok patched =>
    simp only [JournalState.patch, hs.activeTxn, hp, Except.map, orKeep, Except.toOption]
    exact hs.set g (.patch hp)

theorem Serves.discharge (start count : Nat) :
    Edited g h txn true (orKeep (st.discharge h.tid start count) st) h := by
  obtain ⟨txn', hserves, he⟩ := hs.set g (.forget (List.range' start count))
  simp only [JournalState.discharge, hs.activeTxn, orKeep, Except.toOption]
  exact ⟨txn', ⟨hserves.seats, hserves.active, hserves.tid⟩, he⟩

theorem Serves.pinFreedRun (start count : Nat) :
    Edited g h txn false (orKeep (st.pinFreedRun h.tid start count) st) h := by
  unfold JournalState.pinFreedRun
  split_ifs
  · exact hs.same g
  · simp only [hs.activeTxn, orKeep, Except.toOption]
    exact ⟨txn, ⟨hs.seats, hs.active, hs.tid⟩, .same⟩

theorem Serves.registerOrderedData (ino len : Nat) :
    Edited g h txn false (orKeep (st.registerOrderedData h.tid ino len) st) h := by
  simp only [JournalState.registerOrderedData, hs.activeTxn, orKeep, Except.toOption]
  exact hs.set g (.register ino len)

theorem Serves.journalStop :
    (st.journalStop h).Seats ∧ (st.journalStop h).active = some { txn with
      tUpdates := txn.tUpdates - 1
      outstandingCredits := txn.outstandingCredits - h.remaining } := by
  simp only [JournalState.journalStop, hs.activeTxn]
  exact hs.seat rfl

end

inductive Admission (g : JournalGeometry) (credits : Nat) (st : JournalState) (outcome : Admit)
    (st' : JournalState) : Prop
  | locked (tid : Tid) (wait : outcome = .waitRoom tid) (same : st' = st)
  | full (wait : ∀ tid, outcome ≠ .admitted tid) (seats : st'.Seats) (free : st.locking = none)
      (active : st'.active = some (st.running.getD (.new st.nextTid)))
  | granted (running : Transaction) (grant : outcome = .admitted running.tid) (seats : st'.Seats)
      (free : st.locking = none) (base : running = st.running.getD (.new st.nextTid))
      (room : hasCapacity g running credits = true)
      (active : st'.active = some { running with
        tUpdates := running.tUpdates + 1
        outstandingCredits := running.outstandingCredits + credits })

theorem admission (servicer : Bool) (credits : Nat) (st : JournalState) :
    Admission g credits st (st.admitCredits g servicer credits).1
      (st.admitCredits g servicer credits).2 := by
  unfold admitCredits
  cases hl : st.locking with
  | some locking => exact .locked locking.tid rfl rfl
  | none =>
    simp only
    by_cases hroom : hasCapacity g (st.running.getD (.new st.nextTid)) credits = false
    · rw [if_pos hroom]
      exact .full (fun _ h => by cases h) (.inr rfl) hl rfl
    · rw [if_neg hroom]
      split
      · exact .full (fun _ h => by cases h) (.inr rfl) hl rfl
      · exact .granted _ rfl (.inr rfl) hl rfl (by simpa using hroom) rfl

inductive Drains (st : JournalState) (staged : Option Transaction) (st' : JournalState) : Prop
  | taken (txn : Transaction) (held : st.active = some txn) (drained : txn.tUpdates = 0)
      (same : ∀ t, staged = some t → t = txn) (vacant : st'.running = none ∧ st'.locking = none)
  | kept (none : staged = none) (seats : st'.Seats) (active : st'.active = st.active)

def staged : PipelineStep → Option Transaction
  | .staged txn => some txn
  | _ => none

def flushed : FlushStep → Option Transaction
  | .staged txn => some txn
  | _ => none

inductive Takes (drops : Prop) (st : JournalState) (staged : Option Transaction) (st' : JournalState) : Prop
  | stage (txn : Transaction) (h : staged = some txn) (held : st.active = some txn) (drained : txn.tUpdates = 0)
      (vacant : st'.running = none ∧ st'.locking = none) (next : st'.nextTid = st.nextTid)
      (committing : st'.committing = some ⟨txn, .locked⟩)
  | drop (hd : drops) (h : staged = none) (txn : Transaction) (held : st.active = some txn)
      (drained : txn.tUpdates = 0) (vacant : st'.running = none ∧ st'.locking = none)
      (next : st'.nextTid = st.nextTid) (committing : st'.committing = st.committing)
  | keep (h : staged = none) (seats : st'.Seats) (active : st'.active = st.active)
      (next : st'.nextTid = st.nextTid) (committing : st'.committing = st.committing)

theorem Takes.drains {drops : Prop} {staged : Option Transaction} {st' : JournalState}
    (h : Takes drops st staged st') : Drains st staged st' := by
  cases h with
  | stage txn h held drained vacant =>
    refine .taken txn held drained (fun t ht => ?_) vacant
    rw [h] at ht
    cases ht
    rfl
  | drop _ h txn held drained vacant =>
    refine .taken txn held drained (fun t ht => ?_) vacant
    rw [h] at ht
    cases ht
  | keep h seats active => exact .kept h seats active

theorem Seats.advancePipeline_takes (hs : st.Seats) (g : JournalGeometry) (expired : Bool) :
    Takes False st (staged (st.advancePipeline g expired).1) (st.advancePipeline g expired).2 := by
  have hstay : Takes False st none st := .keep rfl hs rfl rfl rfl
  unfold advancePipeline
  split_ifs
  · exact hstay
  · cases hl : st.locking with
    | some locked =>
      have hr : st.running = none := hs.resolve_right (by simp [hl])
      simp only
      split_ifs with hzero
      · exact .stage locked rfl (by simp [active, hr, hl]) hzero ⟨hr, rfl⟩ rfl rfl
      · exact hstay
    | none =>
      cases hc : st.committableRunning with
      | none => exact hstay
      | some txn =>
        have hr : st.running = some txn := (filter_eq_some_iff.mp hc).1
        simp only
        split_ifs with htrigger hzero
        · exact .stage txn rfl (by simp [active, hr]) hzero ⟨rfl, rfl⟩ rfl rfl
        · exact .keep rfl (.inl rfl) (by simp [active, hr]) rfl rfl
        · exact hstay

theorem Seats.takeForFlush_takes (hs : st.Seats) :
    Takes True st (flushed st.takeForFlush.1) st.takeForFlush.2 := by
  have hstay : Takes True st none st := .keep rfl hs rfl rfl rfl
  unfold takeForFlush
  by_cases hc : st.committing.isSome
  · rw [if_pos hc]
    exact hstay
  · rw [if_neg hc]
    cases ht : st.locking.or st.running with
    | none => exact hstay
    | some txn =>
      simp only
      by_cases hzero : txn.tUpdates ≠ 0
      · rw [if_pos hzero]
        exact hstay
      · rw [if_neg hzero]
        rw [not_not] at hzero
        have hactive : st.active = some txn := by
          rcases hs with hr | hl
          · simpa [active, hr] using ht
          · simpa [active, hl] using ht
        rcases hs with hr | hl
        · have hl : st.locking.isSome := by simp [hr] at ht; simp [ht]
          simp only [hl, if_true]
          split_ifs
          · exact .stage txn rfl hactive hzero ⟨hr, rfl⟩ rfl rfl
          · exact .drop trivial rfl txn hactive hzero ⟨hr, rfl⟩ rfl rfl
        · simp only [hl, isSome_none, Bool.false_eq_true, if_false]
          split_ifs
          · exact .stage txn rfl hactive hzero ⟨rfl, rfl⟩ rfl rfl
          · exact .drop trivial rfl txn hactive hzero ⟨rfl, rfl⟩ rfl rfl

theorem Seats.advancePipeline (hs : st.Seats) (g : JournalGeometry) (expired : Bool) :
    Drains st (staged (st.advancePipeline g expired).1) (st.advancePipeline g expired).2 :=
  (hs.advancePipeline_takes g expired).drains

theorem Seats.takeForFlush (hs : st.Seats) : Drains st (flushed st.takeForFlush.1) st.takeForFlush.2 :=
  hs.takeForFlush_takes.drains

end JournalState

def HandleTask.strains (g : JournalGeometry) (j : Journal) : HandleTask → HandleCall → Bool
  | .held h, .getWrite bid device => isFull (j.state.getWriteAccess g h bid device).1
  | .held h, .getCreate bid => isFull (j.state.getCreateAccess g h bid).1
  | .held _, .discharge _ _ => true
  | _, _ => false

def HandleCall.reaches : HandleCall → Bool
  | .stop | .getWrite _ _ | .getCreate _ | .patch _ _ _ | .discharge _ _ | .pin _ _ | .register _ _ => true
  | _ => false

theorem HandleTask.call_grown (h : Handle) (j : Journal) (c : HandleCall) (hc : c.reaches = false) :
    ∃ h', ((HandleTask.held h).call g j c).1.attached = some h' ∧
      JournalState.Grown g h j.state h' ((HandleTask.held h).call g j c).2.state ∧
      (HandleTask.held h).strains g j c = false := by
  cases c with
  | extend extra => exact ⟨_, rfl, grown_journalExtend g j.state h extra, rfl⟩
  | ensureChunk need =>
    simp only [HandleTask.call]
    by_cases hneed : need ≤ h.remaining
    · rw [if_pos hneed]
      exact ⟨_, rfl, .same, rfl⟩
    · rw [if_neg hneed]
      have hgrown := grown_journalExtend g j.state h (need - h.remaining)
      cases hx : j.state.journalExtend g h (need - h.remaining) with
      | mk res rest =>
        rw [hx] at hgrown
        cases res with
        | error e => exact ⟨_, rfl, hgrown, rfl⟩
        | ok outcome => cases outcome <;> exact ⟨_, rfl, hgrown, rfl⟩
  | reserveNext need => exact ⟨_, rfl, grown_tryReserveNext g j.state h need, rfl⟩
  | reserveBurst extra => exact ⟨_, rfl, grown_extendReservationForBurst g j.state h extra, rfl⟩
  | start credits => exact ⟨_, rfl, .same, rfl⟩
  | restart credits => exact ⟨_, rfl, .same, rfl⟩
  | resume servicer => exact ⟨_, rfl, .same, rfl⟩
  | _ => cases hc

theorem HandleTask.call_held (hs : j.state.Serves txn h) (c : HandleCall)
    (hc : c ≠ .stop) : ∃ h', ((HandleTask.held h).call g j c).1.attached = some h' ∧
      JournalState.Edited g h txn ((HandleTask.held h).strains g j c) ((HandleTask.held h).call g j c).2.state h' := by
  cases hr : c.reaches with
  | false =>
    obtain ⟨h', hatt, hgrown, hstrains⟩ := HandleTask.call_grown g h j c hr
    rw [hstrains]
    exact ⟨h', hatt, hs.grown g hgrown⟩
  | true =>
    cases c with
    | stop => exact absurd rfl hc
    | getWrite bid device => exact ⟨_, rfl, hs.getWriteAccess g bid device⟩
    | getCreate bid => exact ⟨_, rfl, hs.getCreateAccess g bid⟩
    | patch bid generation f => exact ⟨_, rfl, hs.patch g bid generation f⟩
    | discharge start count => exact ⟨_, rfl, hs.discharge g start count⟩
    | pin start count => exact ⟨_, rfl, hs.pinFreedRun g start count⟩
    | register ino len => exact ⟨_, rfl, hs.registerOrderedData g ino len⟩
    | _ => cases hr

def JournalState.Base (st : JournalState) (base : Transaction) : Prop :=
  st.active = some base ∨ st.active = none ∧ base = .new st.nextTid

theorem JournalState.base_running {st : JournalState} (hl : st.locking = none) :
    st.Base (st.running.getD (.new st.nextTid)) := by
  have hactive : st.active = st.running := by simp [JournalState.active, hl]
  rw [JournalState.Base, hactive]
  cases st.running with
  | none => exact .inr ⟨rfl, rfl⟩
  | some running => exact .inl rfl

inductive Turn (g : JournalGeometry) (s : HandleSys) (strained : Bool) (st' : JournalState) : Prop
  | kept (active : st'.active = s.state.active)
  | vacated (vacant : st'.active = none)
  | edited {k : Nat} {h h' : Handle} {txn txn' : Transaction} (held : s.state.active = some txn)
      (joined : (s.task k).attached = some h) (edit : TxnEdit g h txn strained h' txn') (active : st'.active = some txn')
  | closed {txn : Transaction} (credits : Nat) (held : s.state.active = some txn) (active : st'.active = some { txn with
      tUpdates := txn.tUpdates - 1
      outstandingCredits := txn.outstandingCredits - credits })
  | seated {base : Transaction} (seat : s.state.Base base) (active : st'.active = some base)
  | opened {base : Transaction} {credits : Nat} (seat : s.state.Base base) (room : hasCapacity g base credits = true)
      (active : st'.active = some { base with
        tUpdates := base.tUpdates + 1
        outstandingCredits := base.outstandingCredits + credits })

namespace HandleSys

variable {s : HandleSys} {t : HandleTask} {tid : Tid} {taken : Option Transaction} {outcome : Admit}

theorem task_attached (h : s.tasks.get k = some t) : s.task k = t := by
  rw [task, h]
  rfl

theorem Accounted.absent (hs : s.Accounted) (hnone : s.state.active = none) (k : Nat) :
    (s.task k).attached = none := by
  cases ha : (s.task k).attached with
  | none => rfl
  | some h =>
    obtain ⟨txn, hactive, -⟩ := hs.joined k h ha
    rw [hnone] at hactive
    cases hactive

theorem updates_of_absent (h : t.attached = none) (tid : Tid) :
    t.updates tid = 0 := by
  simp [HandleTask.updates, h]

theorem reserved_of_absent (h : t.attached = none) (tid : Tid) :
    t.reserved tid = 0 := by
  simp [HandleTask.reserved, h]

theorem updates_of_attached (ha : t.attached = some h) :
    t.updates h.tid = 1 := by
  simp [HandleTask.updates, ha]

theorem reserved_of_attached (ha : t.attached = some h) :
    t.reserved h.tid = h.remaining := by
  simp [HandleTask.reserved, ha, filter_some]

def activeUpdates (s : HandleSys) : Nat := (s.state.active.map Transaction.tUpdates).getD 0

def activeCredits (s : HandleSys) : Nat := (s.state.active.map Transaction.outstandingCredits).getD 0

theorem Accounted.totals (hs : s.Accounted) (htid : ∀ txn, s.state.active = some txn → txn.tid = tid) :
    s.updates tid = s.activeUpdates ∧ s.reserved tid = s.activeCredits := by
  cases ha : s.state.active with
  | none =>
    have habsent := hs.absent ha
    have hup : s.updates tid = 0 := total_eq_zero fun k t hk =>
      updates_of_absent (task_attached hk ▸ habsent k) tid
    have hcr : s.reserved tid = 0 := total_eq_zero fun k t hk =>
      reserved_of_absent (task_attached hk ▸ habsent k) tid
    simp [activeUpdates, activeCredits, ha, hup, hcr]
  | some txn =>
    have hup := hs.updates txn ha
    have hcr := hs.credits txn ha
    rw [htid txn ha] at hup hcr
    simp [activeUpdates, activeCredits, ha, hup, hcr]

theorem total_insert (s : HandleSys) {f : HandleTask → Nat} (hidle : f .idle = 0) (k : Nat)
    (t : HandleTask) : (s.tasks.insert k t).total f + f (s.task k) = s.tasks.total f + f t := by
  have := s.tasks.total_insert f k t
  rw [task]
  cases hk : s.tasks.get k with
  | none =>
    rw [hk] at this
    simpa [weigh, hidle] using this
  | some old =>
    rw [hk] at this
    simpa [weigh] using this

theorem task_insert (s : HandleSys) (j : Journal) (k k' : Nat) (t : HandleTask) :
    (HandleSys.mk j (s.tasks.insert k t)).task k' = if k' = k then t else s.task k' := by
  simp only [task, get_insert]
  split_ifs <;> rfl

section

variable (hs : s.Accounted)

include hs

theorem Accounted.replace (hseats : j.state.Seats) (hactive : j.state.active = some txn)
    (htid : ∀ old, s.state.active = some old → old.tid = txn.tid)
    (hjoin : ∀ h, t.attached = some h → h.tid = txn.tid)
    (hup : txn.tUpdates + (s.task k).updates txn.tid = s.activeUpdates + t.updates txn.tid)
    (hcr : txn.outstandingCredits + (s.task k).reserved txn.tid = s.activeCredits + t.reserved txn.tid) :
    Accounted ⟨j, s.tasks.insert k t⟩ := by
  obtain ⟨hup', hcr'⟩ := hs.totals htid
  have htotal := s.total_insert (f := HandleTask.updates txn.tid) rfl k t
  have hreserved := s.total_insert (f := HandleTask.reserved txn.tid) rfl k t
  refine ⟨hseats, ?_, ?_, ?_⟩
  · intro k' h ha
    refine ⟨txn, hactive, ?_⟩
    rw [task_insert] at ha
    split_ifs at ha
    · exact (hjoin h ha).symm
    · obtain ⟨old, hold, holdTid⟩ := hs.joined k' h ha
      exact (htid old hold).symm.trans holdTid
  · intro txn' ha
    obtain rfl : txn = txn' := Option.some.inj (hactive.symm.trans ha)
    simp only [HandleSys.updates] at hup' ⊢
    omega
  · intro txn' ha
    obtain rfl : txn = txn' := Option.some.inj (hactive.symm.trans ha)
    simp only [HandleSys.reserved] at hcr' ⊢
    omega

theorem Accounted.keep (hseats : j.state.Seats) (hactive : j.state.active = s.state.active)
    (hatt : t.attached = (s.task k).attached) : Accounted ⟨j, s.tasks.insert k t⟩ := by
  have hup : ∀ tid, t.updates tid = (s.task k).updates tid := fun tid => by
    simp only [HandleTask.updates, hatt]
  have hcr : ∀ tid, t.reserved tid = (s.task k).reserved tid := fun tid => by
    simp only [HandleTask.reserved, hatt]
  have hout : ∀ k' h, ((HandleSys.mk j (s.tasks.insert k t)).task k').attached = some h →
      (s.task k').attached = some h := by
    intro k' h ha
    rw [task_insert] at ha
    split_ifs at ha with hk
    · rw [hk, ← hatt]
      exact ha
    · exact ha
  refine ⟨hseats, fun k' h ha => ?_, fun txn ha => ?_, fun txn ha => ?_⟩
  · obtain ⟨txn, htxn, htid⟩ := hs.joined k' h (hout k' h ha)
    exact ⟨txn, hactive.trans htxn, htid⟩
  · have htotal := s.total_insert (f := HandleTask.updates txn.tid) rfl k t
    rw [hs.updates txn (hactive.symm.trans ha)]
    have := hup txn.tid
    simp only [HandleSys.updates]
    omega
  · have htotal := s.total_insert (f := HandleTask.reserved txn.tid) rfl k t
    rw [hs.credits txn (hactive.symm.trans ha)]
    have := hcr txn.tid
    simp only [HandleSys.reserved]
    omega

section

variable (ha : (s.task k).attached = some h)

include ha

theorem Accounted.serves :
    ∃ txn, s.state.Serves txn h ∧ h.remaining ≤ txn.outstandingCredits ∧ 0 < txn.tUpdates := by
  obtain ⟨txn, hactive, htid⟩ := hs.joined k h ha
  cases hk : s.tasks.get k with
  | none => simp [task, hk, HandleTask.attached] at ha
  | some t =>
    rw [task_attached hk] at ha
    have hup := le_total hk (HandleTask.updates txn.tid)
    have hcr := le_total hk (HandleTask.reserved txn.tid)
    rw [htid, updates_of_attached ha, ← htid] at hup
    rw [htid, reserved_of_attached ha, ← htid] at hcr
    refine ⟨txn, ⟨hs.seats, hactive, htid⟩, ?_, ?_⟩
    · rw [hs.credits txn hactive]
      exact hcr
    · rw [hs.updates txn hactive]
      exact hup

theorem Accounted.hands {h' : Handle} (hserves : s.state.Serves txn h)
    (hh : JournalState.Hands txn h j.state h') (ht : t.attached = some h') :
    Accounted ⟨j, s.tasks.insert k t⟩ := by
  obtain ⟨txn', hserves', htransfer⟩ := hh
  have htid : h.tid = txn'.tid := (htransfer.tid.trans hserves.tid).symm
  have hcr := htransfer.credits
  refine hs.replace hserves'.seats hserves'.active ?_ ?_ ?_ ?_
  · intro old hold
    obtain rfl : txn = old := Option.some.inj (hserves.active.symm.trans hold)
    exact htransfer.tid.symm
  · intro h'' ha'
    obtain rfl : h' = h'' := Option.some.inj (ht.symm.trans ha')
    exact hserves'.tid.symm
  · rw [← htid, updates_of_attached ha, htid, hserves'.tid, updates_of_attached ht, activeUpdates, hserves.active]
    exact congrArg (· + 1) htransfer.updates
  · rw [← htid, reserved_of_attached ha, htid, hserves'.tid, reserved_of_attached ht, activeCredits, hserves.active]
    exact hcr

theorem Accounted.detach
    (hj : j.state = s.state.journalStop h) (ht : t.attached = none) : Accounted ⟨j, s.tasks.insert k t⟩ := by
  obtain ⟨txn, hserves, hle, hpos⟩ := hs.serves ha
  obtain ⟨hseats, hactive⟩ := hserves.journalStop
  rw [← hj] at hseats hactive
  refine hs.replace hseats hactive ?_ ?_ ?_ ?_
  · intro old hold
    obtain rfl : txn = old := Option.some.inj (hserves.active.symm.trans hold)
    rfl
  · intro h' ha'
    rw [ht] at ha'
    cases ha'
  · simp only [hserves.tid, updates_of_attached ha, updates_of_absent ht, activeUpdates,
      hserves.active, map_some, getD_some]
    omega
  · simp only [hserves.tid, reserved_of_attached ha, reserved_of_absent ht, activeCredits,
      hserves.active, map_some, getD_some]
    omega

end

end

theorem active_base (hl : s.state.locking = none) (hbase : running = s.state.running.getD (.new s.state.nextTid)) :
    (∀ old, s.state.active = some old → old.tid = running.tid) ∧
      s.activeUpdates = running.tUpdates ∧ s.activeCredits = running.outstandingCredits := by
  subst hbase
  have hactive : s.state.active = s.state.running := by simp [JournalState.active, hl]
  rw [activeUpdates, activeCredits, hactive]
  cases hr : s.state.running with
  | none => exact ⟨fun old hold => (by cases hold), rfl, rfl⟩
  | some running => exact ⟨fun old hold => congrArg Transaction.tid (Option.some.inj hold).symm, rfl, rfl⟩

section

variable (hs : s.Accounted) {g : JournalGeometry} (ha : (s.task k).attached = none)
include hs ha

theorem Accounted.waits (ht : t.attached = none) (hadm : JournalState.Admission g credits s.state outcome j.state)
    (hwait : ∀ tid, outcome ≠ .admitted tid) : Accounted ⟨j, s.tasks.insert k t⟩ := by
  have hsame : t.attached = (s.task k).attached := ht.trans ha.symm
  cases hadm with
  | locked tid _ hst => exact hs.keep (hst ▸ hs.seats) (congrArg _ hst) hsame
  | full _ hseats hfree hactive =>
    obtain ⟨htid, hup, hcr⟩ := active_base hfree rfl
    refine hs.replace hseats hactive htid ?_ ?_ ?_
    · intro h hh
      rw [ht] at hh
      cases hh
    · rw [updates_of_absent ha, updates_of_absent ht, hup]
    · rw [reserved_of_absent ha, reserved_of_absent ht, hcr]
  | granted _ hgrant => exact absurd hgrant (hwait _)

theorem Accounted.granted (hadm : JournalState.Admission g credits s.state (.admitted tid) j.state) :
    Accounted ⟨j, s.tasks.insert k (.held (journalStart tid credits))⟩ := by
  cases hadm with
  | locked _ hwait => cases hwait
  | full hwait => exact absurd rfl (hwait tid)
  | granted running hgrant hseats hfree hbase _ hactive =>
    cases hgrant
    obtain ⟨htid, hup, hcr⟩ := active_base hfree hbase
    have hatt : (HandleTask.held (journalStart running.tid credits)).attached =
      some (journalStart running.tid credits) := rfl
    refine hs.replace hseats hactive htid ?_ ?_ ?_
    · intro h hh
      cases hh
      rfl
    · have hone := updates_of_attached hatt
      simp only [updates_of_absent ha, hup]
      exact congrArg (running.tUpdates + ·) hone.symm
    · have hall := reserved_of_attached hatt
      simp only [reserved_of_absent ha, hcr]
      exact congrArg (running.outstandingCredits + ·) hall.symm

end

theorem step_task (s : HandleSys) (k : Nat) (c : HandleCall) :
    s.step g (.task k c) = ⟨((s.task k).call g s.journal c).2,
      s.tasks.insert k ((s.task k).call g s.journal c).1⟩ := rfl

inductive Calls (g : JournalGeometry) (s : HandleSys) (k : Nat) (c : HandleCall) (strained : Bool) (t : HandleTask)
    (j : Journal) : Prop
  | keep (seats : j.state.Seats) (active : j.state.active = s.state.active) (same : t.attached = (s.task k).attached)
  | edit {h h' : Handle} {txn : Transaction} (joined : (s.task k).attached = some h) (serves : s.state.Serves txn h)
      (edited : JournalState.Edited g h txn strained j.state h') (rejoined : t.attached = some h')
  | grow {h h' : Handle} (joined : (s.task k).attached = some h) (outlived : s.state.activeTxn h.tid = none)
      (calm : strained = false) (grown : JournalState.Grown g h s.state h' j.state)
  | close {h : Handle} {txn : Transaction} (joined : (s.task k).attached = some h) (serves : s.state.Serves txn h)
      (stopped : j.state = s.state.journalStop h) (free : t.attached = none)
  | drop {h : Handle} (joined : (s.task k).attached = some h) (outlived : s.state.activeTxn h.tid = none)
      (same : j.state = s.state)
  | refuse (refused : (s.task k).refused g s.journal c = true) (same : j.state = s.state)
  | wait {credits : Nat} {outcome : Admit} (idle : (s.task k).attached = none)
      (admission : JournalState.Admission g credits s.state outcome j.state) (waits : ∀ tid, outcome ≠ .admitted tid)
      (free : t.attached = none)
  | grant {credits : Nat} {tid : Tid} (idle : (s.task k).attached = none)
      (admission : JournalState.Admission g credits s.state (.admitted tid) j.state)
      (held : t = .held (journalStart tid credits))

variable {strained : Bool} {c : HandleCall}

theorem calls_resume (servicer : Bool) (credits : Nat) (hidle : (s.task k).attached = none) {waiting failed : HandleTask}
    (hwait : waiting.attached = none)
    (hfail : ∀ e, (s.journal.admitCredits g servicer credits).1 = .error e → Calls g s k c strained failed s.journal) :
    let r := match s.journal.admitCredits g servicer credits with
      | (.ok (.admitted tid), j) => (HandleTask.held (journalStart tid credits), j)
      | (.ok _, j) => (waiting, j)
      | (.error _, j) => (failed, j)
    Calls g s k c strained r.1 r.2 := by
  have hspec := s.state.admission g servicer credits
  unfold Journal.admitCredits at hfail ⊢
  split_ifs at hfail ⊢
  · exact hfail _ rfl
  · exact hfail _ rfl
  · cases hr : s.state.admitCredits g servicer credits with
    | mk outcome st =>
      rw [hr] at hspec
      cases outcome with
      | waitRoom tid => exact .wait hidle hspec (fun _ h => by cases h) hwait
      | waitSpace => exact .wait hidle hspec (fun _ h => by cases h) hwait
      | admitted tid => exact .grant hidle hspec rfl

section

variable (hs : s.state.Seats)
include hs

theorem serves_or_none (h : Handle) :
    (∃ txn, s.state.Serves txn h) ∨ s.state.activeTxn h.tid = none := by
  cases ha : s.state.activeTxn h.tid with
  | none => exact .inr rfl
  | some txn =>
    obtain ⟨hactive, htid⟩ := hs.activeTxn ha
    exact .inl ⟨txn, hs, hactive, htid⟩

theorem calls_stop (ha : (s.task k).attached = some h) (hj : j.state = s.state.journalStop h)
    (ht : t.attached = none) : Calls g s k c strained t j := by
  rcases serves_or_none hs h with ⟨txn, hserves⟩ | hnone
  · exact .close ha hserves hj ht
  · exact .drop ha hnone (by rw [hj, JournalState.journalStop, hnone])

-- a handle that outlived its transaction reaches no image; it may still grow the running reservation
theorem calls_outlived (ha : (s.task k).attached = some h)
    (hnone : s.state.activeTxn h.tid = none) (hc : c ≠ .stop) : Calls g s k c ((HandleTask.held h).strains g s.journal c)
      ((HandleTask.held h).call g s.journal c).1 ((HandleTask.held h).call g s.journal c).2 := by
  cases hr : c.reaches with
  | false =>
    obtain ⟨h', -, hgrown, hstrains⟩ := HandleTask.call_grown g h s.journal c hr
    exact .grow ha hnone hstrains hgrown
  | true =>
    have hsame : ((HandleTask.held h).call g s.journal c).1 = .held h ∧
        ((HandleTask.held h).call g s.journal c).2.state = s.state := by
      cases c with
      | stop => exact absurd rfl hc
      | pin start count =>
        simp only [HandleTask.call, JournalState.pinFreedRun, hnone, orKeep, Journal.withState, true_and]
        split_ifs <;> rfl
      | getWrite | getCreate | patch | discharge | register =>
        simp [HandleTask.call, HandleTask.keeping, JournalState.getWriteAccess, JournalState.getCreateAccess,
          JournalState.patch, JournalState.discharge, JournalState.registerOrderedData, hnone, orKeep,
          Except.toOption, Journal.withState]
      | _ => cases hr
    refine .keep (hsame.2 ▸ hs) (by rw [hsame.2]) ?_
    rw [hsame.1, ha]
    rfl

theorem calls (k : Nat) (c : HandleCall) :
    Calls g s k c ((s.task k).strains g s.journal c) ((s.task k).call g s.journal c).1
      ((s.task k).call g s.journal c).2 := by
  generalize ht : s.task k = t
  have hatt : (s.task k).attached = t.attached := congrArg _ ht
  cases t with
  | held h =>
    by_cases hc : c = .stop
    · subst hc
      exact calls_stop g hs hatt rfl rfl
    · rcases serves_or_none hs h with ⟨txn, hserves⟩ | hnone
      · obtain ⟨h', hatt', hedited⟩ := HandleTask.call_held g hserves c hc
        exact .edit hatt hserves hedited hatt'
      · exact calls_outlived g hs hatt hnone hc
  | idle => cases c <;> exact .keep hs rfl hatt.symm
  | starting credits =>
    cases c with
    | resume servicer => exact calls_resume g servicer credits hatt rfl fun _ _ => .keep hs rfl hatt.symm
    | _ => exact .keep hs rfl hatt.symm
  | restarting h credits =>
    cases c with
    | resume servicer =>
      simp only [HandleTask.call]
      split <;> exact .keep hs rfl hatt.symm
    | _ => exact .keep hs rfl hatt.symm
  | leaving h credits =>
    cases c with
    | resume servicer => exact calls_stop g hs hatt rfl rfl
    | _ => exact .keep hs rfl hatt.symm
  | requesting h credits =>
    cases c with
    | resume servicer =>
      simp only [HandleTask.call, requestCommitFor]
      split <;> exact .keep hs rfl hatt.symm
    | _ => exact .keep hs rfl hatt.symm
  | rejoining h credits =>
    cases c with
    | resume servicer =>
      exact calls_resume g servicer credits hatt rfl fun e he => .refuse (by simp [ht, HandleTask.refused, he]) rfl
    | _ => exact .keep hs rfl hatt.symm

end

theorem Accounted.call (hs : s.Accounted) (g : JournalGeometry) (k : Nat) (c : HandleCall)
    (hr : s.refused g (.task k c) = false) : (s.step g (.task k c)).Accounted := by
  have hserved : ∀ h, (s.task k).attached = some h → s.state.activeTxn h.tid ≠ none := by
    intro h ha hnone
    obtain ⟨txn, hserves, -⟩ := hs.serves ha
    rw [hserves.activeTxn] at hnone
    cases hnone
  rw [step_task]
  cases calls g hs.seats k c with
  | keep seats active same => exact hs.keep seats active same
  | edit joined serves edited rejoined =>
    obtain ⟨txn, hserves, hle, -⟩ := hs.serves joined
    cases hserves.active.symm.trans serves.active
    obtain ⟨txn', serves', hedit⟩ := edited
    exact hs.hands joined serves ⟨txn', serves', hedit.transfer hle⟩ rejoined
  | grow joined outlived => exact absurd outlived (hserved _ joined)
  | close joined serves stopped free => exact hs.detach joined stopped free
  | drop joined outlived => exact absurd outlived (hserved _ joined)
  | refuse refused => exact absurd refused (by simpa [HandleSys.refused] using hr)
  | wait idle admission waits free => exact hs.waits idle free admission waits
  | grant idle admission held => exact held ▸ hs.granted idle admission

theorem Accounted.of_drained (hs : s.Accounted) (hactive : s.state.active = some txn)
    (hzero : txn.tUpdates = 0) (k : Nat) : (s.task k).attached = none := by
  cases ha : (s.task k).attached with
  | none => rfl
  | some h =>
    obtain ⟨txn', hserves, -, hpos⟩ := hs.serves ha
    obtain rfl : txn = txn' := Option.some.inj (hactive.symm.trans hserves.active)
    omega

theorem accounted_vacant (hseats : j.state.Seats)
    (hactive : j.state.active = none) (hfree : ∀ k, (s.task k).attached = none) :
    Accounted ⟨j, s.tasks⟩ where
  seats := hseats
  joined k h ha := by
    have hnone := hfree k
    rw [show (HandleSys.mk j s.tasks).task k = s.task k from rfl, hnone] at ha
    cases ha
  updates txn ha := by
    rw [show (HandleSys.mk j s.tasks).state.active = none from hactive] at ha
    cases ha
  credits txn ha := by
    rw [show (HandleSys.mk j s.tasks).state.active = none from hactive] at ha
    cases ha

theorem Accounted.reseat (hs : s.Accounted) (hseats : j.state.Seats)
    (hactive : j.state.active = s.state.active) : Accounted ⟨j, s.tasks⟩ where
  seats := hseats
  joined k h ha := by
    obtain ⟨txn, htxn, htid⟩ := hs.joined k h ha
    exact ⟨txn, hactive.trans htxn, htid⟩
  updates txn ha := hs.updates txn (hactive.symm.trans ha)
  credits txn ha := hs.credits txn (hactive.symm.trans ha)

theorem Accounted.drains (hs : s.Accounted) (hd : s.state.Drains taken j.state) : Accounted ⟨j, s.tasks⟩ := by
  cases hd with
  | taken txn hheld hzero _ hvacant =>
    exact accounted_vacant (.inl hvacant.1) (by simp [JournalState.active, hvacant])
      (hs.of_drained hheld hzero)
  | kept _ hseats hactive => exact hs.reseat hseats hactive

theorem Accounted.step (hs : s.Accounted) (g : JournalGeometry) (ev : HandleEvent)
    (hr : s.refused g ev = false) : (s.step g ev).Accounted := by
  cases ev with
  | task k c => exact hs.call g k c hr
  | pipeline expired => exact hs.drains (hs.seats.advancePipeline g expired)
  | flush => exact hs.drains hs.seats.takeForFlush
  | background j => exact hs.reseat hs.seats rfl

def strains (g : JournalGeometry) (s : HandleSys) : HandleEvent → Bool
  | .task k c => (s.task k).strains g s.journal c
  | _ => false

theorem admission_turn (hs : s.state.Seats)
    (ha : JournalState.Admission g credits s.state outcome j.state) : j.state.Seats ∧ Turn g s strained j.state := by
  cases ha with
  | locked tid _ same => exact ⟨same ▸ hs, .kept (congrArg _ same)⟩
  | full _ seats free active => exact ⟨seats, .seated (base_running free) active⟩
  | granted running _ seats free base room active =>
    exact ⟨seats, .opened (base ▸ base_running free) room active⟩

theorem Calls.turn (hc : Calls g s k c strained t j) (hs : s.state.Seats) :
    j.state.Seats ∧ Turn g s strained j.state := by
  cases hc with
  | keep seats active same => exact ⟨seats, .kept active⟩
  | edit joined serves edited rejoined =>
    obtain ⟨txn', hserves', hedit⟩ := edited
    exact ⟨hserves'.seats, .edited serves.active joined hedit hserves'.active⟩
  | grow joined outlived calm grown =>
    subst calm
    generalize j.state = st at grown
    cases grown with
    | same => exact ⟨hs, .kept rfl⟩
    | @grow running extra hr =>
      have hl : s.state.locking = none := hs.resolve_left (by simp [hr])
      have hactive : s.state.active = some running := by simp [JournalState.active, hr]
      exact ⟨.inr hl, .edited hactive joined (.grow extra) (by simp [JournalState.active])⟩
  | @close h txn joined serves stopped =>
    rw [stopped]
    exact ⟨serves.journalStop.1, .closed h.remaining serves.active serves.journalStop.2⟩
  | drop joined outlived same => exact ⟨same ▸ hs, .kept (congrArg _ same)⟩
  | refuse refused same => exact ⟨same ▸ hs, .kept (congrArg _ same)⟩
  | wait idle admission => exact admission_turn g hs admission
  | grant idle admission => exact admission_turn g hs admission

theorem drains_turn (hd : s.state.Drains taken j.state) : j.state.Seats ∧ Turn g s strained j.state := by
  cases hd with
  | taken txn _ _ _ vacant => exact ⟨.inl vacant.1, .vacated (by simp [JournalState.active, vacant])⟩
  | kept _ seats active => exact ⟨seats, .kept active⟩

theorem turn (hs : s.state.Seats) (ev : HandleEvent) :
    (s.step g ev).state.Seats ∧ Turn g s (s.strains g ev) (s.step g ev).state := by
  cases ev with
  | task k c => exact (calls g hs k c).turn g hs
  | pipeline expired => exact drains_turn g (hs.advancePipeline g expired)
  | flush => exact drains_turn g hs.takeForFlush
  | background j => exact ⟨hs, .kept rfl⟩

theorem Accounted.run (hs : s.Accounted) (g : JournalGeometry) {evs : List HandleEvent}
    (hr : s.Readmits g evs) : (s.run g evs).Accounted := by
  induction evs generalizing s with
  | nil => exact hs
  | cons ev evs ih => exact ih (hs.step g ev hr.1) hr.2

theorem accounted_mount (sequence : Tid) (start : Option Nat) (errno : Nat) :
    (mount (Journal.new g sequence start errno)).Accounted where
  seats := .inl rfl
  joined k h ha := by cases ha
  updates txn ha := by cases ha
  credits txn ha := by cases ha

theorem Accounted.no_open_handle (hs : s.Accounted) {st : JournalState} (hd : s.state.Drains taken st)
    (ht : taken = some txn) (k : Nat) (h : Handle) (ha : (s.task k).attached = some h) : h.tid ≠ txn.tid := by
  cases hd with
  | taken txn' hheld hzero hsame _ =>
    have hnone := hs.of_drained hheld hzero k
    rw [ha] at hnone
    cases hnone
  | kept hnone => rw [hnone] at ht; cases ht

-- a run of journal calls in which every restart is re-admitted
theorem handle_accounting (g : JournalGeometry) (sequence : Tid) (start : Option Nat) (errno : Nat)
    (evs : List HandleEvent) (hr : (mount (Journal.new g sequence start errno)).Readmits g evs) :
    let s := (mount (Journal.new g sequence start errno)).run g evs
    (∀ txn, s.state.running = some txn ∨ s.state.locking = some txn →
      txn.tUpdates = s.updates txn.tid ∧ txn.outstandingCredits = s.reserved txn.tid) ∧
    (∀ expired txn, (s.state.advancePipeline g expired).1 = .staged txn →
      ∀ k h, (s.task k).attached = some h → h.tid ≠ txn.tid) ∧
    ∀ txn, s.state.takeForFlush.1 = .staged txn →
      ∀ k h, (s.task k).attached = some h → h.tid ≠ txn.tid := by
  intro s
  have hs : s.Accounted := (accounted_mount g sequence start errno).run g hr
  refine ⟨fun txn htxn => ?_, fun expired txn hstaged => ?_, fun txn hstaged => ?_⟩
  · have hactive : s.state.active = some txn := by
      rcases hs.seats with hnone | hnone
      · simpa [JournalState.active, hnone] using htxn
      · simpa [JournalState.active, hnone] using htxn
    exact ⟨hs.updates txn hactive, hs.credits txn hactive⟩
  · exact hs.no_open_handle (hs.seats.advancePipeline g expired)
      (congrArg JournalState.staged hstaged)
  · exact hs.no_open_handle hs.seats.takeForFlush (congrArg JournalState.flushed hstaged)

def begin (k credits : Nat) : List HandleEvent := [.task k (.start credits), .task k (.resume true)]

def restart (k credits : Nat) : List HandleEvent :=
  .task k (.restart credits) :: List.replicate 4 (.task k (.resume true))

def restartedRun : List HandleEvent := begin 1 2 ++ [.task 1 (.getCreate 20)] ++ restart 1 3

def restarted : HandleSys :=
  (mount (Journal.new .small (Tid.ofNat 1) none 0)).run .small restartedRun

theorem restartedRun_readmits :
    (mount (Journal.new .small (Tid.ofNat 1) none 0)).Readmits .small restartedRun := by
  decide +kernel

theorem handle_accounting_restarted :
    (restarted.state.running.map fun txn => (txn.tUpdates, txn.outstandingCredits)) = some (1, 3) ∧
    ∀ txn, restarted.state.running = some txn →
      txn.tUpdates = restarted.updates txn.tid ∧
        txn.outstandingCredits = restarted.reserved txn.tid := by
  have h := handle_accounting .small (Tid.ofNat 1) none 0 restartedRun restartedRun_readmits
  exact ⟨by decide +kernel, fun txn htxn => h.1 txn (.inl htxn)⟩

-- task 2 asks its restart for more credits than the journal holds; the error leaves it with the
-- released handle, and closing that handle takes task 1's update off the transaction
theorem refused_restart_loses_handle :
    let evs := begin 1 2 ++ begin 2 2 ++ [.task 1 (.getCreate 20)] ++ restart 2 5 ++
      [.task 2 .stop]
    let s := (mount (Journal.new .small (Tid.ofNat 1) none 0)).run .small evs
    (s.state.running.map fun txn => (txn.tUpdates, s.updates txn.tid)) = some (0, 1) ∧
    (s.task 1).attached.map Handle.tid = some (Tid.ofNat 1) ∧
    (JournalState.staged (s.state.advancePipeline .small false).1).map Transaction.tid =
      some (Tid.ofNat 1) := by
  decide +kernel

end HandleSys

end Ext4
