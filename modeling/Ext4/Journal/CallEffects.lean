import Ext4.Journal.System

namespace Ext4

open Option SortedMap Transaction

variable {old txn : Transaction} {v : Block} {bid : Nat} {tid : Tid} {generation : Nat} {f : Block → Block}

namespace Transaction

theorem event_record (txn : Transaction) (b : Nat) :
    txn.record.event b = match txn.bufferBytes b with
      | some v => some (some v)
      | none => if (txn.revoked.get b).isSome then some none else none := by
  rw [TxnRecord.event, image_record]
  cases txn.bufferBytes b with
  | some v => rfl
  | none => simp only [record, mem_revokedBlocks]

theorem event_eq_some {b : Nat} :
    txn.record.event b = some (some v) ↔ txn.bufferBytes b = some v := by
  rw [event_record]
  cases txn.bufferBytes b with
  | some w => simp
  | none => simp

@[simp] theorem bufferBytes_unrevoke (txn : Transaction) (bid b : Nat) :
    (txn.unrevoke bid).bufferBytes b = txn.bufferBytes b := rfl

theorem bufferBytes_insertCapture (h : txn.revoked.get bid = none) (b : Nat) :
    (txn.insertCapture bid v h).bufferBytes b = if b = bid then some v else txn.bufferBytes b := by
  simp only [bufferBytes, insertCapture, get_insert]
  split_ifs <;> rfl

theorem event_unrevoke (txn : Transaction) (bid b : Nat) :
    (txn.unrevoke bid).record.event b =
      if b = bid then (txn.bufferBytes b).map some else txn.record.event b := by
  have hget : (txn.unrevoke bid).revoked.get b = if b = bid then none else txn.revoked.get b :=
    get_erase ..
  by_cases hb : b = bid
  · rw [event_record, bufferBytes_unrevoke, hget, if_pos hb, if_pos hb]
    cases txn.bufferBytes b <;> rfl
  · rw [event_record, bufferBytes_unrevoke, hget, if_neg hb, if_neg hb, ← event_record]

theorem event_insertCapture (h : txn.revoked.get bid = none) (b : Nat) :
    (txn.insertCapture bid v h).record.event b =
      if b = bid then some (some v) else txn.record.event b := by
  by_cases hb : b = bid
  · rw [event_record, bufferBytes_insertCapture, if_pos hb, if_pos hb]
  · rw [event_record, bufferBytes_insertCapture, if_neg hb, if_neg hb, event_record]
    rfl

theorem event_forgetBlock (txn : Transaction) (bid b : Nat) :
    (txn.forgetBlock bid).record.event b = if b = bid then some none else txn.record.event b := by
  have hmeta : (txn.forgetBlock bid).metadata.get b = if b = bid then none else txn.metadata.get b :=
    get_erase ..
  have hrev : (txn.forgetBlock bid).revoked.get b = if b = bid then some () else txn.revoked.get b :=
    get_insert ..
  by_cases hb : b = bid
  · rw [event_record, bufferBytes, hmeta, hrev, if_pos hb, if_pos hb, if_pos hb]
    rfl
  · rw [event_record, bufferBytes, hmeta, hrev, if_neg hb, if_neg hb, if_neg hb, ← bufferBytes, ← event_record]

theorem event_forgetAll (bids : List Nat) (txn : Transaction) (b : Nat) :
    (bids.foldl forgetBlock txn).record.event b =
      if b ∈ bids then some none else txn.record.event b := by
  induction bids generalizing txn with
  | nil => simp
  | cons bid bids ih =>
    rw [List.foldl_cons, ih, event_forgetBlock]
    by_cases hb : b ∈ bids <;> by_cases hbid : b = bid <;> simp [hb, hbid]

theorem tid_forgetAll (bids : List Nat) (txn : Transaction) :
    (bids.foldl forgetBlock txn).tid = txn.tid := by
  induction bids generalizing txn with
  | nil => rfl
  | cons bid bids ih => exact ih _

theorem applyPatch_ok {txn' : Transaction} (h : txn.applyPatch bid generation f = .ok txn') :
    txn'.tid = txn.tid ∧ ∃ v, txn.bufferBytes bid = some v ∧
      ∀ b, txn'.record.event b = if b = bid then some (some (f v)) else txn.record.event b := by
  unfold applyPatch at h
  split at h
  · cases h
  · next capture hget =>
    split_ifs at h
    cases h
    refine ⟨rfl, capture.buffer, by simp [bufferBytes, hget], fun b => ?_⟩
    rw [event_record, event_record, bufferBytes, bufferBytes, get_insert]
    by_cases hb : b = bid
    · rw [if_pos hb, if_pos hb]
      rfl
    · rw [if_neg hb, if_neg hb]

theorem event_unrevoke_captured (h : txn.bufferBytes bid = some v) (b : Nat) :
    (txn.unrevoke bid).record.event b = if b = bid then some (some v) else txn.record.event b := by
  rw [event_unrevoke]
  by_cases hb : b = bid
  · rw [if_pos hb, if_pos hb, hb, h]
    rfl
  · rw [if_neg hb, if_neg hb]

theorem event_recapture (h : (txn.unrevoke bid).revoked.get bid = none) (b : Nat) :
    ((txn.unrevoke bid).insertCapture bid v h).record.event b =
      if b = bid then some (some v) else txn.record.event b := by
  rw [event_insertCapture, event_unrevoke]
  by_cases hb : b = bid
  · rw [if_pos hb, if_pos hb]
  · rw [if_neg hb, if_neg hb, if_neg hb]

theorem captureWrite_spec (txn : Transaction) (bid : Nat) (seed device : Option Block) :
    (txn.captureWrite bid seed device).2.tid = txn.tid ∧
      ∀ b, (txn.captureWrite bid seed device).2.record.event b =
        if b = bid then ((txn.bufferBytes bid).or (seed.or device)).map some
        else txn.record.event b := by
  cases hget : (txn.unrevoke bid).metadata.get bid with
  | some capture =>
    have hbytes : txn.bufferBytes bid = some capture.buffer := congrArg (Option.map _) hget
    simp only [captureWrite, hget, hbytes]
    exact ⟨rfl, event_unrevoke_captured hbytes⟩
  | none =>
    have hbytes : txn.bufferBytes bid = none := congrArg (Option.map _) hget
    cases hsrc : seed.or device with
    | some bytes =>
      simp only [captureWrite, hget, hsrc, hbytes]
      exact ⟨rfl, event_recapture _⟩
    | none =>
      simp only [captureWrite, hget, hsrc, hbytes]
      refine ⟨rfl, fun b => ?_⟩
      rw [event_unrevoke]
      by_cases hb : b = bid
      · rw [if_pos hb, if_pos hb, hb, hbytes]
        rfl
      · rw [if_neg hb, if_neg hb]

theorem captureCreate_spec (txn : Transaction) (bid : Nat) :
    (txn.captureCreate bid).2.tid = txn.tid ∧
      ∀ b, (txn.captureCreate bid).2.record.event b =
        if b = bid then some (some ((txn.bufferBytes bid).getD (Bytes.zeros _)))
        else txn.record.event b := by
  cases hget : (txn.unrevoke bid).metadata.get bid with
  | some capture =>
    have hbytes : txn.bufferBytes bid = some capture.buffer := congrArg (Option.map _) hget
    simp only [captureCreate, hget, hbytes]
    exact ⟨rfl, event_unrevoke_captured hbytes⟩
  | none =>
    have hbytes : txn.bufferBytes bid = none := congrArg (Option.map _) hget
    simp only [captureCreate, hget, hbytes]
    exact ⟨rfl, event_recapture _⟩

end Transaction

namespace JournalState

def Seats (st : JournalState) : Prop := st.running = none ∨ st.locking = none

def active (st : JournalState) : Option Transaction := st.running.or st.locking

structure Becomes (st st' : JournalState) (rec : Option TxnRecord) (next : Tid)
    (images : Nat → Option UncheckpointedImage) : Prop where
  committing : st'.committing = st.committing
  head : st'.head = st.head
  tailBlock : st'.tailBlock = st.tailBlock
  tailTid : st'.tailTid = st.tailTid
  revoked : st'.revoked = st.revoked
  seats : st'.Seats
  active : st'.active.map Transaction.record = rec
  nextTid : st'.nextTid = next
  images : st'.uncheckpointed = images

def Quiet (st st' : JournalState) : Prop :=
  st.Becomes st' (st.active.map Transaction.record) st.nextTid st.uncheckpointed

variable {st : JournalState}

section

variable (hs : st.Seats)
include hs

theorem Seats.quiet : st.Quiet st := ⟨rfl, rfl, rfl, rfl, rfl, hs, rfl, rfl, rfl⟩

theorem Seats.activeTxn (h : st.activeTxn tid = some txn) : st.active = some txn ∧ txn.tid = tid := by
  unfold JournalState.activeTxn at h
  unfold active
  rcases hs with hs | hs <;> rw [hs] at h ⊢
  · simpa [filter_eq_some_iff] using h
  · simpa [filter_eq_some_iff] using h

theorem Seats.setActive (h : st.activeTxn tid = some old) (htid : txn.tid = tid) :
    st.Becomes (st.setActive txn) (some txn.record) st.nextTid st.uncheckpointed := by
  subst htid
  unfold JournalState.activeTxn at h
  unfold JournalState.setActive
  rcases hs with hs | hs
  · simp only [hs, filter_none, none_or] at h
    simp only [hs, filter_none, isSome_none, Bool.false_eq_true, if_false, h, isSome_some, if_true]
    exact ⟨rfl, rfl, rfl, rfl, rfl, .inl rfl, by simp [active], rfl, rfl⟩
  · simp only [hs, filter_none, or_none] at h
    simp only [h, isSome_some, if_true]
    exact ⟨rfl, rfl, rfl, rfl, rfl, .inr hs, by simp [active], rfl, rfl⟩

theorem Seats.setActive_quiet (h : st.activeTxn tid = some old) (hrec : txn.record = old.record) :
    st.Quiet (st.setActive txn) := by
  obtain ⟨hactive, htid⟩ := hs.activeTxn h
  have hsame : txn.tid = tid := (congrArg TxnRecord.tid hrec).trans htid
  have hb := hs.setActive h hsame
  rw [hrec] at hb
  rw [Quiet, hactive]
  exact hb

theorem Seats.running (h : st.running = some old)
    (hrec : txn.record = old.record) : st.Quiet { st with running := some txn } := by
  have hl : st.locking = none := hs.resolve_left (by simp [h])
  exact ⟨rfl, rfl, rfl, rfl, rfl, .inr hl, by simp [active, h, hrec], rfl, rfl⟩

end

section

variable (g : JournalGeometry) (h : Handle)

include g h

section

variable (txn : Transaction)

theorem record_tryGrow (extra : Nat) :
    (tryGrowReservation g h txn extra).2.2.record = txn.record := by
  unfold tryGrowReservation
  split_ifs <;> rfl

theorem grow_credits (extra : Nat) :
    (tryGrowReservation g h txn extra).2.1.tid = h.tid ∧
      ∃ credits, (tryGrowReservation g h txn extra).2.2 = { txn with outstandingCredits := credits } := by
  unfold tryGrowReservation
  split_ifs
  · exact ⟨rfl, _, rfl⟩
  · exact ⟨rfl, txn.outstandingCredits, rfl⟩

theorem charge_credits :
    (chargeFreshCapture g h txn).2.1.tid = h.tid ∧
      ∃ credits, (chargeFreshCapture g h txn).2.2 = { txn with outstandingCredits := credits } := by
  have hbatch := grow_credits g h txn extendBatchBlocks
  have hone := grow_credits g h txn 1
  unfold chargeFreshCapture
  split_ifs
  · split
    · next hgrow =>
      rw [hgrow] at hbatch
      obtain ⟨htid, credits, rfl⟩ := hbatch
      exact ⟨htid, credits - 1, rfl⟩
    · split
      · next hgrow =>
        rw [hgrow] at hone
        obtain ⟨htid, credits, rfl⟩ := hone
        exact ⟨htid, credits - 1, rfl⟩
      · exact ⟨rfl, txn.outstandingCredits, rfl⟩
  · exact ⟨rfl, txn.outstandingCredits - 1, rfl⟩

theorem record_charge :
    (chargeFreshCapture g h txn).2.2.record = txn.record := by
  obtain ⟨-, credits, hcharge⟩ := charge_credits g h txn
  rw [hcharge]
  rfl

end

end

section

variable (hs : st.Seats)

include hs

theorem Seats.stop (h : Handle) : st.Quiet (st.journalStop h) := by
  unfold journalStop
  cases ha : st.activeTxn h.tid with
  | none => exact hs.quiet
  | some txn => exact hs.setActive_quiet ha rfl

theorem Seats.extend (g : JournalGeometry) (h : Handle) (extra : Nat) :
    st.Quiet (st.journalExtend g h extra).2.2 := by
  unfold journalExtend
  split_ifs
  · exact hs.quiet
  · cases hr : st.running with
    | none => exact hs.quiet
    | some running => exact hs.running hr (record_tryGrow g h running extra)

theorem Seats.pin (tid : Tid) (start count : Nat) :
    st.Quiet (orKeep (st.pinFreedRun tid start count) st) := by
  unfold pinFreedRun
  split_ifs
  · exact hs.quiet
  · cases ha : st.activeTxn tid with
    | none => exact hs.quiet
    | some txn => exact ⟨rfl, rfl, rfl, rfl, rfl, hs, rfl, rfl, rfl⟩

theorem Seats.register (tid : Tid) (ino len : Nat) :
    st.Quiet (orKeep (st.registerOrderedData tid ino len) st) := by
  unfold registerOrderedData
  cases ha : st.activeTxn tid with
  | none => exact hs.quiet
  | some txn => exact hs.setActive_quiet ha rfl

theorem Seats.request (target : Tid) : st.Quiet (st.requestCommitFor target) := by
  unfold requestCommitFor
  split_ifs
  · exact hs.quiet
  · exact ⟨rfl, rfl, rfl, rfl, rfl, hs, rfl, rfl, rfl⟩

theorem Seats.admitCredits (g : JournalGeometry) (servicer : Bool) (credits : Nat) :
    st.Quiet (st.admitCredits g servicer credits).2 ∨ st.active = none ∧
      st.Becomes (st.admitCredits g servicer credits).2 (some ⟨st.nextTid, [], []⟩) st.nextTid.next
        st.uncheckpointed := by
  unfold JournalState.admitCredits
  cases hl : st.locking with
  | some locking => exact .inl hs.quiet
  | none =>
    cases hr : st.running with
    | some running =>
      left
      simp only [getD_some, isNone_some, Bool.false_eq_true, if_false]
      have hq : ∀ txn : Transaction, txn.record = running.record → st.active.map record =
          some txn.record := fun txn h => by simp [active, hr, h]
      split_ifs
      · exact ⟨rfl, rfl, rfl, rfl, rfl, .inr rfl, (hq _ rfl).symm, rfl, rfl⟩
      · exact ⟨rfl, rfl, rfl, rfl, rfl, .inr rfl, (hq _ rfl).symm, rfl, rfl⟩
      · exact ⟨rfl, rfl, rfl, rfl, rfl, .inr rfl, (hq _ rfl).symm, rfl, rfl⟩
    | none =>
      refine .inr ⟨by simp [active, hr, hl], ?_⟩
      simp only [getD_none, isNone_none, if_true]
      split_ifs
      · exact ⟨rfl, rfl, rfl, rfl, rfl, .inr rfl, rfl, rfl, rfl⟩
      · exact ⟨rfl, rfl, rfl, rfl, rfl, .inr rfl, rfl, rfl, rfl⟩
      · exact ⟨rfl, rfl, rfl, rfl, rfl, .inr rfl, rfl, rfl, rfl⟩

end

structure Edits (st st' : JournalState) (old new : TxnRecord)
    (images : Nat → Option UncheckpointedImage) : Prop extends
    st.Becomes st' (some new) st.nextTid images where
  before : st.active.map Transaction.record = some old
  tid : new.tid = old.tid

section

variable (hs : st.Seats)

include hs

section

variable (h : st.activeTxn tid = some old) (htid : txn.tid = old.tid)
include h htid

theorem Seats.edit :
    st.Edits (st.setActive txn) old.record txn.record st.uncheckpointed := by
  obtain ⟨hactive, hold⟩ := hs.activeTxn h
  exact ⟨hs.setActive h (htid.trans hold), by rw [hactive]; rfl, htid⟩

theorem Seats.settle (g : JournalGeometry)
    (hd : Handle) (fresh : Bool) (generation : Nat) :
    st.Edits (settleCapture g hd st fresh generation txn).2.2 old.record txn.record
      st.uncheckpointed := by
  unfold settleCapture
  split_ifs
  · have hrec := record_charge g hd txn
    have hcharged : (chargeFreshCapture g hd txn).2.2.tid = old.tid :=
      (congrArg TxnRecord.tid hrec).trans htid
    have he := hs.edit h hcharged
    rw [hrec] at he
    exact he
  · exact hs.edit h htid

end

theorem Seats.getWrite (g : JournalGeometry) (h : Handle) (bid : Nat)
    (device : Option Block) (ha : st.activeTxn h.tid = some txn) :
    ∃ new, st.Edits (st.getWriteAccess g h bid device).2.2 txn.record new st.uncheckpointed ∧
      ∀ b, new.event b =
        if b = bid then ((txn.bufferBytes bid).or ((st.captureSeed h.tid bid).or device)).map some
        else txn.record.event b := by
  obtain ⟨htid, hevent⟩ := txn.captureWrite_spec bid (st.captureSeed h.tid bid) device
  refine ⟨_, ?_, hevent⟩
  cases hc : txn.captureWrite bid (st.captureSeed h.tid bid) device with
  | mk res captured =>
    rw [hc] at htid
    cases res with
    | error e =>
      simp only [getWriteAccess, ha, hc]
      exact hs.edit ha htid
    | ok generation =>
      simp only [getWriteAccess, ha, hc]
      exact hs.settle ha htid g h _ generation

theorem Seats.getCreate (g : JournalGeometry) (h : Handle) (bid : Nat) (ha : st.activeTxn h.tid = some txn) :
    ∃ new, st.Edits (st.getCreateAccess g h bid).2.2 txn.record new st.uncheckpointed ∧
      ∀ b, new.event b =
        if b = bid then some (some ((txn.bufferBytes bid).getD (Bytes.zeros _)))
        else txn.record.event b := by
  obtain ⟨htid, hevent⟩ := txn.captureCreate_spec bid
  refine ⟨_, ?_, hevent⟩
  rw [getCreateAccess, ha]
  exact hs.settle ha htid g h _ _

theorem Seats.patch {st' : JournalState} (h : st.patch tid bid generation f = .ok st') :
    ∃ old new v, st.Edits st' old new st.uncheckpointed ∧ old.event bid = some (some v) ∧
      ∀ b, new.event b = if b = bid then some (some (f v)) else old.event b := by
  unfold JournalState.patch at h
  cases ha : st.activeTxn tid with
  | none => simp [ha] at h
  | some txn =>
    simp only [ha] at h
    cases hp : txn.applyPatch bid generation f with
    | error e => simp [hp, Except.map] at h
    | ok patched =>
      simp only [hp, Except.map, Except.ok.injEq] at h
      subst h
      obtain ⟨htid, v, hv, hevent⟩ := applyPatch_ok hp
      exact ⟨_, _, v, hs.edit ha htid, event_eq_some.mpr hv, hevent⟩

theorem Seats.discharge {start count : Nat} (ha : st.activeTxn tid = some txn) :
    ∃ new, st.Edits (orKeep (st.discharge tid start count) st) txn.record new
        (fun b => if b ∈ List.range' start count then none else st.uncheckpointed b) ∧
      ∀ b, new.event b =
        if b ∈ List.range' start count then some none else txn.record.event b := by
  refine ⟨_, ?_, event_forgetAll (List.range' start count) txn⟩
  have he := hs.edit ha (tid_forgetAll (List.range' start count) txn)
  simp only [JournalState.discharge, ha, orKeep, Except.toOption, getD_some]
  exact ⟨⟨he.committing, he.head, he.tailBlock, he.tailTid, he.revoked, he.seats, he.active,
    he.nextTid, by simp only [he.images]⟩, he.before, he.tid⟩

end

end JournalState

end Ext4
