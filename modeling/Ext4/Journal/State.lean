import Ext4.Journal.Transaction

namespace Ext4

structure PinnedRun where
  count : Nat
  tid : Tid

structure CommittingTxn where
  txn : Transaction
  phase : CommitPhase

def CommittingTxn.tid (c : CommittingTxn) : Tid := c.txn.tid

def CommittingTxn.unpublishedRevokes (c : CommittingTxn) : List Nat :=
  if c.phase = .finished then [] else c.txn.revokedBlocks

def CommittingTxn.advanceTo (c : CommittingTxn) (tid : Tid) (next : CommitPhase) :
    Except Fault CommittingTxn :=
  if c.tid ≠ tid then
    .error (.error .eio "phase advance names a different transaction than the committing one")
  else if c.phase.nextInPipeline ≠ some next then
    .error (.error .eio "illegal commit-phase transition")
  else .ok { c with phase := next }

structure JournalState where
  running : Option Transaction
  locking : Option Transaction
  commitRequest : Option Tid
  committing : Option CommittingTxn
  nextTid : Tid
  head : Nat
  tailBlock : Option Nat
  tailTid : Tid
  revoked : RevokeTable
  uncheckpointed : Nat → Option UncheckpointedImage
  pinnedFrees : SortedMap Nat PinnedRun

namespace JournalState

def stageCommitting (st : JournalState) (txn : Transaction) : JournalState :=
  { st with
    uncheckpointed := txn.stashUncheckpointed st.uncheckpointed
    commitRequest := st.commitRequest.filter fun requested => !txn.tid.geq requested
    committing := some ⟨txn, .locked⟩ }

def advanceCommittingPhase (st : JournalState) (tid : Tid) (next : CommitPhase) :
    Except Fault JournalState :=
  match st.committing with
  | none => .error (.error .eio "phase advance without a committing transaction")
  | some c => (c.advanceTo tid next).map fun c => { st with committing := some c }

def releasePinnedFrees (st : JournalState) (committed : Tid) : JournalState :=
  { st with pinnedFrees := st.pinnedFrees.filter fun _ run => !committed.geq run.tid }

def pinsChargedTo (st : JournalState) (tid : Tid) : Bool :=
  st.pinnedFrees.entries.any fun e => e.2.tid = tid

def hasDurableObligation (st : JournalState) (txn : Transaction) : Bool :=
  txn.hasRecordedWork || st.pinsChargedTo txn.tid

def committableRunning (st : JournalState) : Option Transaction :=
  st.running.filter st.hasDurableObligation

def unpublishedRevokes (st : JournalState) : List Nat :=
  (st.running.map Transaction.revokedBlocks).getD [] ++
    (st.locking.map Transaction.revokedBlocks).getD [] ++
    (st.committing.map CommittingTxn.unpublishedRevokes).getD []

def activeTxn (st : JournalState) (tid : Tid) : Option Transaction :=
  (st.running.filter fun txn => txn.tid = tid).or (st.locking.filter fun txn => txn.tid = tid)

def setActive (st : JournalState) (txn : Transaction) : JournalState :=
  if (st.running.filter fun t => t.tid = txn.tid).isSome then { st with running := some txn }
  else if (st.locking.filter fun t => t.tid = txn.tid).isSome then { st with locking := some txn }
  else st

end JournalState

structure Journal where
  state : JournalState
  committedTid : Tid
  aborted : Bool
  sbError : Nat
  spacePressure : Bool

def sErrnoErrorMarker : Nat := 5

namespace Journal

def new (g : JournalGeometry) (sequence : Tid) (start : Option Nat) (errno : Nat) : Journal where
  state := {
    running := none
    locking := none
    commitRequest := none
    committing := none
    nextTid := sequence
    head := g.first
    tailBlock := start
    tailTid := sequence
    revoked := .new
    uncheckpointed := fun _ => none
    pinnedFrees := .empty }
  committedTid := sequence.prev
  aborted := false
  sbError := errno
  spacePressure := false

def maxCredits (g : JournalGeometry) : Nat :=
  g.tagLayout.tagsPerDescriptor * (g.ring - 2) / (g.tagLayout.tagsPerDescriptor + 1)

def worstCaseFootprint (g : JournalGeometry) (credits revokeBlocks : Nat) : Nat :=
  let tags := g.tagLayout.tagsPerDescriptor
  min (credits + revokeBlocks + (credits + tags - 1) / tags + 1) (2 ^ 32 - 1)

def reservationFootprint (g : JournalGeometry) (txn : Transaction) (credits : Nat) : Nat :=
  worstCaseFootprint g (txn.reservedMetadataBlocks credits) (txn.nrRevokeBlocks g.tagLayout)

def checkpointLowWater (g : JournalGeometry) : Nat := max (g.ring / 4) 1

def batchTriggerCredits (g : JournalGeometry) : Nat := max (maxCredits g / 4) 1

end Journal

end Ext4
