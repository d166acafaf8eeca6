import Ext4.Journal.State
import Ext4.Journal.Walk

namespace Ext4

inductive CommitAttempt where
  | committed (tid : Tid)
  | needsLogSpace

def JournalGeometry.updateSuperblockTail {M : Type} (g : JournalGeometry) (txnStart : Nat)
    (tid : Tid) : JournalIo M Unit := do
  let raw ← g.readRawSuperblock
  g.writeSuperblock ((raw.withStart txnStart).withSequence tid)

def Journal.advanceCommittingPhase (tid : Tid) (next : CommitPhase) : JournalIo Journal Unit :=
  Io.update fun j => (j.state.advanceCommittingPhase tid next).map fun st => { j with state := st }

def Journal.publishCommit (txn : Transaction) (startHead newHead : Nat) (wasClean : Bool)
    (j : Journal) : Except Fault Journal := do
  let st ← j.state.advanceCommittingPhase txn.tid .finished
  let st := { st with head := newHead }
  let st := if wasClean then { st with tailBlock := some startHead, tailTid := txn.tid } else st
  let st := { st with revoked := txn.stashRevokes st.revoked }
  pure { j with state := st.releasePinnedFrees txn.tid }

def nrLogBlocks (revokeBlocks : List Block) (chain : List DescriptorRun) : Nat :=
  revokeBlocks.length + (chain.map fun run => run.blocks.length).sum + chain.length + 1

-- the data writes of the ordered inodes are the page cache's
def flushOrderedData {M : Type} (txn : Transaction) : JournalIo M Unit :=
  if txn.orderedData.entries.isEmpty then pure () else barrier

def writeChain (g : JournalGeometry) (now : Timestamp) (tid : Tid) (revokeBlocks : List Block)
    (chain : List DescriptorRun) (startHead : Nat) : JournalIo Journal Unit := do
  let log ← writeLogBlocks g revokeBlocks startHead
  let log ← writeLogBlocks g (chain.flatMap DescriptorRun.logBlocks) log
  barrier
  Journal.advanceCommittingPhase tid .commitRecord
  g.writeLogBlock log (buildCommitBlock tid g.csumSeed now)
  barrier

def recordTail {M : Type} (g : JournalGeometry) (wasClean : Bool) (startHead : Nat) (tid : Tid) :
    JournalIo M Unit :=
  if wasClean then g.updateSuperblockTail startHead tid else pure ()

def commitAt (g : JournalGeometry) (now : Timestamp) (txn : Transaction)
    (revokeBlocks : List Block) (chain : List DescriptorRun) (startHead : Nat) (wasClean : Bool) :
    JournalIo Journal CommitAttempt := do
  Journal.advanceCommittingPhase txn.tid .flush
  flushOrderedData txn
  Journal.advanceCommittingPhase txn.tid .commit
  writeChain g now txn.tid revokeBlocks chain startHead
  recordTail g wasClean startHead txn.tid
  Io.update (Journal.publishCommit txn startHead (g.advance startHead (nrLogBlocks revokeBlocks chain)) wasClean)
  let _ ← Io.atomically fun j => { j with committedTid := txn.tid }
  pure (.committed txn.tid)

def tryCommitTransaction (g : JournalGeometry) (now : Timestamp) (txn : Transaction) :
    JournalIo Journal CommitAttempt := do
  let revokeBlocks ← Prog.ofExcept
    (buildRevokeBlocks txn.tid g.tagLayout g.csumSeed txn.revokedBlocks)
  let chain ← Prog.ofExcept
    (buildDescriptorChain txn.tid g.tagLayout g.csumSeed txn.metadataBlocks)
  if 2 ^ 32 ≤ nrLogBlocks revokeBlocks chain then
    .fail (.error .enospc "transaction does not fit the journal")
  else
    let j ← Io.atomically id
    if g.freeLogBlocks j.state.head j.state.tailBlock < nrLogBlocks revokeBlocks chain then
      pure .needsLogSpace
    else commitAt g now txn revokeBlocks chain j.state.head j.state.tailBlock.isNone

def reclaimedEnough (g : JournalGeometry) (targetFree : Option Nat) (head log : Nat) : Bool :=
  match targetFree with
  | none => false
  | some wantFree => wantFree ≤ g.freeLogBlocks head (some log)

structure CheckpointPass where
  log : Nat
  tid : Tid
  appliedAny : Bool
  stoppedEarly : Bool

def coversUnpublished {M : Type} (g : JournalGeometry) (fuel log : Nat) (tid : Tid)
    (unpublished : List Nat) : JournalIo M Bool :=
  if unpublished.isEmpty then pure false
  else chainCoversUnpublished g fuel log tid fun b => unpublished.contains b

def checkpointLoop {M : Type} (g : JournalGeometry) (fuel : Nat) (targetFree : Option Nat)
    (committedTid : Tid) (head : Nat) (revoked : RevokeTable) (unpublished : List Nat) :
    Nat → Nat → Tid → Bool → JournalIo M CheckpointPass
  | 0, _, _, _ => .fail .spin
  | n + 1, log, tid, appliedAny => do
    if committedTid.geq tid then
      if ← coversUnpublished g fuel log tid unpublished then pure ⟨log, tid, appliedAny, true⟩
      else
        let log ← applyLogTransaction g fuel log tid revoked
        let tid := tid.next
        if committedTid.geq tid && reclaimedEnough g targetFree head log then
          pure ⟨log, tid, true, true⟩
        else
          checkpointLoop g fuel targetFree committedTid head revoked unpublished n log tid true
    else pure ⟨log, tid, appliedAny, false⟩

def publishTail {M : Type} (g : JournalGeometry) (committedTid : Tid) (head : Nat)
    (pass : CheckpointPass) : JournalIo M Unit := do
  if pass.stoppedEarly then g.updateSuperblockTail pass.log pass.tid
  else
    let raw ← g.readRawSuperblock
    g.writeSuperblock (((raw.withStart 0).withSequence committedTid.next).withHead head)

def Journal.retire (pass : CheckpointPass) (j : Journal) : Journal :=
  { j with
    state := { j.state with
      tailBlock := if pass.stoppedEarly then some pass.log else none
      tailTid := pass.tid
      uncheckpointed := fun b => (j.state.uncheckpointed b).filter fun image =>
        !image.isCheckpointedBy pass.tid.prev
      revoked := j.state.revoked.retireThrough pass.tid.prev } }

def checkpointAdvance (g : JournalGeometry) (fuel : Nat) (targetFree : Option Nat) :
    JournalIo Journal Bool := do
  let j ← Io.observe
  match j.state.tailBlock with
  | none => pure false
  | some tailBlock =>
    if reclaimedEnough g targetFree j.state.head tailBlock then pure false
    else
      let pass ← checkpointLoop g fuel targetFree j.committedTid j.state.head j.state.revoked
        j.state.unpublishedRevokes fuel tailBlock j.state.tailTid false
      if pass.appliedAny then
        barrier
        publishTail g j.committedTid j.state.head pass
        let _ ← Io.atomically (Journal.retire pass)
        pure true
      else pure false

def checkpoint (g : JournalGeometry) (fuel : Nat) : JournalIo Journal Unit := do
  let _ ← checkpointAdvance g fuel none
  pure ()

def commitOrDrainTail (g : JournalGeometry) (fuel : Nat) (now : Timestamp) (txn : Transaction) :
    JournalIo Journal Tid := do
  match ← tryCommitTransaction g now txn with
  | .committed tid => pure tid
  | .needsLogSpace =>
    checkpoint g fuel
    match ← tryCommitTransaction g now txn with
    | .committed tid => pure tid
    | .needsLogSpace =>
      .fail (.error .enospc "transaction does not fit the journal even after draining the tail")

def writeErrnoToSuper (g : JournalGeometry) : JournalIo Journal Unit := do
  let raw ← g.readRawSuperblock
  let j ← Io.observe
  g.writeSuperblock (raw.withErrno j.sbError)

def abortWithError (g : JournalGeometry) : JournalIo Journal Unit := do
  let _ ← Io.atomically fun j => { j with aborted := true, sbError := sErrnoErrorMarker }
  let _ ← (writeErrnoToSuper g).attempt
  pure ()

def Journal.clearCommitting (tid : Tid) (j : Journal) : Journal :=
  { j with state := { j.state with
    committing := j.state.committing.filter fun c => c.tid ≠ tid } }

def commitStaged (g : JournalGeometry) (fuel : Nat) (now : Timestamp) (txn : Transaction) :
    JournalIo Journal Tid := do
  match ← (commitOrDrainTail g fuel now txn).attempt with
  | .ok tid =>
    let _ ← Io.atomically (Journal.clearCommitting txn.tid)
    pure tid
  | .error e =>
    abortWithError g
    let _ ← Io.atomically (Journal.clearCommitting txn.tid)
    .fail e

def commitTriggered (g : JournalGeometry) (txn : Transaction) (expired : Bool) (requested : Option Tid) : Bool :=
  requested.any (fun r => r.geq txn.tid) || expired ||
    Journal.batchTriggerCredits g ≤ txn.nrMetadataBlocks + txn.nrRevokeBlocks g.tagLayout

inductive PipelineStep where
  | staged (txn : Transaction)
  | parked
  | idle

def JournalState.advancePipeline (g : JournalGeometry) (expired : Bool) (st : JournalState) :
    PipelineStep × JournalState :=
  if st.committing.isSome then (.idle, st)
  else match st.locking with
    | some locked =>
      if locked.tUpdates = 0 then
        (.staged locked, { st with locking := none }.stageCommitting locked)
      else (.parked, st)
    | none =>
      match st.committableRunning with
      | none => (.idle, st)
      | some txn =>
        if commitTriggered g txn expired st.commitRequest then
          if txn.tUpdates = 0 then
            (.staged txn, { st with running := none }.stageCommitting txn)
          else (.parked, { st with running := none, locking := some txn })
        else (.idle, st)

def commitOne (g : JournalGeometry) (fuel : Nat) (now : Timestamp) (expired : Bool) :
    JournalIo Journal Bool := do
  if (← Io.observe).aborted then pure false
  else
    let j ← Io.atomically fun j => { j with state := (j.state.advancePipeline g expired).2 }
    match (j.state.advancePipeline g expired).1 with
    | .staged txn =>
      let _ ← (commitStaged g fuel now txn).attempt
      pure true
    | .parked => pure false
    | .idle => pure false

def runLazyCheckpoint (g : JournalGeometry) (fuel : Nat) : JournalIo Journal Bool := do
  let demanded ← Io.atomically fun j => { j with spacePressure := false }
  let j ← Io.observe
  if j.state.tailBlock.isNone then pure false
  else if demanded.spacePressure then checkpointAdvance g fuel none
  else if g.freeLogBlocks j.state.head j.state.tailBlock < Journal.checkpointLowWater g then
    checkpointAdvance g fuel (some (Journal.checkpointLowWater g))
  else pure false

inductive FlushStep where
  | refused (e : Fault)
  | staged (txn : Transaction)
  | dropped
  | drained

def JournalState.takeForFlush (st : JournalState) : FlushStep × JournalState :=
  if st.committing.isSome then
    (.refused (.error .eio "committing slot occupied at unmount"), st)
  else match st.locking.or st.running with
    | none => (.drained, st)
    | some txn =>
      if txn.tUpdates ≠ 0 then (.refused (.error .eio "open journal handles at unmount"), st)
      else
        let st := if st.locking.isSome then { st with locking := none }
          else { st with running := none }
        if st.hasDurableObligation txn then (.staged txn, st.stageCommitting txn)
        else (.dropped, st)

def flushLoop (g : JournalGeometry) (fuel : Nat) (now : Timestamp) : Nat → JournalIo Journal Unit
  | 0 => .fail .spin
  | n + 1 => do
    let j ← Io.atomically fun j => { j with state := j.state.takeForFlush.2 }
    match j.state.takeForFlush.1 with
    | .refused e => .fail e
    | .staged txn =>
      let _ ← commitStaged g fuel now txn
      flushLoop g fuel now n
    | .dropped => flushLoop g fuel now n
    | .drained => pure ()

def flushOnUnmount (g : JournalGeometry) (fuel : Nat) (now : Timestamp) :
    JournalIo Journal Unit := do
  if (← Io.observe).aborted then
    let _ ← Io.atomically fun j =>
      { j with state := { j.state with running := none, locking := none } }
    .fail (.error .eio "journal aborted; leaving the log for recovery")
  else
    flushLoop g fuel now fuel
    checkpoint g fuel

end Ext4
