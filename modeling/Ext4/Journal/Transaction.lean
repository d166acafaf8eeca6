import Ext4.Base.SortedMap
import Ext4.Journal.Commit
import Ext4.Journal.Revoke

namespace Ext4

inductive CommitPhase where
  | locked
  | flush
  | commit
  | commitRecord
  | finished
  deriving DecidableEq

def CommitPhase.nextInPipeline : CommitPhase → Option CommitPhase
  | .locked => some .flush
  | .flush => some .commit
  | .commit => some .commitRecord
  | .commitRecord => some .finished
  | .finished => none

structure Capture where
  generation : Nat
  buffer : Block

structure UncheckpointedImage where
  tid : Tid
  image : Block

def UncheckpointedImage.isCheckpointedBy (image : UncheckpointedImage) (committed : Tid) : Bool :=
  committed.geq image.tid

structure Transaction where
  tid : Tid
  tUpdates : Nat
  outstandingCredits : Nat
  metadata : SortedMap Nat Capture
  nextCaptureGeneration : Nat
  revoked : SortedMap Nat Unit
  orderedData : SortedMap Nat Nat
  disjoint : ∀ b, (revoked.get b).isSome → metadata.get b = none

namespace Transaction

def new (tid : Tid) : Transaction where
  tid := tid
  tUpdates := 0
  outstandingCredits := 0
  metadata := .empty
  nextCaptureGeneration := 0
  revoked := .empty
  orderedData := .empty
  disjoint := by simp

def nrMetadataBlocks (txn : Transaction) : Nat := txn.metadata.entries.length

def nrRevokeBlocks (txn : Transaction) (layout : TagLayout) : Nat :=
  (txn.revoked.entries.length + layout.revokeEntriesPerBlock - 1) / layout.revokeEntriesPerBlock

def reservedMetadataBlocks (txn : Transaction) (extra : Nat) : Nat :=
  txn.nrMetadataBlocks + txn.outstandingCredits + extra

def isCaptured (txn : Transaction) (bid : Nat) : Bool := (txn.metadata.get bid).isSome

def hasRecordedWork (txn : Transaction) : Bool :=
  0 < txn.nrMetadataBlocks || !txn.revoked.entries.isEmpty

def consumeReservedCredit (txn : Transaction) : Transaction :=
  { txn with outstandingCredits := txn.outstandingCredits - 1 }

def unrevoke (txn : Transaction) (bid : Nat) : Transaction :=
  { txn with
    revoked := txn.revoked.erase bid
    disjoint := by
      intro b hb
      rw [SortedMap.get_erase] at hb
      split_ifs at hb
      · cases hb
      · exact txn.disjoint b hb }

theorem unrevoke_revoked (txn : Transaction) (bid : Nat) :
    (txn.unrevoke bid).revoked.get bid = none := by
  simp [unrevoke, SortedMap.get_erase]

def insertCapture (txn : Transaction) (bid : Nat) (buffer : Block) (h : txn.revoked.get bid = none) : Transaction :=
  { txn with
    metadata := txn.metadata.insert bid ⟨txn.nextCaptureGeneration, buffer⟩
    nextCaptureGeneration := txn.nextCaptureGeneration + 1
    disjoint := by
      intro b hb
      rw [SortedMap.get_insert, if_neg]
      · exact txn.disjoint b hb
      · rintro rfl
        simp [h] at hb }

def captureCreate (txn : Transaction) (bid : Nat) : Nat × Transaction :=
  let cleared := txn.unrevoke bid
  match cleared.metadata.get bid with
  | some capture => (capture.generation, cleared)
  | none =>
    (cleared.nextCaptureGeneration, cleared.insertCapture bid (Bytes.zeros _) (txn.unrevoke_revoked bid))

def captureWrite (txn : Transaction) (bid : Nat) (seed device : Option Block) :
    Except Fault Nat × Transaction :=
  let cleared := txn.unrevoke bid
  match cleared.metadata.get bid with
  | some capture => (.ok capture.generation, cleared)
  | none =>
    match seed.or device with
    | some bytes =>
      (.ok cleared.nextCaptureGeneration, cleared.insertCapture bid bytes (txn.unrevoke_revoked bid))
    | none =>
      (.error (.error .eio "failed to read metadata block for journaling"), cleared)

def forgetBlock (txn : Transaction) (bid : Nat) : Transaction :=
  { txn with
    metadata := txn.metadata.erase bid
    revoked := txn.revoked.insert bid ()
    disjoint := by
      intro b hb
      rw [SortedMap.get_insert] at hb
      rw [SortedMap.get_erase]
      split_ifs at hb ⊢ with h
      · rfl
      · exact txn.disjoint b hb }

def applyPatch (txn : Transaction) (bid generation : Nat) (patch : Block → Block) :
    Except Fault Transaction :=
  match h : txn.metadata.get bid with
  | none => .error (.error .eio "dirty_metadata without prior get_*_access")
  | some capture =>
    if capture.generation = generation then
      .ok { txn with
        metadata := txn.metadata.insert bid { capture with buffer := patch capture.buffer }
        disjoint := by
          intro b hb
          rw [SortedMap.get_insert, if_neg]
          · exact txn.disjoint b hb
          · rintro rfl
            simp [txn.disjoint b hb] at h }
    else .error (.error .eio "stale write access: the block was re-captured since the credential was minted")

def bufferBytes (txn : Transaction) (bid : Nat) : Option Block :=
  (txn.metadata.get bid).map Capture.buffer

def metadataBlocks (txn : Transaction) : List (Nat × Block) :=
  txn.metadata.entries.map fun e => (e.1, e.2.buffer)

def revokedBlocks (txn : Transaction) : List Nat := txn.revoked.keys

def stashUncheckpointed (txn : Transaction) (retained : Nat → Option UncheckpointedImage) :
    Nat → Option UncheckpointedImage := fun b =>
  match txn.bufferBytes b with
  | some bytes => some ⟨txn.tid, bytes⟩
  | none => retained b

def stashRevokes (txn : Transaction) (table : RevokeTable) : RevokeTable :=
  table.recordAll txn.revokedBlocks txn.tid

def registerOrderedData (txn : Transaction) (ino len : Nat) : Transaction :=
  { txn with orderedData := txn.orderedData.insert ino len }

theorem mem_revokedBlocks {txn : Transaction} {b : Nat} :
    b ∈ txn.revokedBlocks ↔ (txn.revoked.get b).isSome := SortedMap.mem_keys

end Transaction

end Ext4
