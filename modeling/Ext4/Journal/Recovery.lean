import Ext4.Journal.State
import Ext4.Journal.Walk

namespace Ext4

section Passes
variable {M : Type}

def scanPass (g : JournalGeometry) (fuel : Nat) : Nat → Nat → Tid → Nat → JournalIo M (Tid × Nat)
  | 0, _, _, _ => .fail .spin
  | n + 1, log, tid, count => do
    match ← scanTransaction g fuel log tid with
    | none => pure (tid, count)
    | some next => scanPass g fuel n next tid.next (count + 1)

def revokePass (g : JournalGeometry) (fuel : Nat) :
    Nat → Nat → Tid → RevokeTable → JournalIo M RevokeTable
  | 0, _, _, revoked => pure revoked
  | count + 1, log, tid, revoked => do
    let (log, revoked) ← collectTransactionRevokes g fuel log tid revoked
    revokePass g fuel count log tid.next revoked

def replayPass (g : JournalGeometry) (fuel : Nat) (revoked : RevokeTable) :
    Nat → Nat → Tid → JournalIo M Unit
  | 0, _, _ => pure ()
  | count + 1, log, tid => do
    let log ← applyLogTransaction g fuel log tid revoked
    replayPass g fuel revoked count log tid.next

end Passes

def Journal.recovered (g : JournalGeometry) (endTid : Tid) (j : Journal) : Journal :=
  { j with state := { j.state with
    head := g.first, tailBlock := none, tailTid := endTid, nextTid := endTid } }

def recover (g : JournalGeometry) (fuel : Nat) : JournalIo Journal Unit := do
  let raw ← g.readRawSuperblock
  match raw.recoveryStart with
  | none => pure ()
  | some sStart =>
    let sSequence := Tid.ofNat raw.sSequence
    let (endTid, count) ← scanPass g fuel fuel sStart sSequence 0
    let revoked ← revokePass g fuel count sStart sSequence .new
    replayPass g fuel revoked count sStart sSequence
    barrier
    g.writeSuperblock (((raw.withStart 0).withSequence endTid).withHead g.first)
    let _ ← Io.atomically (Journal.recovered g endTid)
    let _ ← Io.atomically fun j => { j with committedTid := endTid.prev }
    pure ()

end Ext4
