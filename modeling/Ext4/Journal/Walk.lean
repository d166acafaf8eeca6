import Ext4.Journal.Geometry
import Ext4.Journal.Revoke

namespace Ext4

variable {M : Type}

def bump (consumed : Nat) : Nat := (consumed + 1) % 2 ^ 32

def chainTooLong : Fault := .error .euclean "journal transaction chain exceeds the log size"
def chainBadMagic : Fault := .error .euclean "journal chain block has bad magic"
def chainBadTid : Fault := .error .euclean "journal chain block has an unexpected tid"

def tailOk (g : JournalGeometry) (block : Block) : Bool :=
  match g.csumSeed with
  | none => true
  | some seed => seed.verifyBlockTail block

def commitOk (g : JournalGeometry) (block : Block) : Bool :=
  match g.csumSeed with
  | none => true
  | some seed => seed.verifyCommitBlock block

def dataOk (g : JournalGeometry) (tid : Tid) (tag : DescriptorTag) (block : Block) : Bool :=
  match g.csumSeed with
  | none => true
  | some seed => tag.verifyDataCsum seed tid block

def restoreMagic (block : Block) : Block := Bytes.putBE block 0 4 jbd2Magic

def loggedImage (tag : DescriptorTag) (block : Block) : Block :=
  if tag.isEscaped then restoreMagic block else block

def scanTags (g : JournalGeometry) :
    List (Except Fault DescriptorTag) → Nat → Nat → Option (Nat × Nat)
  | [], log, consumed => some (log, consumed)
  | .error _ :: _, _, _ => none
  | .ok _ :: tags, log, consumed => scanTags g tags (g.nextLogBlock log) (bump consumed)

def scanLoop (g : JournalGeometry) (tid : Tid) :
    Nat → Bool → Nat → Nat → JournalIo M (Option Nat)
  | 0, _, _, _ => .fail .spin
  | fuel + 1, chainTailsCsumOk, consumed, log => do
    let block ← g.readLogBlock log
    let header := RawJournalHeader.parse block
    -- the magic and the tid vouch for the block before its type is dispatched on
    if header.magic ≠ jbd2Magic then pure none
    else if header.sequence ≠ tid then pure none
    else if header.blocktype = blocktypeRevoke then
      if g.maxlen < bump consumed then .fail chainTooLong
      else
        scanLoop g tid fuel (chainTailsCsumOk && tailOk g block) (bump consumed)
          (g.nextLogBlock log)
    else if header.blocktype ≠ blocktypeDescriptor ∧ header.blocktype ≠ blocktypeCommit then
      pure none
    else if header.blocktype = blocktypeCommit then
      if chainTailsCsumOk = false then
        .fail (.error .euclean "journal chain block checksum invalid on a committed transaction")
      else if commitOk g block = false then
        .fail (.error .euclean "journal commit block checksum mismatch")
      else pure (some (g.nextLogBlock log))
    else
      match scanTags g (g.tagLayout.walk block) log consumed with
      | none => pure none
      | some (log, consumed) =>
        if g.maxlen < bump consumed then .fail chainTooLong
        else
          scanLoop g tid fuel (chainTailsCsumOk && tailOk g block) (bump consumed)
            (g.nextLogBlock log)

def scanTransaction (g : JournalGeometry) (fuel startLog : Nat) (tid : Tid) :
    JournalIo M (Option Nat) :=
  scanLoop g tid fuel true 0 startLog

def collectTags (g : JournalGeometry) :
    List (Except Fault DescriptorTag) → Nat → Nat → Except Fault (Nat × Nat)
  | [], log, consumed => .ok (log, consumed)
  | .error e :: _, _, _ => .error e
  | .ok _ :: tags, log, consumed => collectTags g tags (g.nextLogBlock log) (bump consumed)

def collectLoop (g : JournalGeometry) (tid : Tid) :
    Nat → RevokeTable → Nat → Nat → JournalIo M (Nat × RevokeTable)
  | 0, _, _, _ => .fail .spin
  | fuel + 1, table, consumed, log => do
    let block ← g.readLogBlock log
    let header := RawJournalHeader.parse block
    if header.magic ≠ jbd2Magic then .fail chainBadMagic
    else if header.sequence ≠ tid then .fail chainBadTid
    else if header.blocktype = blocktypeCommit then pure (g.nextLogBlock log, table)
    else if header.blocktype = blocktypeRevoke then
      match g.tagLayout.walkRevoke block with
      | .error e => .fail e
      | .ok entries =>
        if g.maxlen < bump consumed then .fail chainTooLong
        else
          collectLoop g tid fuel (table.recordAll entries tid) (bump consumed)
            (g.nextLogBlock log)
    else if header.blocktype = blocktypeDescriptor then
      match collectTags g (g.tagLayout.walk block) log consumed with
      | .error e => .fail e
      | .ok (log, consumed) =>
        if g.maxlen < bump consumed then .fail chainTooLong
        else collectLoop g tid fuel table (bump consumed) (g.nextLogBlock log)
    else .fail (.error .euclean "unexpected journal chain block type")

def collectTransactionRevokes (g : JournalGeometry) (fuel startLog : Nat) (tid : Tid)
    (table : RevokeTable) : JournalIo M (Nat × RevokeTable) :=
  collectLoop g tid fuel table 0 startLog

def applyTags (g : JournalGeometry) (tid : Tid) (revoked : RevokeTable) :
    List (Except Fault DescriptorTag) → Nat → Nat → Bool → JournalIo M (Nat × Nat × Bool)
  | [], log, consumed, bad => pure (log, consumed, bad)
  | .error e :: _, _, _, _ => .fail e
  | .ok tag :: tags, log, consumed, bad =>
    if revoked.suppresses tag.blocknr tid then
      applyTags g tid revoked tags (g.nextLogBlock log) (bump consumed) bad
    else do
      let block ← g.readLogBlock (g.nextLogBlock log)
      -- a block failing its checksum is skipped; the commit block then refuses the whole chain
      if dataOk g tid tag block = false then
        applyTags g tid revoked tags (g.nextLogBlock log) (bump consumed) true
      else do
        writeBlock tag.blocknr (loggedImage tag block) "failed to apply journaled block"
        applyTags g tid revoked tags (g.nextLogBlock log) (bump consumed) bad

def applyLoop (g : JournalGeometry) (tid : Tid) (revoked : RevokeTable) :
    Nat → Bool → Nat → Nat → JournalIo M Nat
  | 0, _, _, _ => .fail .spin
  | fuel + 1, badTagCsum, consumed, log => do
    let block ← g.readLogBlock log
    let header := RawJournalHeader.parse block
    if header.magic ≠ jbd2Magic then .fail chainBadMagic
    else if header.sequence ≠ tid then .fail chainBadTid
    else if header.blocktype = blocktypeCommit then
      if badTagCsum then
        .fail (.error .euclean "journal data block checksum mismatch during replay")
      else pure (g.nextLogBlock log)
    else if header.blocktype = blocktypeRevoke then
      if g.maxlen < bump consumed then .fail chainTooLong
      else applyLoop g tid revoked fuel badTagCsum (bump consumed) (g.nextLogBlock log)
    else if header.blocktype ≠ blocktypeDescriptor then
      .fail (.error .euclean "expected a journal descriptor block")
    else if tailOk g block = false then
      .fail (.error .euclean "journal descriptor checksum mismatch")
    else do
      let (log, consumed, bad) ←
        applyTags g tid revoked (g.tagLayout.walk block) log consumed badTagCsum
      if g.maxlen < bump consumed then .fail chainTooLong
      else applyLoop g tid revoked fuel bad (bump consumed) (g.nextLogBlock log)

def applyLogTransaction (g : JournalGeometry) (fuel startLog : Nat) (tid : Tid)
    (revoked : RevokeTable) : JournalIo M Nat :=
  applyLoop g tid revoked fuel false 0 startLog

def coversTags (g : JournalGeometry) (unpublished : Nat → Bool) :
    List (Except Fault DescriptorTag) → Nat → Nat → Except Fault (Option (Nat × Nat))
  | [], log, consumed => .ok (some (log, consumed))
  | .error e :: _, _, _ => .error e
  | .ok tag :: tags, log, consumed =>
    if unpublished tag.blocknr then .ok none
    else coversTags g unpublished tags (g.nextLogBlock log) (bump consumed)

def coversLoop (g : JournalGeometry) (tid : Tid) (unpublished : Nat → Bool) :
    Nat → Nat → Nat → JournalIo M Bool
  | 0, _, _ => .fail .spin
  | fuel + 1, consumed, log => do
    let block ← g.readLogBlock log
    let header := RawJournalHeader.parse block
    if header.magic ≠ jbd2Magic then .fail chainBadMagic
    else if header.sequence ≠ tid then .fail chainBadTid
    else if header.blocktype = blocktypeCommit then pure false
    else if header.blocktype = blocktypeRevoke then
      if g.maxlen < bump consumed then .fail chainTooLong
      else coversLoop g tid unpublished fuel (bump consumed) (g.nextLogBlock log)
    else if header.blocktype ≠ blocktypeDescriptor then
      .fail (.error .euclean "expected a journal descriptor block")
    else
      match coversTags g unpublished (g.tagLayout.walk block) log consumed with
      | .error e => .fail e
      | .ok none => pure true
      | .ok (some (log, consumed)) =>
        if g.maxlen < bump consumed then .fail chainTooLong
        else coversLoop g tid unpublished fuel (bump consumed) (g.nextLogBlock log)

def chainCoversUnpublished (g : JournalGeometry) (fuel startLog : Nat) (tid : Tid)
    (unpublished : Nat → Bool) : JournalIo M Bool :=
  coversLoop g tid unpublished fuel 0 startLog

end Ext4
