import Ext4.Base.Chunks
import Ext4.Journal.Geometry

namespace Ext4

variable {M : Type}

structure LoggedBlock where
  bytes : Block
  escape : Bool

structure DescriptorRun where
  descriptor : Block
  blocks : List LoggedBlock

def needsEscape (bytes : Block) : Bool := Bytes.slice bytes 0 4 == Bytes.be 4 jbd2Magic

def zeroHead (bytes : Block) : Block := Bytes.splice bytes 0 (List.replicate 4 0)

def LoggedBlock.ofImage (bytes : Block) : LoggedBlock := ⟨bytes, needsEscape bytes⟩

def LoggedBlock.logged (b : LoggedBlock) : Block := if b.escape then zeroHead b.bytes else b.bytes

def DescriptorRun.logBlocks (run : DescriptorRun) : List Block :=
  run.descriptor :: run.blocks.map LoggedBlock.logged

def tagFlags (isFirst isLast escape : Bool) : UInt16 :=
  (if isFirst then 0 else tagFlagSameUuid) ||| (if isLast then tagFlagLastTag else 0) |||
    (if escape then tagFlagEscape else 0)

def putRun (len : Nat) : List (Nat × Block) → Nat → TagWriter → Except Fault TagWriter
  | [], _, w => .ok w
  | (bid, bytes) :: run, i, w =>
    match w.put bid (tagFlags (i == 0) (i == len - 1) (needsEscape bytes))
        (LoggedBlock.ofImage bytes).logged with
    | .error e => .error e
    | .ok w => putRun len run (i + 1) w

def buildDescriptorRun (tid : Tid) (layout : TagLayout) (seed : Option JournalCsumSeed)
    (run : List (Nat × Block)) : Except Fault DescriptorRun := do
  let w ← layout.writer (putHeader (Bytes.zeros _) blocktypeDescriptor tid) tid seed
  let w ← putRun run.length run 0 w
  pure ⟨w.finish, run.map fun p => LoggedBlock.ofImage p.2⟩

def buildDescriptorChain (tid : Tid) (layout : TagLayout) (seed : Option JournalCsumSeed)
    (captures : List (Nat × Block)) : Except Fault (List DescriptorRun) :=
  if captures.isEmpty then .error (.error .einval "cannot commit an empty transaction")
  else (captures.chunks layout.tagsPerDescriptor).mapM (buildDescriptorRun tid layout seed)

def buildRevokeBlock (tid : Tid) (layout : TagLayout) (seed : Option JournalCsumSeed)
    (run : List Nat) : Except Fault Block := do
  let w ← layout.revokeWriter tid seed
  let w ← run.foldlM RevokeBlockWriter.put w
  pure w.finish

def buildRevokeBlocks (tid : Tid) (layout : TagLayout) (seed : Option JournalCsumSeed)
    (revokes : List Nat) : Except Fault (List Block) :=
  (revokes.chunks layout.revokeEntriesPerBlock).mapM (buildRevokeBlock tid layout seed)

structure Timestamp where
  secs : Nat
  nanos : Nat

def buildCommitBlock (tid : Tid) (seed : Option JournalCsumSeed) (now : Timestamp) : Block :=
  let block := Bytes.putBE (Bytes.putBE (putHeader (Bytes.zeros _) blocktypeCommit tid)
    48 8 now.secs) 56 4 now.nanos
  match seed with
  | none => block
  | some seed => seed.stampCommitBlock block

def writeLogBlocks (g : JournalGeometry) : List Block → Nat → JournalIo M Nat
  | [], log => pure log
  | block :: blocks, log => do
    g.writeLogBlock log block
    writeLogBlocks g blocks (g.nextLogBlock log)

end Ext4
