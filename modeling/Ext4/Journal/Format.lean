import Ext4.Base.Bytes
import Ext4.Checksum

namespace Ext4

inductive Errno where
  | euclean | eio | einval | enospc | efbig | enoent
  | estale | emlink | eexist | enotempty | enotdir | eisdir | enametoolong | eperm | erofs
  deriving DecidableEq, Repr

inductive Fault where
  | error (errno : Errno) (msg : String)
  | spin
  deriving DecidableEq, Repr

abbrev blockSize : Nat := 4096

abbrev Block := Bytes.Buffer 4096

@[ext] structure Tid where
  raw : UInt32
  deriving DecidableEq, Repr

namespace Tid

def next (t : Tid) : Tid := ⟨t.raw + 1⟩
def prev (t : Tid) : Tid := ⟨t.raw - 1⟩
def geq (a b : Tid) : Bool := (a.raw - b.raw).toNat < 2 ^ 31
def ofNat (n : Nat) : Tid := ⟨UInt32.ofNat n⟩
def add (t : Tid) (n : Nat) : Tid := ⟨t.raw + UInt32.ofNat n⟩

theorem add_zero (t : Tid) : t.add 0 = t := by simp [add]

theorem add_succ (t : Tid) (n : Nat) : t.add (n + 1) = (t.add n).next := by
  simp [add, next, UInt32.ofNat_add, UInt32.add_assoc]

theorem add_inj {t : Tid} {m n : Nat} (hm : m < 2 ^ 32) (hn : n < 2 ^ 32) (h : t.add m = t.add n) :
    m = n := by
  have hraw : UInt32.ofNat m = UInt32.ofNat n := by simpa [add] using h
  have hnat : m % 2 ^ 32 = n % 2 ^ 32 := by simpa using congrArg UInt32.toNat hraw
  rwa [Nat.mod_eq_of_lt hm, Nat.mod_eq_of_lt hn] at hnat

theorem toNat_add_sub (t : Tid) (i j : Nat) :
    ((t.add i).raw - (t.add j).raw).toNat = (2 ^ 32 - j % 2 ^ 32 + i) % 2 ^ 32 := by
  have hdiff : (t.add i).raw - (t.add j).raw = UInt32.ofNat i - UInt32.ofNat j := by
    simp only [add]
    grind
  rw [hdiff, UInt32.toNat_sub]
  simp [UInt32.toNat_ofNat']

theorem geq_add {t : Tid} {i j : Nat} (hi : i < j + 2 ^ 31) (hj : j ≤ i + 2 ^ 31) :
    (t.add i).geq (t.add j) = decide (j ≤ i) := by
  rw [geq, toNat_add_sub]
  congr 1
  rw [eq_iff_iff]
  omega

end Tid

def jbd2Magic : Nat := 0xC03B3998
def blocktypeDescriptor : Nat := 1
def blocktypeCommit : Nat := 2
def blocktypeSuperblockV1 : Nat := 3
def blocktypeSuperblockV2 : Nat := 4
def blocktypeRevoke : Nat := 5

def tagFlagEscape : UInt16 := 1
def tagFlagSameUuid : UInt16 := 2
def tagFlagLastTag : UInt16 := 8

def compatChecksum : UInt32 := 0x1
def incompatRevoke : UInt32 := 0x1
def incompat64bit : UInt32 := 0x2
def incompatCsumV2 : UInt32 := 0x8
def incompatCsumV3 : UInt32 := 0x10
def incompatSupp : UInt32 := incompatRevoke ||| incompat64bit ||| incompatCsumV2 ||| incompatCsumV3
def jbd2Crc32cChksum : Nat := 4

def journalHeaderSize : Nat := 12
def blockTagSize : Nat := 8
def blockTag3Size : Nat := 16
def tagUuidBytes : Nat := 16
def revokeHeaderSize : Nat := 16
def commitChksumOffset : Nat := 16

structure RawJournalHeader where
  magic : Nat
  blocktype : Nat
  sequence : Tid

def RawJournalHeader.parse (block : Block) : RawJournalHeader where
  magic := Bytes.getBE block 0 4
  blocktype := Bytes.getBE block 4 4
  sequence := Tid.ofNat (Bytes.getBE block 8 4)

def putHeader (block : Block) (blocktype : Nat) (tid : Tid) : Block :=
  Bytes.putBE (Bytes.putBE (Bytes.putBE block 0 4 jbd2Magic) 4 4 blocktype) 8 4 tid.raw.toNat

abbrev JournalCsumSeed := UInt32

namespace JournalCsumSeed

def derive (uuid : List UInt8) : JournalCsumSeed := crc32c 0xFFFFFFFF uuid

def blockTailCsum (seed : JournalCsumSeed) (block : Block) : UInt32 :=
  crc32c (crc32c seed (Bytes.slice block 0 4092)) (List.replicate 4 0)

def verifyBlockTail (seed : JournalCsumSeed) (block : Block) : Bool :=
  Bytes.getBE block 4092 4 == (blockTailCsum seed block).toNat

def stampBlockTail (seed : JournalCsumSeed) (block : Block) : Block :=
  Bytes.putBE block 4092 4 (blockTailCsum seed block).toNat

def commitBlockCsum (seed : JournalCsumSeed) (block : Block) : UInt32 :=
  crc32c (crc32c (crc32c seed (Bytes.slice block 0 commitChksumOffset)) (List.replicate 4 0))
    (Bytes.slice block (commitChksumOffset + 4) (blockSize - (commitChksumOffset + 4)))

def stampCommitBlock (seed : JournalCsumSeed) (block : Block) : Block :=
  Bytes.putBE block commitChksumOffset 4 (commitBlockCsum seed block).toNat

def verifyCommitBlock (seed : JournalCsumSeed) (block : Block) : Bool :=
  Bytes.getBE block commitChksumOffset 4 == (commitBlockCsum seed block).toNat

def dataBlockCsum (seed : JournalCsumSeed) (tid : Tid) (loggedBlock : Block) : UInt32 :=
  crc32c (crc32c seed (Bytes.be 4 tid.raw.toNat)) (Bytes.slice loggedBlock 0 blockSize)

end JournalCsumSeed

structure TagLayout where
  tagBytes : Nat
  hasBlocknrHigh : Bool
  csumV3 : Bool
  descriptorTailBytes : Nat
  tail_eq : descriptorTailBytes = 0 ∨ descriptorTailBytes = 4
  v3_tail : csumV3 = true → descriptorTailBytes = 4
  tag_eq : tagBytes = if csumV3 then 16 else
    8 + (if hasBlocknrHigh then 4 else 0) + (if descriptorTailBytes = 0 then 0 else 2)

namespace TagLayout

def hasCsum (l : TagLayout) : Bool := l.descriptorTailBytes != 0
def firstTagOffset (_ : TagLayout) : Nat := journalHeaderSize
def tagAreaEnd (l : TagLayout) : Nat := blockSize - l.descriptorTailBytes
def tagsPerDescriptor (l : TagLayout) : Nat :=
  (l.tagAreaEnd - l.firstTagOffset - tagUuidBytes) / l.tagBytes
def revokeEntryWidth (l : TagLayout) : Nat := if l.hasBlocknrHigh then 8 else 4
def revokeEntriesPerBlock (l : TagLayout) : Nat :=
  (l.tagAreaEnd - revokeHeaderSize) / l.revokeEntryWidth

def fromFeatures (incompat : UInt32) : Except Fault TagLayout :=
  let csumV2 : Bool := incompat &&& incompatCsumV2 ≠ 0
  let csumV3 : Bool := incompat &&& incompatCsumV3 ≠ 0
  if csumV2 && csumV3 then .error (.error .einval "journal enables both csum_v2 and csum_v3")
  else
    let high : Bool := incompat &&& incompat64bit ≠ 0
    let tail := if csumV2 || csumV3 then 4 else 0
    .ok {
      tagBytes := if csumV3 then 16 else
        8 + (if high then 4 else 0) + (if csumV2 then 2 else 0)
      hasBlocknrHigh := high
      csumV3 := csumV3
      descriptorTailBytes := tail
      tail_eq := by grind
      v3_tail := by grind
      tag_eq := by grind }

end TagLayout

inductive TagChecksum where
  | v2 (low16 : Nat)
  | v3 (full : Nat)
  deriving DecidableEq, Repr

@[ext] structure DescriptorTag where
  blocknr : Nat
  flags : UInt16
  checksum : Option TagChecksum
  deriving DecidableEq, Repr

namespace DescriptorTag

def isEscaped (t : DescriptorTag) : Bool := t.flags &&& tagFlagEscape ≠ 0
def isLast (t : DescriptorTag) : Bool := t.flags &&& tagFlagLastTag ≠ 0
def reusesUuid (t : DescriptorTag) : Bool := t.flags &&& tagFlagSameUuid ≠ 0

def verifyDataCsum (t : DescriptorTag) (seed : JournalCsumSeed) (tid : Tid) (loggedBlock : Block) : Bool :=
  match t.checksum with
  | none => true
  | some (.v2 low16) => low16 == (seed.dataBlockCsum tid loggedBlock).toNat % 2 ^ 16
  | some (.v3 full) => full == (seed.dataBlockCsum tid loggedBlock).toNat

end DescriptorTag

inductive TagCsumMode where
  | plain
  | v2 (seed : JournalCsumSeed)
  | v3 (seed : JournalCsumSeed)

structure TagWriter where
  layout : TagLayout
  block : Block
  offset : Nat
  tid : Tid
  mode : TagCsumMode

namespace TagLayout

def splitBlocknr (blocknr : Nat) : Nat × Nat := (blocknr % 2 ^ 32, blocknr / 2 ^ 32 % 2 ^ 32)
def joinBlocknr (low high : Nat) : Nat := low + high * 2 ^ 32

def writer (l : TagLayout) (block : Block) (tid : Tid) (seed : Option JournalCsumSeed) :
    Except Fault TagWriter :=
  match seed with
  | none =>
    if l.hasCsum then .error (.error .einval "journal csum seed does not match the tag layout")
    else .ok ⟨l, block, l.firstTagOffset, tid, .plain⟩
  | some s =>
    if l.csumV3 then .ok ⟨l, block, l.firstTagOffset, tid, .v3 s⟩
    else if l.hasCsum then .ok ⟨l, block, l.firstTagOffset, tid, .v2 s⟩
    else .error (.error .einval "journal csum seed does not match the tag layout")

def decodeTag (l : TagLayout) (descriptor : Block) (offset : Nat) : Except Fault DescriptorTag :=
  if l.csumV3 then
    let flags := Bytes.getBE descriptor (offset + 4) 4
    if 2 ^ 16 ≤ flags then .error (.error .euclean "journal descriptor tag has malformed flags")
    else .ok {
      blocknr := joinBlocknr (Bytes.getBE descriptor offset 4)
        (if l.hasBlocknrHigh then Bytes.getBE descriptor (offset + 8) 4 else 0)
      flags := UInt16.ofNat flags
      checksum := some (.v3 (Bytes.getBE descriptor (offset + 12) 4)) }
  else .ok {
    blocknr := joinBlocknr (Bytes.getBE descriptor offset 4)
      (if l.hasBlocknrHigh then Bytes.getBE descriptor (offset + blockTagSize) 4 else 0)
    flags := UInt16.ofNat (Bytes.getBE descriptor (offset + 6) 2)
    checksum := if l.hasCsum then some (.v2 (Bytes.getBE descriptor (offset + 4) 2)) else none }

def walkFrom (l : TagLayout) (descriptor : Block) :
    Nat → Nat → List (Except Fault DescriptorTag)
  | 0, _ => []
  | fuel + 1, offset =>
    if l.tagAreaEnd < offset + l.tagBytes then
      [.error (.error .euclean "journal descriptor tag runs past the tag area")]
    else match l.decodeTag descriptor offset with
      | .error e => [.error e]
      | .ok tag => .ok tag ::
        if tag.isLast then [] else
          l.walkFrom descriptor fuel
            (offset + l.tagBytes + if tag.reusesUuid then 0 else tagUuidBytes)

def walk (l : TagLayout) (descriptor : Block) : List (Except Fault DescriptorTag) :=
  l.walkFrom descriptor blockSize l.firstTagOffset

end TagLayout

namespace TagWriter

def putPrefixTag (block : Block) (l : TagLayout) (offset low high csum : Nat) (flags : UInt16) :
    Block :=
  let tag := Bytes.putBE (Bytes.putBE (Bytes.putBE block offset 4 low) (offset + 4) 2 csum)
    (offset + 6) 2 flags.toNat
  if l.hasBlocknrHigh then Bytes.putBE tag (offset + blockTagSize) 4 high else tag

def putTag3 (block : Block) (offset low high csum : Nat) (flags : UInt16) : Block :=
  Bytes.putBE (Bytes.putBE (Bytes.putBE (Bytes.putBE block offset 4 low)
    (offset + 4) 4 flags.toNat) (offset + 8) 4 high) (offset + 12) 4 csum

def put (w : TagWriter) (blocknr : Nat) (flags : UInt16) (loggedBlock : Block) :
    Except Fault TagWriter :=
  let (low, high) := TagLayout.splitBlocknr blocknr
  if high ≠ 0 ∧ w.layout.hasBlocknrHigh = false then
    .error (.error .efbig "journal block number exceeds 32-bit tag")
  else
    let finish := w.offset + w.layout.tagBytes +
      if flags &&& tagFlagSameUuid = 0 then tagUuidBytes else 0
    if w.layout.tagAreaEnd < finish then
      .error (.error .enospc "journal descriptor tag area is full")
    else .ok { w with
      offset := finish
      block := match w.mode with
        | .v3 seed => putTag3 w.block w.offset low high
            (seed.dataBlockCsum w.tid loggedBlock).toNat flags
        | .v2 seed => putPrefixTag w.block w.layout w.offset low high
            ((seed.dataBlockCsum w.tid loggedBlock).toNat % 2 ^ 16) flags
        | .plain => putPrefixTag w.block w.layout w.offset low high 0 flags }

def finish (w : TagWriter) : Block :=
  match w.mode with
  | .plain => w.block
  | .v2 seed => seed.stampBlockTail w.block
  | .v3 seed => seed.stampBlockTail w.block

end TagWriter

structure RevokeBlockWriter where
  layout : TagLayout
  block : Block
  offset : Nat
  seed : Option JournalCsumSeed

def TagLayout.revokeWriter (l : TagLayout) (tid : Tid) (seed : Option JournalCsumSeed) :
    Except Fault RevokeBlockWriter :=
  if seed.isSome ≠ l.hasCsum then
    .error (.error .einval "journal csum seed does not match the tag layout")
  else .ok ⟨l, putHeader (Bytes.zeros _) blocktypeRevoke tid, revokeHeaderSize, seed⟩

namespace RevokeBlockWriter

def put (w : RevokeBlockWriter) (blocknr : Nat) : Except Fault RevokeBlockWriter :=
  let width := w.layout.revokeEntryWidth
  if w.layout.tagAreaEnd < w.offset + width then
    .error (.error .enospc "journal revoke block is full")
  else if w.layout.hasBlocknrHigh = false ∧ 2 ^ 32 ≤ blocknr then
    .error (.error .efbig "revoked block number exceeds 32-bit revoke entry")
  else .ok { w with
    block := Bytes.putBE w.block w.offset width blocknr
    offset := w.offset + width }

def finish (w : RevokeBlockWriter) : Block :=
  let block := Bytes.putBE w.block journalHeaderSize 4 w.offset
  match w.seed with
  | none => block
  | some seed => seed.stampBlockTail block

end RevokeBlockWriter

namespace TagLayout

def revokeEntries (l : TagLayout) (block : Block) (finish : Nat) : Nat → Nat → List Nat
  | 0, _ => []
  | fuel + 1, offset =>
    if finish < offset + l.revokeEntryWidth then []
    else Bytes.getBE block offset l.revokeEntryWidth ::
      l.revokeEntries block finish fuel (offset + l.revokeEntryWidth)

def walkRevoke (l : TagLayout) (block : Block) : Except Fault (List Nat) :=
  let finish := Bytes.getBE block journalHeaderSize 4
  if l.tagAreaEnd < finish then
    .error (.error .euclean "journal revoke block r_count exceeds the usable block area")
  else .ok (l.revokeEntries block finish blockSize revokeHeaderSize)

end TagLayout

abbrev RawJournalSuperblock := Bytes.Buffer 1024

namespace RawJournalSuperblock

def magic (raw : RawJournalSuperblock) : Nat := Bytes.getBE raw 0 4
def blocktype (raw : RawJournalSuperblock) : Nat := Bytes.getBE raw 4 4
def sBlocksize (raw : RawJournalSuperblock) : Nat := Bytes.getBE raw 12 4
def sMaxlen (raw : RawJournalSuperblock) : Nat := Bytes.getBE raw 16 4
def sFirst (raw : RawJournalSuperblock) : Nat := Bytes.getBE raw 20 4
def sSequence (raw : RawJournalSuperblock) : Nat := Bytes.getBE raw 24 4
def sStart (raw : RawJournalSuperblock) : Nat := Bytes.getBE raw 28 4
def sErrno (raw : RawJournalSuperblock) : Nat := Bytes.getBE raw 32 4
def sFeatureCompat (raw : RawJournalSuperblock) : UInt32 := UInt32.ofNat (Bytes.getBE raw 36 4)
def sFeatureIncompat (raw : RawJournalSuperblock) : UInt32 := UInt32.ofNat (Bytes.getBE raw 40 4)
def sFeatureRoCompat (raw : RawJournalSuperblock) : UInt32 := UInt32.ofNat (Bytes.getBE raw 44 4)
def sUuid (raw : RawJournalSuperblock) : List UInt8 := Bytes.slice raw 48 16
def sChecksumType (raw : RawJournalSuperblock) : Nat := Bytes.getBE raw 80 1
def sChecksum (raw : RawJournalSuperblock) : Nat := Bytes.getBE raw 252 4

def withSequence (raw : RawJournalSuperblock) (t : Tid) : RawJournalSuperblock :=
  Bytes.putBE raw 24 4 t.raw.toNat
def withStart (raw : RawJournalSuperblock) (start : Nat) : RawJournalSuperblock :=
  Bytes.putBE raw 28 4 start
def withErrno (raw : RawJournalSuperblock) (errno : Nat) : RawJournalSuperblock :=
  Bytes.putBE raw 32 4 errno
def withHead (raw : RawJournalSuperblock) (head : Nat) : RawJournalSuperblock :=
  Bytes.putBE raw 88 4 head

def checksum (raw : RawJournalSuperblock) : UInt32 :=
  crc32c (crc32c (crc32c 0xFFFFFFFF (Bytes.slice raw 0 252)) (List.replicate 4 0))
    (Bytes.slice raw 256 768)

def recoveryStart (raw : RawJournalSuperblock) : Option Nat :=
  if raw.sStart ≠ 0 then some raw.sStart else none

def stampChecksum (raw : RawJournalSuperblock) : RawJournalSuperblock :=
  if raw.sFeatureIncompat &&& (incompatCsumV2 ||| incompatCsumV3) ≠ 0 then
    Bytes.putBE raw 252 4 raw.checksum.toNat
  else raw

section Fields
variable (raw : RawJournalSuperblock)

theorem slice_stampChecksum {off w : Nat} (h : off + w ≤ 252 ∨ 256 ≤ off) :
    Bytes.slice raw.stampChecksum off w = Bytes.slice raw off w := by
  unfold stampChecksum
  split
  · exact Bytes.slice_putBE_disjoint h
  · rfl

theorem getBE_stampChecksum {off w : Nat} (h : off + w ≤ 252 ∨ 256 ≤ off) :
    Bytes.getBE raw.stampChecksum off w = Bytes.getBE raw off w :=
  congrArg Bytes.beVal (raw.slice_stampChecksum h)

@[simp] theorem sStart_withStart (start : Nat) : (raw.withStart start).sStart = start % 2 ^ 32 :=
  Bytes.getBE_putBE_same (by decide)

@[simp] theorem sStart_withSequence (t : Tid) : (raw.withSequence t).sStart = raw.sStart :=
  Bytes.getBE_putBE_disjoint (by decide)

@[simp] theorem sStart_withHead (head : Nat) : (raw.withHead head).sStart = raw.sStart :=
  Bytes.getBE_putBE_disjoint (by decide)

@[simp] theorem sStart_stampChecksum : raw.stampChecksum.sStart = raw.sStart :=
  raw.getBE_stampChecksum (by decide)

end Fields

end RawJournalSuperblock

structure JournalSuperblock where
  maxlen : Nat
  first : Nat
  sequence : Tid
  start : Option Nat
  errno : Nat
  blocksize : Nat
  tagLayout : TagLayout
  csumSeed : Option JournalCsumSeed
  maxlen_lt : maxlen < 2 ^ 32
  first_pos : 0 < first
  first_lt : first < maxlen
  seed_iff : csumSeed.isSome = tagLayout.hasCsum

namespace JournalSuperblock

def featureIncompat (raw : RawJournalSuperblock) : UInt32 :=
  if raw.blocktype = blocktypeSuperblockV2 then raw.sFeatureIncompat else 0

def tryFrom (raw : RawJournalSuperblock) : Except Fault JournalSuperblock :=
  if raw.magic ≠ jbd2Magic then .error (.error .einval "bad jbd2 journal superblock magic")
  else if raw.blocktype ≠ blocktypeSuperblockV2 ∧ raw.blocktype ≠ blocktypeSuperblockV1 then
    .error (.error .einval "journal superblock has a bad block type")
  else if raw.sBlocksize ≠ blockSize then
    .error (.error .einval "unsupported journal block size (4 KiB only)")
  else if raw.sMaxlen < 2 then .error (.error .euclean "journal is too small")
  else if hf : raw.sFirst = 0 ∨ raw.sMaxlen ≤ raw.sFirst then
    .error (.error .euclean "journal s_first out of range")
  else match TagLayout.fromFeatures (featureIncompat raw) with
    | .error e => .error e
    | .ok layout =>
      if layout.hasCsum = true ∧ raw.sFeatureCompat &&& compatChecksum ≠ 0 then
        .error (.error .einval "journal enables both the v1 and v2/3 checksums")
      else if layout.hasCsum = true ∧ raw.sChecksumType ≠ jbd2Crc32cChksum then
        .error (.error .einval "unsupported journal checksum type")
      else if layout.hasCsum = true ∧ raw.sChecksum ≠ raw.checksum.toNat then
        .error (.error .euclean "journal superblock checksum mismatch")
      else .ok {
        maxlen := raw.sMaxlen
        first := raw.sFirst
        sequence := Tid.ofNat raw.sSequence
        start := raw.recoveryStart
        errno := raw.sErrno
        blocksize := raw.sBlocksize
        tagLayout := layout
        csumSeed := if layout.hasCsum then some (JournalCsumSeed.derive raw.sUuid) else none
        maxlen_lt := Bytes.getBE_lt raw 16 4
        first_pos := by omega
        first_lt := by omega
        seed_iff := by cases layout.hasCsum <;> rfl }

end JournalSuperblock

end Ext4
