import Ext4.Alloc.State
import Ext4.Base.Record

namespace Ext4

open Bytes

inductive SuperField where
  | inodesCount | blocksCount | reservedBlocksCount | freeBlocksCount | freeInodesCount | firstDataBlock
  | logBlockSize | logFragSize | blocksPerGroup | fragsPerGroup | inodesPerGroup | mtime | wtime
  | mntCount | maxMntCount | magic | state | errors | minRevLevel | lastCheckTime | checkInterval
  | creatorOs | revLevel | defaultReservedUid | defaultReservedGid | firstIno | inodeSize
  | blockGroupIdx | featureCompat | featureIncompat | featureRoCompat | uuid | volumeName
  | lastMountedDir | algorithmUsageBitmap | preallocFileBlocks | preallocDirBlocks
  | reservedGdtBlocks | journalUuid | journalIno | journalDev | lastOrphan | hashSeed
  | defHashVersion | reservedCharPad | descSize | defaultMountOpts | firstMetaBg | mkfsTime
  | jnlBlocks | blocksCountHi | rBlocksCountHi | freeBlocksCountHi | extraIsizeHints | flags
  | reserved | checksum
  deriving DecidableEq

def SuperField.width : SuperField → Nat
  | .mntCount | .maxMntCount | .magic | .state | .errors | .minRevLevel => 2
  | .defaultReservedUid | .defaultReservedGid | .inodeSize | .blockGroupIdx => 2
  | .reservedGdtBlocks | .descSize => 2
  | .preallocFileBlocks | .preallocDirBlocks | .defHashVersion | .reservedCharPad => 1
  | .uuid | .volumeName | .journalUuid | .hashSeed => 16
  | .lastMountedDir => 64
  | .jnlBlocks => 68
  | .reserved => 664
  | _ => 4

def SuperField.all : List SuperField :=
  [.inodesCount, .blocksCount, .reservedBlocksCount, .freeBlocksCount, .freeInodesCount,
    .firstDataBlock, .logBlockSize, .logFragSize, .blocksPerGroup, .fragsPerGroup, .inodesPerGroup,
    .mtime, .wtime, .mntCount, .maxMntCount, .magic, .state, .errors, .minRevLevel, .lastCheckTime,
    .checkInterval, .creatorOs, .revLevel, .defaultReservedUid, .defaultReservedGid, .firstIno,
    .inodeSize, .blockGroupIdx, .featureCompat, .featureIncompat, .featureRoCompat, .uuid,
    .volumeName, .lastMountedDir, .algorithmUsageBitmap, .preallocFileBlocks, .preallocDirBlocks,
    .reservedGdtBlocks, .journalUuid, .journalIno, .journalDev, .lastOrphan, .hashSeed,
    .defHashVersion, .reservedCharPad, .descSize, .defaultMountOpts, .firstMetaBg, .mkfsTime,
    .jnlBlocks, .blocksCountHi, .rBlocksCountHi, .freeBlocksCountHi, .extraIsizeHints, .flags,
    .reserved, .checksum]

def rawSuper : Record 1024 SuperField where
  fields := SuperField.all
  width := SuperField.width
  mem_fields := by
    intro f
    cases f <;> decide
  nodup := by decide
  total := by decide

abbrev RawSuperBlock := Buffer 1024

namespace Feature

def dirIndex : Nat := 0x20

def compatKnown : Nat := 0x3F

def recover : Nat := 0x4

def extents : Nat := 0x40

def is64bit : Nat := 0x80

def incompatSupp : Nat := 0x2C6

def metadataCsum : Nat := 0x400

def roCompatSupp : Nat := 0x46B

def has (set flag : Nat) : Bool := set &&& flag = flag

end Feature

def require (p : Prop) [Decidable p] (errno : Errno) (msg : String) : Except Fault Unit :=
  if p then .ok () else .error (.error errno msg)

def IsPowerOfTwo (n : Nat) : Prop := n ≠ 0 ∧ n &&& (n - 1) = 0

instance (n : Nat) : Decidable (IsPowerOfTwo n) := inferInstanceAs (Decidable (_ ∧ _))

theorem IsPowerOfTwo.dvd_block {n : Nat} (h : IsPowerOfTwo n) (hle : n ≤ 4096) : n ∣ 4096 := by
  obtain ⟨k, rfl⟩ := (Nat.and_sub_one_eq_zero_iff_isPowerOfTwo h.1).mp h.2
  have hpow : 2 ^ k ≤ 2 ^ 12 := hle
  exact Nat.pow_dvd_pow 2 ((Nat.pow_le_pow_iff_right (by decide)).mp hpow)

structure InodeGeometry where
  firstIno : Nat
  inodeSize : Nat
  size_ge : 256 ≤ inodeSize
  size_dvd : inodeSize ∣ 4096

structure Volume where
  sb : SuperBlock
  geometry : InodeGeometry
  nrInodeTableBlocksPerGroup : Nat
  featureCompat : Nat
  featureIncompat : Nat
  uuid : List UInt8

namespace SuperBlock

def magicNum : Nat := 0xef53

def parseDescSize (raw : Nat) (has64bit : Bool) : Except Fault Nat :=
  if has64bit = false then
    if raw ≠ 0 ∧ raw ≠ 32 then .error (.error .einval "group descriptor size set without the 64bit feature")
    else .ok 32
  else if raw < 64 ∨ 64 < raw ∨ ¬IsPowerOfTwo raw then
    .error (.error .einval "invalid 64bit group descriptor size")
  else .ok raw

def spliceCountHi (lo hi : Nat) (has64bit : Bool) : Except Fault Nat :=
  if has64bit = false then
    if hi ≠ 0 then .error (.error .einval "64-bit count high half set without the 64bit feature")
    else .ok lo
  else .ok (lo ||| hi <<< 32)

def superblockChecksum (raw : RawSuperBlock) : UInt32 := crc32c 0xFFFFFFFF (slice raw 0 0x3FC)

def verifySuperblockChecksum (raw : RawSuperBlock) : Except Fault Unit := do
  require (byteAt raw 0x175 = 1) .euclean "superblock checksum type is not crc32c"
  require (rawSuper.num raw .checksum = (superblockChecksum raw).toNat) .euclean "bad superblock checksum"

variable (raw : RawSuperBlock)

def admitFormat : Except Fault Unit := do
  let num := rawSuper.num raw
  require (num .magic = magicNum) .einval "bad ext4 magic number"
  require (num .logBlockSize = 2) .einval "unsupported block size (4 KiB only)"
  require (num .logFragSize = num .logBlockSize) .einval "invalid fragment size"
  require (num .errors ∈ [1, 2, 3]) .einval "invalid errors behavior"
  require (num .errors = 1) .einval "unsupported errors behavior"
  require (num .creatorOs ≤ 4) .einval "invalid creator os"
  require (num .creatorOs = 0) .einval "unsupported creator os"
  require (num .revLevel ≤ 1) .einval "invalid revision level"

def tooNarrow : Fault := .error .einval "unsupported inode size below 256 bytes"

def admitInodes : Except Fault InodeGeometry :=
  let inodeSize := rawSuper.num raw .inodeSize
  if rawSuper.num raw .revLevel = 0 then .error tooNarrow
  else if h : 4096 < inodeSize ∨ ¬IsPowerOfTwo inodeSize then .error (.error .einval "invalid inode size")
  else if hge : 256 ≤ inodeSize then
    .ok ⟨rawSuper.num raw .firstIno, inodeSize, hge,
      (Decidable.not_not.mp (not_or.mp h).2).dvd_block (Nat.not_lt.mp (not_or.mp h).1)⟩
  else .error tooNarrow

theorem admitInodes_ok (hrev : rawSuper.num raw .revLevel ≠ 0) (hle : rawSuper.num raw .inodeSize ≤ 4096)
    (hpow : IsPowerOfTwo (rawSuper.num raw .inodeSize)) (hge : 256 ≤ rawSuper.num raw .inodeSize) :
    ∃ geometry, admitInodes raw = .ok geometry ∧ geometry.inodeSize = rawSuper.num raw .inodeSize := by
  unfold admitInodes
  dsimp only
  rw [if_neg hrev, dif_neg (not_or.mpr ⟨not_lt.mpr hle, not_not.mpr hpow⟩), dif_pos hge]
  exact ⟨_, rfl, rfl⟩

def admitFeatures : Except Fault Nat := do
  let incompat := rawSuper.num raw .featureIncompat
  require (incompat &&& Feature.incompatSupp = incompat) .einval "unsupported incompatible feature"
  require (Feature.has incompat Feature.extents = true) .einval "ext4 image without the extents feature"
  let descSize ← parseDescSize (rawSuper.num raw .descSize) (Feature.has incompat Feature.is64bit)
  let roCompat := rawSuper.num raw .featureRoCompat
  require (roCompat &&& Feature.roCompatSupp = roCompat) .erofs
    "unsupported read-only-compatible feature on a writable mount"
  if Feature.has roCompat Feature.metadataCsum then verifySuperblockChecksum raw else .ok ()
  .ok descSize

def admitGroups (inodeSize : Nat) : Except Fault Nat := do
  let inodesPerGroup := rawSuper.num raw .inodesPerGroup
  let blocksPerGroup := rawSuper.num raw .blocksPerGroup
  require (inodesPerGroup ≠ 0 ∧ blocksPerGroup ≠ 0) .einval "invalid group sizes"
  let inodesPerBlock := 4096 / inodeSize
  require (inodesPerBlock ≤ inodesPerGroup ∧ inodesPerGroup ≤ 32768) .einval "invalid inodes per group"
  require (blocksPerGroup ≤ 32768) .einval "blocks per group is too large"
  let tableBlocks := inodesPerGroup / inodesPerBlock
  require (tableBlocks + 3 < blocksPerGroup) .einval "blocks per group is too small"
  .ok tableBlocks

structure Counts where
  blocksCount : Nat
  freeBlocksCount : Nat
  nrBlockGroups : Nat
  deriving DecidableEq

def admitCounts (is64bit : Bool) : Except Fault Counts := do
  let num := rawSuper.num raw
  let blocksCount ← spliceCountHi (num .blocksCount) (num .blocksCountHi) is64bit
  let freeBlocksCount ← spliceCountHi (num .freeBlocksCount) (num .freeBlocksCountHi) is64bit
  require (num .firstDataBlock + 1 < blocksCount) .einval "invalid blocks count"
  let nrBlockGroups := (blocksCount - num .firstDataBlock - 1) / num .blocksPerGroup + 1
  require (nrBlockGroups < 2 ^ 32) .einval "block group count exceeds 32 bits"
  require ((nrBlockGroups - 1) * num .inodesPerGroup < num .inodesCount ∧
    num .inodesCount ≤ nrBlockGroups * num .inodesPerGroup) .einval "invalid inodes count"
  require (freeBlocksCount ≤ blocksCount) .einval "free blocks count exceeds blocks count"
  require (num .freeInodesCount ≤ num .inodesCount) .einval "free inodes count exceeds inodes count"
  .ok ⟨blocksCount, freeBlocksCount, nrBlockGroups⟩

def tryFrom : Except Fault Volume := do
  let num := rawSuper.num raw
  admitFormat raw
  let geometry ← admitInodes raw
  let descSize ← admitFeatures raw
  let tableBlocks ← admitGroups raw geometry.inodeSize
  let is64bit := Feature.has (num .featureIncompat) Feature.is64bit
  let counts ← admitCounts raw is64bit
  .ok
    { sb :=
        { inodesCount := num .inodesCount
          blocksCount := counts.blocksCount
          freeBlocksCount := counts.freeBlocksCount
          freeInodesCount := num .freeInodesCount
          firstDataBlock := num .firstDataBlock
          blocksPerGroup := num .blocksPerGroup
          inodesPerGroup := num .inodesPerGroup
          nrBlockGroups := counts.nrBlockGroups
          descSize := descSize
          firstIno := geometry.firstIno
          lastOrphan := if num .lastOrphan ≠ 0 then some (num .lastOrphan) else none
          is64bit := is64bit
          hasMetadataCsum := Feature.has (num .featureRoCompat) Feature.metadataCsum }
      geometry := geometry
      nrInodeTableBlocksPerGroup := tableBlocks
      featureCompat := num .featureCompat &&& Feature.compatKnown
      featureIncompat := num .featureIncompat
      uuid := rawSuper.bytes raw .uuid }

end SuperBlock

def Volume.metadataCsumSeed (v : Volume) : UInt32 := crc32c 0xFFFFFFFF v.uuid

end Ext4
