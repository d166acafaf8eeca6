import Ext4.Alloc.Bitmap
import Ext4.Base.Op
import Ext4.Checksum
import Ext4.Journal.Handle
import Mathlib.Data.Finset.Union

namespace Ext4

open Bytes

def bgInodeUninit : UInt16 := 0x0001

def bgBlockUninit : UInt16 := 0x0002

structure BlockGroupDesc where
  blockBitmapBid : Nat
  inodeBitmapBid : Nat
  inodeTableBid : Nat
  freeBlocksCount : Nat
  freeInodesCount : Nat
  usedDirsCount : Nat
  flags : UInt16
  itableUnused : Nat

namespace BlockGroupDesc

def isBlockUninit (desc : BlockGroupDesc) : Bool := desc.flags &&& bgBlockUninit ≠ 0

def isInodeUninit (desc : BlockGroupDesc) : Bool := desc.flags &&& bgInodeUninit ≠ 0

def clearBlockUninit (desc : BlockGroupDesc) : BlockGroupDesc :=
  if desc.isBlockUninit then { desc with flags := desc.flags &&& ~~~bgBlockUninit } else desc

theorem clearBlockUninit_eq (desc : BlockGroupDesc) :
    desc.clearBlockUninit = { desc with flags := desc.clearBlockUninit.flags } := by
  unfold clearBlockUninit
  split_ifs <;> rfl

def patchInto (desc : BlockGroupDesc) (descOffset : Nat) (buf : Block) : Block :=
  let off := descOffset % 4096
  let buf := putLE buf (off + 12) 2 desc.freeBlocksCount
  let buf := putLE buf (off + 14) 2 desc.freeInodesCount
  let buf := putLE buf (off + 16) 2 desc.usedDirsCount
  let buf := putLE buf (off + 18) 2 desc.flags.toNat
  putLE buf (off + 28) 2 desc.itableUnused

def bitmapChecksum (seed : UInt32) (bitmap : Block) (len : Nat) : UInt32 :=
  crc32c seed (slice bitmap 0 len)

def groupDescChecksum (seed : UInt32) (group : Nat) (buf : Block) (off : Nat) (wide : Bool) : Nat :=
  let crc := crc32c seed (le 4 group)
  let crc := crc32c crc (slice buf off 30)
  let crc := crc32c crc [0, 0]
  let crc := if wide then crc32c crc (slice buf (off + 32) 32) else crc
  crc.toNat % 2 ^ 16

def stampChecksums (seed : UInt32) (group : Nat) (off : Nat) (wide : Bool)
    (blockBitmapCsum inodeBitmapCsum : UInt32) (buf : Block) : Block :=
  let buf := putLE buf (off + 24) 2 blockBitmapCsum.toNat
  let buf := putLE buf (off + 26) 2 inodeBitmapCsum.toNat
  let buf := if wide then
      putLE (putLE buf (off + 56) 2 (blockBitmapCsum.toNat / 2 ^ 16)) (off + 58) 2
        (inodeBitmapCsum.toNat / 2 ^ 16)
    else buf
  putLE buf (off + 30) 2 (groupDescChecksum seed group buf off wide)

end BlockGroupDesc

structure BlockGroupMetadata where
  desc : BlockGroupDesc
  blockBitmap : IdBitmap
  inodeBitmap : IdBitmap

structure BlockGroup where
  groupIdx : Nat
  firstBlock : Nat
  lastBlock : Nat
  nrInodeTableBlocksPerGroup : Nat
  nrInodesPerGroup : Nat
  nrBlocksPerGroup : Nat
  descSize : Nat
  descOffset : Nat
  csumSeed : Option UInt32
  metadata : BlockGroupMetadata

structure GroupLayout where
  firstBlock : Nat
  lastBlock : Nat
  nrInodesPerGroup : Nat
  descSize : Nat
  descOffset : Nat
  blockBitmapBid : Nat
  inodeBitmapBid : Nat
  inodeTableBid : Nat
  nrInodeTableBlocksPerGroup : Nat
  blockBits : Nat
  inodeBits : Nat

def GroupLayout.metaBids (layout : GroupLayout) : Finset Nat :=
  {layout.blockBitmapBid, layout.inodeBitmapBid, layout.descOffset / 4096}

namespace BlockGroup

def layout (group : BlockGroup) : GroupLayout where
  firstBlock := group.firstBlock
  lastBlock := group.lastBlock
  nrInodesPerGroup := group.nrInodesPerGroup
  descSize := group.descSize
  descOffset := group.descOffset
  blockBitmapBid := group.metadata.desc.blockBitmapBid
  inodeBitmapBid := group.metadata.desc.inodeBitmapBid
  inodeTableBid := group.metadata.desc.inodeTableBid
  nrInodeTableBlocksPerGroup := group.nrInodeTableBlocksPerGroup
  blockBits := group.metadata.blockBitmap.len
  inodeBits := group.metadata.inodeBitmap.len

def metaBids (group : BlockGroup) : Finset Nat := group.layout.metaBids

def descBlockBid (group : BlockGroup) : Nat := group.descOffset / 4096

def stampDescCsumInBlock (group : BlockGroup) (metadata : BlockGroupMetadata) (buf : Block) : Block :=
  match group.csumSeed with
  | none => buf
  | some seed =>
    BlockGroupDesc.stampChecksums seed group.groupIdx (group.descOffset % 4096)
      (64 ≤ group.descSize)
      (BlockGroupDesc.bitmapChecksum seed metadata.blockBitmap.asBytes (group.nrBlocksPerGroup / 8))
      (BlockGroupDesc.bitmapChecksum seed metadata.inodeBitmap.asBytes ((group.nrInodesPerGroup + 7) / 8)) buf

def patchDesc (group : BlockGroup) (metadata : BlockGroupMetadata) (buf : Block) : Block :=
  group.stampDescCsumInBlock metadata (metadata.desc.patchInto group.descOffset buf)

def rangesOverlap (a b : IdRange) : Bool :=
  a.start < a.stop && b.start < b.stop && a.start < b.stop && b.start < a.stop

def overlapsSystemZoneWith (group : BlockGroup) (desc : BlockGroupDesc) (r : IdRange) : Bool :=
  rangesOverlap r ⟨desc.blockBitmapBid, desc.blockBitmapBid + 1⟩ ||
    rangesOverlap r ⟨desc.inodeBitmapBid, desc.inodeBitmapBid + 1⟩ ||
    rangesOverlap r ⟨desc.inodeTableBid, desc.inodeTableBid + group.nrInodeTableBlocksPerGroup⟩

def groupSize (group : BlockGroup) : Nat := group.lastBlock - group.firstBlock + 1

def highWater (bytes : Block) (nrInodesPerGroup : Nat) : Nat :=
  let nbytes := (nrInodesPerGroup + 7) / 8
  match (List.range nbytes).reverse.find? fun i => byteAt bytes i ≠ 0 with
  | none => 0
  | some i => min (i * 8 + (Nat.log2 (byteAt bytes i).toNat + 1)) nrInodesPerGroup

def itableUnusedFromBitmap (bitmap : IdBitmap) (nrInodesPerGroup : Nat) : Nat :=
  nrInodesPerGroup - highWater bitmap.asBytes nrInodesPerGroup

end BlockGroup

structure SuperBlock where
  inodesCount : Nat
  blocksCount : Nat
  freeBlocksCount : Nat
  freeInodesCount : Nat
  firstDataBlock : Nat
  blocksPerGroup : Nat
  inodesPerGroup : Nat
  nrBlockGroups : Nat
  descSize : Nat
  firstIno : Nat
  lastOrphan : Option Nat
  is64bit : Bool
  hasMetadataCsum : Bool

namespace SuperBlock

def superblockBid : Nat := 0

def superBlockOffset : Nat := 1024

def decFreeBlocks (sb : SuperBlock) (n : Nat) : Except Fault SuperBlock :=
  if n ≤ sb.freeBlocksCount then .ok { sb with freeBlocksCount := sb.freeBlocksCount - n }
  else .error (.error .eio "free block counter underflow")

def incFreeBlocks (sb : SuperBlock) (n : Nat) : Except Fault SuperBlock :=
  if 2 ^ 64 ≤ sb.freeBlocksCount + n then .error (.error .eio "free block counter overflow")
  else if sb.blocksCount < sb.freeBlocksCount + n then
    .error (.error .eio "free block counter exceeds total blocks")
  else .ok { sb with freeBlocksCount := sb.freeBlocksCount + n }

def decFreeInodes (sb : SuperBlock) : Except Fault SuperBlock :=
  if 1 ≤ sb.freeInodesCount then .ok { sb with freeInodesCount := sb.freeInodesCount - 1 }
  else .error (.error .eio "free inode counter underflow")

def incFreeInodes (sb : SuperBlock) : Except Fault SuperBlock :=
  if 2 ^ 32 ≤ sb.freeInodesCount + 1 then .error (.error .eio "free inode counter overflow")
  else if sb.inodesCount < sb.freeInodesCount + 1 then
    .error (.error .eio "free inode counter exceeds total inodes")
  else .ok { sb with freeInodesCount := sb.freeInodesCount + 1 }

def patchInto (sb : SuperBlock) (lastOrphan : Option Nat) (buf : Block) : Block :=
  let off := superBlockOffset
  let buf := putLE buf (off + 0x0C) 4 sb.freeBlocksCount
  let buf := if sb.is64bit then putLE buf (off + 0x158) 4 (sb.freeBlocksCount / 2 ^ 32) else buf
  let buf := putLE buf (off + 0x10) 4 sb.freeInodesCount
  let buf := putLE buf (off + 0xE8) 4 (lastOrphan.getD 0)
  if sb.hasMetadataCsum then
    putLE buf (off + 0x3FC) 4 (crc32c 0xFFFFFFFF (slice buf off 0x3FC)).toNat
  else buf

def frame (sb : SuperBlock) : SuperBlock := { sb with freeBlocksCount := 0, freeInodesCount := 0 }

end SuperBlock

structure Layout where
  sb : SuperBlock
  group : Nat → GroupLayout

namespace Layout

def Contains (layout : Layout) (b : Nat) : Prop :=
  layout.sb.firstDataBlock ≤ b ∧ b < layout.sb.blocksCount

def groupOf (layout : Layout) (b : Nat) : Nat :=
  (b - layout.sb.firstDataBlock) / layout.sb.blocksPerGroup

def systemBids (layout : Layout) : Finset Nat :=
  insert SuperBlock.superblockBid
    ((Finset.range layout.sb.nrBlockGroups).biUnion fun idx => (layout.group idx).metaBids)

end Layout

-- `handle` is the handle of the operation under way; `device b = none` is a block that fails I/O
structure Fs where
  sb : SuperBlock
  groups : Nat → BlockGroup
  journal : Option Journal
  handle : Option Handle
  device : Nat → Option Block

abbrev FsOp (α : Type) : Type := Op Fs Fault α

namespace Fs

def image (fs : Fs) (b : Nat) : Option Block :=
  match fs.journal with
  | none => fs.device b
  | some j => (j.state.newest b).or (fs.device b)

def aborted (fs : Fs) : Bool := fs.journal.any Journal.aborted

def setMetadata (fs : Fs) (idx : Nat) (metadata : BlockGroupMetadata) : Fs :=
  { fs with groups := Function.update fs.groups idx { fs.groups idx with metadata := metadata } }

def layout (fs : Fs) : Layout := ⟨fs.sb.frame, fun idx => (fs.groups idx).layout⟩

def groupOf (fs : Fs) (b : Nat) : Nat := (b - fs.sb.firstDataBlock) / fs.sb.blocksPerGroup

def blockUsed (fs : Fs) (b : Nat) : Bool :=
  (fs.groups (fs.groupOf b)).metadata.blockBitmap.isAllocated
    (b - (fs.groups (fs.groupOf b)).firstBlock)

end Fs

end Ext4
