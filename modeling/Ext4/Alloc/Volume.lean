import Ext4.Alloc.Group

namespace Ext4

namespace Fs

def journalCapture (g : JournalGeometry) : FsOp Unit := do
  let fs ← Op.get
  capturePatch g SuperBlock.superblockBid (fs.sb.patchInto fs.sb.lastOrphan)

def setSb (fs : Fs) (sb : SuperBlock) : Fs := { fs with sb := sb }

def updateSb (g : JournalGeometry) (update : SuperBlock → Except Fault SuperBlock) : FsOp Unit := do
  let fs ← Op.get
  let sb ← Op.ofExcept (update fs.sb)
  Op.modify fun fs => fs.setSb sb
  journalCapture g

def pinnedEnospc : Fault :=
  .error .enospc "free blocks are pinned until the freeing transaction commits"

def searchGroups (g : JournalGeometry) (count sbFreeBlocks : Nat) (pinnedFrees : List (Nat × Nat)) :
    List Nat → Bool → FsOp IdRange
  | [], pinnedBlocked =>
    if pinnedBlocked then do
      requestCommitOfRunning
      Op.fail pinnedEnospc
    else Op.fail (.error .enospc "no free blocks available in any group")
  | idx :: rest, pinnedBlocked => do
    let res ← BlockGroup.allocBlocks g idx count sbFreeBlocks pinnedFrees
    match res with
    | .allocated range =>
      updateSb g fun sb => sb.decFreeBlocks range.len
      Op.ret range
    | .noFit pinnedInGroup =>
      searchGroups g count sbFreeBlocks pinnedFrees rest (pinnedBlocked || pinnedInGroup)

def groupRing (first nrBlockGroups : Nat) : List Nat :=
  (List.range nrBlockGroups).map fun offset => (first + offset) % nrBlockGroups

def goalGroup (sb : SuperBlock) (goal : Nat) : Nat :=
  min (if sb.firstDataBlock < goal then (goal - sb.firstDataBlock) / sb.blocksPerGroup else 0)
    (sb.nrBlockGroups - 1)

def allocBlocks (g : JournalGeometry) (count goal : Nat) : FsOp IdRange := do
  if count = 0 then Op.fail (.error .einval "zero block allocation requested")
  else
    let fs ← Op.get
    if fs.sb.freeBlocksCount = 0 then Op.fail (.error .enospc "no free blocks on device")
    else
      searchGroups g count fs.sb.freeBlocksCount fs.pinnedFreesSnapshot
        (groupRing (goalGroup fs.sb goal) fs.sb.nrBlockGroups) false

structure BlockFreeAuth where
  start : Nat
  count : Nat
  duty : Bool

def forget (start count : Nat) : BlockFreeAuth := ⟨start, count, true⟩

def BlockFreeAuth.withoutRevokeDuty (start count : Nat) : BlockFreeAuth := ⟨start, count, false⟩

def dischargeDuty (duty : Bool) (start count : Nat) : FsOp Unit :=
  if duty then discharge start count else Op.ret ()

def freeRun (g : JournalGeometry) (idx startBit current count : Nat) : FsOp Unit := do
  let freed ← BlockGroup.freeBlocks g idx startBit count
  pinFreedRun current count
  if 0 < freed then updateSb g fun sb => sb.incFreeBlocks freed else Op.ret ()

def freeRuns (g : JournalGeometry) (duty : Bool) : Nat → Nat → Nat → FsOp Unit
  | 0, _, _ => Op.ret ()
  | fuel + 1, current, remaining =>
    if remaining = 0 then Op.ret ()
    else do
      let fs ← Op.get
      let group := fs.groups (fs.groupOf current)
      let startBit := current - group.firstBlock
      let count := min remaining (group.groupSize - startBit)
      dischargeDuty duty current count
      let res ← Op.attempt (freeRun g (fs.groupOf current) startBit current count)
      match res with
      | .error e => do
        abortJournalOnFsError
        Op.fail e
      | .ok _ => freeRuns g duty fuel (current + count) (remaining - count)

def freeBlocks (g : JournalGeometry) (auth : BlockFreeAuth) : FsOp Unit :=
  freeRuns g auth.duty auth.count auth.start auth.count

def rootIno : Nat := 2

def searchInodeGroups (g : JournalGeometry) (type : InodeType) : List Nat → FsOp Nat
  | [] => Op.fail (.error .enospc "no free inodes available in any group")
  | idx :: rest => do
    let res ← BlockGroup.allocIno g idx type
    match res with
    | none => searchInodeGroups g type rest
    | some localIdx =>
      let fs ← Op.get
      let ino := idx * fs.sb.inodesPerGroup + localIdx + 1
      if ino < 2 ^ 32 ∧ fs.sb.firstIno ≤ ino ∧ ino ≤ fs.sb.inodesCount then
        updateSb g SuperBlock.decFreeInodes
        Op.ret ino
      else
        let _ ← Op.attempt (BlockGroup.freeInode g idx localIdx type)
        Op.fail (.error .eio "allocated inode number out of valid range")

def allocIno (g : JournalGeometry) (parentIno : Nat) (type : InodeType) : FsOp Nat := do
  if type = .unknown then Op.fail (.error .einval "cannot allocate inode with unknown type")
  else
    let fs ← Op.get
    if parentIno < rootIno ∨ fs.sb.inodesCount < parentIno then
      Op.fail (.error .eio "parent inode number out of range")
    else if fs.sb.freeInodesCount = 0 then Op.fail (.error .enospc "no free inodes on device")
    else
      searchInodeGroups g type
        (groupRing ((parentIno - 1) / fs.sb.inodesPerGroup) fs.sb.nrBlockGroups)

def findGroup (sb : SuperBlock) (ino : Nat) : Except Fault Nat :=
  if ino = 0 then .error (.error .enoent "invalid inode number 0")
  else if sb.inodesCount < ino then
    .error (.error .enoent "inode number beyond s_inodes_count")
  else if sb.nrBlockGroups ≤ (ino - 1) / sb.inodesPerGroup then
    .error (.error .enoent "inode block group out of range")
  else .ok ((ino - 1) / sb.inodesPerGroup)

def isInodeAllocated (fs : Fs) (ino : Nat) : Bool :=
  match findGroup fs.sb ino with
  | .error _ => false
  | .ok idx => (fs.groups idx).metadata.inodeBitmap.isAllocated ((ino - 1) % fs.sb.inodesPerGroup)

def freeInode (g : JournalGeometry) (ino : Nat) (type : InodeType) : FsOp Unit := do
  let fs ← Op.get
  let idx ← Op.ofExcept (findGroup fs.sb ino)
  let wasAllocated ← BlockGroup.freeInode g idx ((ino - 1) % fs.sb.inodesPerGroup) type
  if wasAllocated then updateSb g SuperBlock.incFreeInodes else Op.ret ()

end Fs

end Ext4
