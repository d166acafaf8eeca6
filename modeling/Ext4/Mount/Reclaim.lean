import Ext4.Extent.Aside
import Ext4.Mount.Orphan

namespace Ext4

namespace Fs

def mapCredits (fs : Fs) (pextents depth : Nat) : Nat :=
  let idx := if pextents ≤ 1 then 2 * (depth + 1) else 3 * (depth + 1)
  let touched := idx + pextents
  idx + min touched fs.sb.nrBlockGroups + min touched fs.nrGdtBlocks

def singleBlockMapCredits (fs : Fs) (depth : Nat) : Nat := fs.mapCredits 1 depth

def truncateCredits (fs : Fs) (depth : Nat) : Nat :=
  fs.singleBlockMapCredits depth + superblockCredits + inodeDescCredits

def reclaimCredits (fs : Fs) (depth : Nat) : Nat :=
  let freeInode := 1 + inodeDescCredits + 1
  fs.singleBlockMapCredits depth + freeInode + inodeDescCredits + superblockCredits

def fsyncCredits : Nat := 4

structure Turns (fs fs' : Fs) : Prop where
  sb : fs'.sb = fs.sb
  groups : fs'.groups = fs.groups
  image : ∀ b, fs'.image b = fs.image b

def Open (fs : Fs) : Prop := fs.Ready ∧ fs.handle.isSome = true

end Fs

-- what the journal does for an operation: admission may wait for commits and checkpoints
structure Handles where
  Rested : Fs → Prop
  Held : Fs → Prop
  beginOp : Nat → FsOp Unit
  restart : Nat → FsOp Unit
  close : FsOp Unit
  rested_closed : ∀ fs, Rested fs → fs.handle = none
  open_held : ∀ fs, fs.Open → Held fs
  begin_ends : ∀ fs n, Rested fs → (beginOp n).Ends fs (fun _ fs' => fs.Turns fs' ∧ fs'.Open)
    fun _ fs' => fs.Turns fs' ∧ Rested fs'
  restart_ends : ∀ fs n, fs.Open → (restart n).Ends fs (fun _ fs' => fs.Turns fs' ∧ fs'.Open)
    fun _ fs' => fs.Turns fs' ∧ Held fs'
  close_ends : ∀ fs, Held fs → close.Ends fs (fun _ fs' => fs.Turns fs' ∧ Rested fs') fun _ _ => False

namespace Mount

variable {α : Type} (H : Handles) (cfg : Config)

def during (credits : Nat) (op : MountOp α) : MountOp α := do
  onFs (H.beginOp credits)
  let res ← Op.attempt op
  onFs H.close
  Op.ofExcept res

def rootDepth (inode : Inode) : Nat := (inode.tree.map ExtentTree.depth).getD 0

def chunkLimit (m : Mount) : Option Nat := m.fs.journal.map fun _ => Journal.maxCredits cfg.geometry

def truncateUnfinished : Fault := .error .eio ""

-- a chunk a transaction; the source loops until the last chunk, here for at most `rounds`
def truncateChunks (ino newSize : Nat) : Nat → MountOp Unit
  | 0 => Op.fail truncateUnfinished
  | rounds + 1 => do
    let inode ← readInode ino
    let m ← Op.get
    let chunk ← onTree ino (truncateChunk cfg.geometry inode.csumSeed inode.dataForgetPolicy newSize
      (chunkLimit cfg m))
    if chunk.reached ≤ blocksOf newSize then Op.ret ()
    else do
      writeBackInodeDesc cfg ino
      onFs (H.restart chunk.nextBound)
      truncateChunks ino newSize rounds

def needTree (ino : Nat) : MountOp Unit := do
  let inode ← readInode ino
  if inode.tree.isNone then Op.fail noBlockManager else Op.ret ()

def finishTruncate (ino newSize rounds : Nat) : MountOp Unit := do
  truncateChunks H cfg ino newSize rounds
  orphanDel cfg ino
  writeBackInodeDesc cfg ino

def shrinkRestartable (ino newSize rounds : Nat) : MountOp Unit := do
  let inode ← readInode ino
  resizePageCache ino newSize inode.desc.size
  updateDesc ino (InodeDesc.setSize newSize)
  if 2 ^ 32 ≤ blocksOf newSize then Op.fail blockIndexTooBig
  else do
    needTree ino
    let _ ← orphanAdd cfg ino
    writeBackInodeDesc cfg ino
    registerOrderedData ino newSize
    finishTruncate H cfg ino newSize rounds

def retruncateTo (ino target rounds : Nat) : MountOp Unit := do
  updateDesc ino fun desc => { desc with dtime := .time .zero }
  if 2 ^ 32 ≤ blocksOf target then Op.fail blockIndexTooBig
  else do
    needTree ino
    let inode ← readInode ino
    let m ← Op.get
    during H (m.fs.truncateCredits (rootDepth inode)) (finishTruncate H cfg ino target rounds)

def freeUnlinked (ino rounds : Nat) : MountOp Unit := do
  let inode ← readInode ino
  Op.when (inode.tree.any fun tree => 0 < tree.sectorCount) (truncateChunks H cfg ino 0 rounds)
  orphanDel cfg ino
  writeBackInodeDesc cfg ino
  onFs (Fs.freeInode cfg.geometry ino inode.desc.type)

def reclaimUnlinked (ino rounds : Nat) (now : Duration) : MountOp Unit := do
  orphanAddIfAbsent cfg ino
  let inode ← readInode ino
  Op.when inode.tree.isSome (resizePageCache ino 0 inode.desc.size)
  updateDesc ino fun desc => { desc with dtime := .time now, size := 0 }
  freeUnlinked H cfg ino rounds

def tryReclaimDeletedInode (ino rounds : Nat) (now : Duration) : MountOp Bool := do
  let inode ← readInode ino
  let m ← Op.get
  if inode.desc.linkCount ≠ 0 then Op.ret false
  else if m.fs.isInodeAllocated ino = false then Op.ret false
  else do
    during H (m.fs.reclaimCredits (rootDepth inode)) (reclaimUnlinked H cfg ino rounds now)
    Op.ret true

end Mount

end Ext4
