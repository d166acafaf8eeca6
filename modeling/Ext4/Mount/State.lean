import Ext4.Dir.Htree
import Ext4.Extent.Manager
import Ext4.Inode.Slot

namespace Ext4

open Bytes

structure Inode where
  desc : InodeDesc
  dirty : Bool
  tree : Option ExtentTree
  pages : Nat → Option Block
  csumSeed : Option UInt32

namespace Inode

def isDirty (inode : Inode) : Bool := inode.dirty || inode.tree.any ExtentTree.dirty

def clearDirty (inode : Inode) : Inode :=
  { inode with
    dirty := false
    tree := inode.tree.map fun tree => { tree with dirty := false } }

def directory (inode : Inode) : Directory := ⟨inode.pages, inode.desc.size, inode.csumSeed⟩

def isDir (inode : Inode) : Bool := inode.desc.type = .dir

def hasIndex (inode : Inode) : Bool := inode.desc.flags &&& FileFlags.index ≠ 0

def dataForgetPolicy (inode : Inode) : DataForgetPolicy :=
  if inode.desc.type = .file then .plainData else .forget

def rootSnapshot (inode : Inode) : Buffer 60 := (inode.tree.map ExtentTree.root).getD inode.desc.block

def sectorCount (inode : Inode) : Nat :=
  (inode.tree.map ExtentTree.sectorCount).getD inode.desc.sectorCount

def editDesc (f : InodeDesc → InodeDesc) (inode : Inode) : Inode :=
  { inode with desc := f inode.desc, dirty := true }

end Inode

def maxLinkCount : Nat := 32000

namespace InodeDesc

def incLinkCount (delta : Nat) (desc : InodeDesc) : InodeDesc :=
  { desc with linkCount := (desc.linkCount + delta) % 2 ^ 16 }

def decLinkCount (delta : Nat) (desc : InodeDesc) : InodeDesc :=
  { desc with linkCount := desc.linkCount - delta }

def setMtimeCtime (now : Duration) (desc : InodeDesc) : InodeDesc :=
  { desc with mtime := now, ctime := now }

def setCtime (now : Duration) (desc : InodeDesc) : InodeDesc := { desc with ctime := now }

def setSize (n : Nat) (desc : InodeDesc) : InodeDesc := { desc with size := n }

inductive Seed where
  | extentRoot
  | device (block : Buffer 60)
  | nothing

def new (type : InodeType) (perm uid gid linkCount generation : Nat) (now : Duration) (seed : Seed) :
    InodeDesc where
  type := type
  perm := perm
  uid := uid
  gid := gid
  size := 0
  atime := now
  ctime := now
  mtime := now
  crtime := now
  dtime := .time .zero
  linkCount := linkCount
  sectorCount := 0
  flags := match seed with
    | .extentRoot => FileFlags.extents
    | .device _ | .nothing => 0
  fileAcl := 0
  generation := generation
  block := match seed with
    | .extentRoot => ExtentTree.empty.root
    | .device block => block
    | .nothing => zeros 60

end InodeDesc

def maxFastSymlinkLen : Nat := 60

structure Config where
  geometry : JournalGeometry
  table : InodeTable
  dx : Option DxCtx

structure Mount where
  fs : Fs
  chain : OrphanChain
  inodes : Nat → Option Inode
  nextGeneration : Nat

abbrev MountOp (α : Type) : Type := Op Mount Fault α

def staleInode : Fault := .error .estale ""

def noBlockManager : Fault := .error .einval "inode has no block manager"

def blockIndexTooBig : Fault := .error .efbig "block index exceeds 32 bits"

namespace Mount

variable {α : Type} {ino ino' : Nat} {m : Mount} {inode : Inode}

def onFs (m : FsOp α) : MountOp α := Op.zoom Mount.fs (fun fs s => { s with fs := fs }) m

def setInode (m : Mount) (ino : Nat) (inode : Inode) : Mount :=
  { m with inodes := Function.update m.inodes ino (some inode) }

def mapInode (m : Mount) (ino : Nat) (f : Inode → Inode) : Mount :=
  { m with inodes := Function.update m.inodes ino ((m.inodes ino).map f) }

@[simp] theorem setInode_self (m : Mount) (ino : Nat) (inode : Inode) :
    (m.setInode ino inode).inodes ino = some inode := by
  simp [setInode]

theorem setInode_of_ne (m : Mount) (inode : Inode) (h : ino' ≠ ino) :
    (m.setInode ino inode).inodes ino' = m.inodes ino' := by
  simp [setInode, h]

@[simp] theorem mapInode_self (m : Mount) (ino : Nat) (f : Inode → Inode) :
    (m.mapInode ino f).inodes ino = (m.inodes ino).map f := by
  simp [mapInode]

theorem mapInode_some {f : Inode → Inode}
    (h : m.inodes ino = some inode) : (m.mapInode ino f).inodes ino = some (f inode) := by
  rw [mapInode_self, h]
  rfl

theorem mapInode_of_ne (m : Mount) (f : Inode → Inode) (h : ino' ≠ ino) :
    (m.mapInode ino f).inodes ino' = m.inodes ino' := by
  simp [mapInode, h]

def readInode (ino : Nat) : MountOp Inode := do
  let m ← Op.get
  match m.inodes ino with
  | none => Op.fail staleInode
  | some inode => Op.ret inode

def updateInode (ino : Nat) (f : Inode → Inode) : MountOp Unit := Op.modify fun m => m.mapInode ino f

def updateDesc (ino : Nat) (f : InodeDesc → InodeDesc) : MountOp Unit := updateInode ino (Inode.editDesc f)

def onTree (ino : Nat) (op : TreeOp α) : MountOp α := fun m =>
  match m.inodes ino with
  | none => (.error staleInode, m)
  | some inode =>
    match inode.tree with
    | none => (.error noBlockManager, m)
    | some tree =>
      let (r, s) := op ⟨tree, m.fs⟩
      (r, { m with fs := s.fs }.setInode ino { inode with tree := some s.tree })

theorem onTree_eq {tree : ExtentTree} {op : TreeOp α} {r : Except Fault α} {s : TreeFs}
    (hi : m.inodes ino = some inode) (ht : inode.tree = some tree) (hrun : op ⟨tree, m.fs⟩ = (r, s)) :
    onTree ino op m = (r, { m with fs := s.fs }.setInode ino { inode with tree := some s.tree }) := by
  unfold onTree
  rw [hi]
  dsimp only
  rw [ht]
  dsimp only
  rw [hrun]

theorem onTree_cases (m : Mount) (ino : Nat) (op : TreeOp α) :
    (∃ e, onTree ino op m = (.error e, m)) ∨
    ∃ inode tree, m.inodes ino = some inode ∧ inode.tree = some tree ∧
      onTree ino op m = ((op ⟨tree, m.fs⟩).1, { m with fs := (op ⟨tree, m.fs⟩).2.fs }.setInode ino
        { inode with tree := some (op ⟨tree, m.fs⟩).2.tree }) := by
  cases hino : m.inodes ino with
  | none => exact .inl ⟨staleInode, by simp only [onTree, hino]⟩
  | some inode =>
    cases htree : inode.tree with
    | none => exact .inl ⟨noBlockManager, by simp only [onTree, hino, htree]⟩
    | some tree => exact .inr ⟨inode, tree, rfl, htree, by simp only [onTree, hino, htree]⟩

def journaled : MountOp Bool := do
  let m ← Op.get
  Op.ret m.fs.handle.isSome

variable (cfg : Config)

def writeBackInto (slotIno ino : Nat) : MountOp Unit := do
  let inode ← readInode ino
  if inode.isDirty = false then Op.ret ()
  else
    updateDesc ino fun desc => { desc with sectorCount := inode.sectorCount }
    let inode ← readInode ino
    let m ← Op.get
    onFs (Fs.writeBackInodeDesc cfg.table cfg.geometry m.chain slotIno inode.desc inode.rootSnapshot)
    updateInode ino Inode.clearDirty

def writeBackInodeDesc (ino : Nat) : MountOp Unit := writeBackInto cfg ino ino

def mapBlocks (ino iblock : Nat) : MountOp (Option Nat) := do
  let inode ← readInode ino
  match inode.tree with
  | none => Op.fail noBlockManager
  | some tree =>
    let found ← onFs (tree.lookup iblock)
    Op.ret (found.map fun e => e.start + (iblock - e.block))

def resizePageCache (ino newSize oldSize : Nat) : MountOp Unit := do
  let inode ← readInode ino
  match inode.tree with
  | none => Op.fail (.error .einval "inode has no data page cache")
  | some _ =>
    let boundary := min newSize oldSize
    if boundary % 4096 = 0 then Op.ret ()
    else if 2 ^ 32 ≤ boundary / 4096 then
      Op.fail (.error .efbig "resize boundary beyond the 32-bit logical block space")
    else
      let _ ← mapBlocks ino (boundary / 4096)
      Op.ret ()

def ensureSizeWithinLimit (ino newSize : Nat) : MountOp Unit := do
  let inode ← readInode ino
  let max := if inode.desc.type = .file then (2 ^ 32 - 1) * 4096 else 2 ^ 32 - 1
  if max < newSize then Op.fail (.error .efbig "inode size exceeds ext4 maximum") else Op.ret ()

def prepareWrite (ino offset stop : Nat) : MountOp Unit := do
  let inode ← readInode ino
  let oldSize := inode.desc.size
  let startBlock := offset / 4096
  let endBlock := (stop + 4095) / 4096
  if 2 ^ 32 ≤ startBlock ∨ 2 ^ 32 ≤ endBlock then Op.fail blockIndexTooBig
  else
    Op.when (oldSize < stop) do
      ensureSizeWithinLimit ino stop
      resizePageCache ino stop oldSize
    onTree ino (ensureAllocated cfg.geometry inode.csumSeed startBlock endBlock)

def truncateToByteLen (ino newSize : Nat) : MountOp Unit := do
  let inode ← readInode ino
  onTree ino (Ext4.truncateToByteLen cfg.geometry inode.csumSeed inode.dataForgetPolicy newSize)

def rollbackWrite (ino oldSize stop : Nat) : MountOp Unit :=
  if stop ≤ oldSize then Op.ret ()
  else do
    let _ ← Op.attempt (resizePageCache ino oldSize stop)
    let _ ← Op.attempt (truncateToByteLen cfg ino oldSize)
    Op.ret ()

def registerOrderedData (ino len : Nat) : MountOp Unit :=
  onFs (Fs.underHandle () fun h st => keepOnError h st (st.registerOrderedData h.tid ino len))

def reserveCaptureBurst (extra : Nat) : MountOp Unit :=
  onFs (Fs.underHandle () fun h st => st.extendReservationForBurst cfg.geometry h extra)

def treeOf (desc : InodeDesc) : Except Fault (Option ExtentTree) :=
  let backed : Except Fault (Option ExtentTree) :=
    match ExtentHeader.tryFrom (.read desc.block) with
    | .error e => .error e
    | .ok _ => .ok (some ⟨desc.block, desc.sectorCount, false⟩)
  match desc.type with
  | .file | .dir => backed
  | .symLink =>
    if desc.flags &&& FileFlags.extents = 0 ∧ desc.size ≤ maxFastSymlinkLen then .ok none else backed
  | _ => .ok none

def newInode (ino : Nat) (desc : InodeDesc) : Except Fault Inode :=
  match treeOf desc with
  | .error e => .error e
  | .ok tree => .ok
    { desc := desc
      dirty := false
      tree := tree
      pages := fun _ => none
      csumSeed := cfg.table.csumSeed.map fun seed => deriveInode seed ino desc.generation }

structure Creator where
  perm : Nat
  uid : Nat
  gid : Nat
  now : Duration

def createInode (parentIno : Nat) (type : InodeType) (by_ : Creator) (seed : InodeDesc.Seed) :
    MountOp Nat := do
  let ino ← onFs (Fs.allocIno cfg.geometry parentIno type)
  let m ← Op.get
  let linkCount := if type.isDirectory then 2 else 1
  let desc := InodeDesc.new type by_.perm by_.uid by_.gid linkCount (m.nextGeneration % 2 ^ 32) by_.now seed
  Op.modify fun m => { m with nextGeneration := m.nextGeneration + 1 }
  let undo (e : Fault) : MountOp Nat := do
    let _ ← Op.attempt (onFs (Fs.freeInode cfg.geometry ino type))
    Op.fail e
  let res ← Op.attempt (onFs (Fs.writeNewInodeDesc cfg.table cfg.geometry ino desc))
  match res with
  | .error e => undo e
  | .ok _ =>
    match newInode cfg ino desc with
    | .error e => undo e
    | .ok inode =>
      Op.modify fun m => m.setInode ino inode
      Op.ret ino

end Mount

end Ext4
