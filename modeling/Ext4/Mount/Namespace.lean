import Ext4.Mount.Orphan

namespace Ext4

namespace Mount

variable (cfg : Config)

def editDirectory (ino : Nat) (f : Directory → Except Fault Directory) : MountOp Unit := do
  let inode ← readInode ino
  let dir ← Op.ofExcept (f inode.directory)
  updateInode ino fun inode => { inode with pages := dir.pages }

def journalDirBlock (ino dirOffset : Nat) : MountOp Unit := do
  let logical := dirOffset / 4096
  editDirectory ino fun dir => dir.sealDirBlock logical
  let live ← journaled
  if live = false then Op.ret ()
  else
    let found ← mapBlocks ino logical
    match found with
    | none => Op.fail (.error .eio "directory block not mapped for journaling")
    | some phys =>
      let inode ← readInode ino
      match inode.pages logical with
      | none => Op.fail (.error .eio "failed to read directory block for journaling")
      | some block => onFs do
        let access ← Fs.getCreateAccess cfg.geometry phys
        Fs.patch access fun _ => block

def findDirSlot (ino nameLen : Nat) : MountOp (Option DirSlotInfo) := do
  let inode ← readInode ino
  if inode.isDir = false then Op.fail (.error .enotdir "")
  else Op.ofExcept (inode.directory.findDirSlot nameLen)

def growDirBlock (ino : Nat) : MountOp DirSlotInfo := do
  let inode ← readInode ino
  if inode.isDir = false then Op.fail (.error .enotdir "")
  else
    let oldSize := inode.desc.size
    let newSize := oldSize + 4096
    prepareWrite cfg ino oldSize newSize
    editDirectory ino fun dir => .ok dir.growPage
    let startBlock := oldSize / 4096
    let res ← Op.attempt
      (onTree ino (markRangeWritten cfg.geometry inode.csumSeed startBlock (startBlock + 1)))
    match res with
    | .error e =>
      rollbackWrite cfg ino oldSize newSize
      Op.fail e
    | .ok _ =>
      updateDesc ino (InodeDesc.setSize newSize)
      Op.ret inode.directory.grownSlot

def findOrGrow (ino nameLen : Nat) : MountOp DirSlotInfo := do
  let found ← findDirSlot ino nameLen
  match found with
  | some slot => Op.ret slot
  | none => growDirBlock cfg ino

def addEntry (ino : Nat) (slot : DirSlotInfo) (name : Name) (target : Nat) (type : DirEntryFileType) :
    MountOp Unit := do
  editDirectory ino fun dir => dir.addEntry slot name target type
  journalDirBlock cfg ino slot.dirOffset

def deleteEntry (ino : Nat) (target : DirEntryInfo) : MountOp Unit := do
  editDirectory ino fun dir => dir.deleteEntry target
  journalDirBlock cfg ino target.dirOffset

def setEntryTarget (ino : Nat) (entry : DirEntryInfo) (newIno : Nat) (newType : DirEntryFileType) :
    MountOp Unit := do
  editDirectory ino fun dir => dir.setEntryTarget entry newIno newType
  journalDirBlock cfg ino entry.dirOffset

def findEntryInfo (ino : Nat) (name : Name) (dx : Option DxCtx) : MountOp DirEntryInfo := do
  let inode ← readInode ino
  if inode.isDir = false then Op.fail (.error .enotdir "")
  else Op.ofExcept (inode.directory.findEntryInfo name (if inode.hasIndex then dx else none))

def overwriteEntry (ino : Nat) (name : Name) (newIno : Nat) (newType : DirEntryFileType) :
    MountOp Unit := do
  let info ← findEntryInfo ino name none
  setEntryTarget cfg ino info newIno newType

def makeEmpty (ino parentIno : Nat) : MountOp Unit := do
  let slot ← growDirBlock cfg ino
  editDirectory ino fun dir => dir.editPage 0 (DirBlock.dotDots slot.slotRecLen ino parentIno)
  journalDirBlock cfg ino 0

def emptyDir (ino : Nat) : MountOp Bool := do
  let inode ← readInode ino
  Op.ret (inode.isDir && inode.directory.emptyDir ino)

def degradeHtreeToLinear (ino : Nat) : MountOp Unit := do
  let inode ← readInode ino
  let indexBlocks ← Op.ofExcept (dxIndexBlocks inode.directory.readIndexBlock)
  reserveCaptureBurst cfg (indexBlocks.length + 1)
  match inode.pages 0 with
  | none => Op.fail (.error .eio "")
  | some root =>
    let selfIno := (DirEntryHeader.read root 0).ino
    let parentIno := (DirEntryHeader.read root (DirEntryHeader.minRecLen dot.length)).ino
    editDirectory ino fun dir => .ok (dir.setPage 0 (dir.linearRoot selfIno parentIno))
    Op.each (fun blk => editDirectory ino fun dir => dir.clearPage blk) (indexBlocks.drop 1)
    updateDesc ino fun desc => { desc with flags := desc.flags ^^^ (desc.flags &&& FileFlags.index) }
    Op.each (fun blk => journalDirBlock cfg ino (blk * 4096)) indexBlocks
    writeBackInto cfg selfIno ino

def degradeIfIndexed (ino : Nat) : MountOp Unit := do
  let inode ← readInode ino
  if inode.hasIndex ∧ cfg.dx.isSome then degradeHtreeToLinear cfg ino else Op.ret ()

def addNewEntry (ino : Nat) (name : Name) (target : Nat) (type : DirEntryFileType) : MountOp Unit := do
  degradeIfIndexed cfg ino
  let slot ← findOrGrow cfg ino name.length
  addEntry cfg ino slot name target type

def writeBackJournaled (ino : Nat) : MountOp Unit := do
  let live ← journaled
  if live then writeBackInodeDesc cfg ino else Op.ret ()

def fillChild (parentIno : Nat) (type : InodeType) (initChild : Nat → MountOp Unit) (child : Nat) :
    MountOp Unit :=
  if type = .dir then makeEmpty cfg child parentIno else initChild child

def createWithSeedAndInit (parentIno : Nat) (name : Name) (type : InodeType) (by_ : Creator)
    (seed : InodeDesc.Seed) (initChild : Nat → MountOp Unit) : MountOp Nat := do
  let slot ← findOrGrow cfg parentIno name.length
  let child ← createInode cfg parentIno type by_ seed
  let res ← Op.attempt do
    fillChild cfg parentIno type initChild child
    addEntry cfg parentIno slot name child (.ofType type)
  match res with
  | .error e =>
    updateDesc child fun desc => { desc with linkCount := 0 }
    Op.fail e
  | .ok _ =>
    Op.when (type = .dir) (updateDesc parentIno (InodeDesc.incLinkCount 1))
    updateDesc parentIno (InodeDesc.setMtimeCtime by_.now)
    writeBackJournaled cfg parentIno
    writeBackJournaled cfg child
    Op.ret child

def createSeed : InodeType → Except Fault InodeDesc.Seed
  | .file | .dir | .symLink => .ok .extentRoot
  | .namedPipe | .socket => .ok .nothing
  | .charDevice | .blockDevice | .unknown => .error (.error .einval "")

def create (parentIno : Nat) (name : Name) (type : InodeType) (by_ : Creator) : MountOp Nat := do
  let seed ← Op.ofExcept (createSeed type)
  createWithSeedAndInit cfg parentIno name type by_ seed fun _ => Op.ret ()

def fastTarget (target : List UInt8) : Bytes.Buffer 60 := Bytes.splice (Bytes.zeros 60) 0 target

def writeLink (ino : Nat) (target : List UInt8) : MountOp Bool := do
  let inode ← readInode ino
  if target.length < maxFastSymlinkLen then
    Op.when inode.tree.isSome (truncateToByteLen cfg ino 0)
    updateInode ino fun inode =>
      { inode with
        desc := { inode.desc with
          flags := inode.desc.flags ^^^ (inode.desc.flags &&& FileFlags.extents)
          block := fastTarget target
          size := target.length }
        dirty := true
        tree := none }
    Op.ret false
  else
    Op.when inode.tree.isNone <| updateInode ino fun inode =>
      { inode with
        desc := { inode.desc with flags := inode.desc.flags ||| FileFlags.extents }
        dirty := true
        tree := some .empty }
    prepareWrite cfg ino 0 target.length
    updateInode ino fun inode =>
      { inode with pages := Function.update inode.pages 0 (some (Bytes.splice (Bytes.zeros _) 0 target)) }
    onTree ino (markRangeWritten cfg.geometry inode.csumSeed 0 ((target.length + 4095) / 4096))
    updateDesc ino (InodeDesc.setSize target.length)
    Op.ret true

def createSymlink (parentIno : Nat) (name : Name) (by_ : Creator) (target : List UInt8) :
    MountOp Nat :=
  if 4096 ≤ target.length then Op.fail (.error .enametoolong "")
  else
    createWithSeedAndInit cfg parentIno name .symLink by_ .extentRoot fun child => do
      let slow ← writeLink cfg child target
      Op.when slow (registerOrderedData child target.length)

def orphanIfUnlinked (ino : Nat) : MountOp Bool := do
  let inode ← readInode ino
  if inode.desc.linkCount = 0 then
    let link ← orphanAdd cfg ino
    persistAsOrphan cfg ino link
    Op.ret true
  else Op.ret false

def unlink (parentIno : Nat) (name : Name) (now : Duration) : MountOp Unit := do
  let info ← findEntryInfo parentIno name cfg.dx
  let child ← readInode info.ino
  if child.isDir then Op.fail (.error .eisdir "")
  else
    deleteEntry cfg parentIno info
    updateDesc parentIno (InodeDesc.setMtimeCtime now)
    updateDesc info.ino (InodeDesc.setCtime now)
    updateDesc info.ino (InodeDesc.decLinkCount 1)
    let gone ← orphanIfUnlinked cfg info.ino
    if gone then Op.ret () else writeBackJournaled cfg info.ino

def rmdir (parentIno : Nat) (name : Name) (now : Duration) : MountOp Unit := do
  let info ← findEntryInfo parentIno name cfg.dx
  let child ← readInode info.ino
  if child.isDir = false then Op.fail (.error .enotdir "")
  else
    let empty ← emptyDir info.ino
    if empty = false then Op.fail (.error .enotempty "")
    else
      updateDesc info.ino (InodeDesc.setCtime now)
      updateDesc info.ino (InodeDesc.decLinkCount 2)
      let _ ← orphanIfUnlinked cfg info.ino
      deleteEntry cfg parentIno info
      updateDesc parentIno (InodeDesc.decLinkCount 1)
      updateDesc parentIno (InodeDesc.setMtimeCtime now)
      writeBackJournaled cfg parentIno

def link (parentIno old : Nat) (name : Name) (now : Duration) : MountOp Unit := do
  let inode ← readInode old
  if maxLinkCount ≤ inode.desc.linkCount then Op.fail (.error .emlink "")
  else
    let slot ← findOrGrow cfg parentIno name.length
    addEntry cfg parentIno slot name old (.ofType inode.desc.type)
    updateDesc parentIno (InodeDesc.setMtimeCtime now)
    writeBackJournaled cfg parentIno
    updateDesc old (InodeDesc.setCtime now)
    updateDesc old (InodeDesc.incLinkCount 1)
    writeBackJournaled cfg old

structure Renaming where
  source : Nat
  oldName : Name
  target : Nat
  newName : Name
  now : Duration

structure RenamePlan where
  oldInfo : DirEntryInfo
  oldType : InodeType
  replaced : Option Nat

def RenamePlan.oldIsDir (plan : RenamePlan) : Bool := plan.oldType = .dir

def resolveReplaced (r : Renaming) : MountOp (Option Nat) := do
  let found ← Op.attempt (findEntryInfo r.target r.newName cfg.dx)
  match found with
  | .error _ => Op.ret none
  | .ok info => do
    let _ ← readInode info.ino
    Op.ret (some info.ino)

def checkDotDot (r : Renaming) (plan : RenamePlan) : MountOp Unit := do
  let info ← findEntryInfo plan.oldInfo.ino dotDot none
  if info.ino ≠ r.source then Op.fail (.error .eio "dotdot entry inconsistent with source dir")
  else Op.ret ()

def checkReplaced (plan : RenamePlan) (replaced : Nat) : MountOp Unit := do
  let inode ← readInode replaced
  if plan.oldIsDir ∧ inode.isDir = false then Op.fail (.error .enotdir "")
  else if plan.oldIsDir = false ∧ inode.isDir then Op.fail (.error .eisdir "")
  else if inode.isDir then
    let empty ← emptyDir replaced
    if empty then Op.ret () else Op.fail (.error .enotempty "")
  else Op.ret ()

def validateRenameInvariants (r : Renaming) (plan : RenamePlan) : MountOp Unit := do
  Op.when plan.oldIsDir (checkDotDot r plan)
  match plan.replaced with
  | none => Op.ret ()
  | some replaced => checkReplaced plan replaced

def enterNewName (r : Renaming) (plan : RenamePlan) : MountOp Unit :=
  let type : DirEntryFileType := .ofType plan.oldType
  if plan.replaced.isSome then overwriteEntry cfg r.target r.newName plan.oldInfo.ino type
  else addNewEntry cfg r.target r.newName plan.oldInfo.ino type

def renameWithin (r : Renaming) (plan : RenamePlan) : MountOp Unit := do
  enterNewName cfg r plan
  let oldInfo ← findEntryInfo r.source r.oldName cfg.dx
  deleteEntry cfg r.source oldInfo
  Op.when (plan.oldIsDir ∧ plan.replaced.isSome) (updateDesc r.source (InodeDesc.decLinkCount 1))
  updateDesc r.source (InodeDesc.setMtimeCtime r.now)
  writeBackJournaled cfg r.source

def renameAcross (r : Renaming) (plan : RenamePlan) : MountOp Unit := do
  enterNewName cfg r plan
  Op.when (plan.oldIsDir ∧ plan.replaced.isNone) (updateDesc r.target (InodeDesc.incLinkCount 1))
  updateDesc r.target (InodeDesc.setMtimeCtime r.now)
  writeBackJournaled cfg r.target
  deleteEntry cfg r.source plan.oldInfo
  Op.when plan.oldIsDir (updateDesc r.source (InodeDesc.decLinkCount 1))
  updateDesc r.source (InodeDesc.setMtimeCtime r.now)
  writeBackJournaled cfg r.source

def renameEntries (r : Renaming) (plan : RenamePlan) : MountOp Unit :=
  if r.source = r.target then renameWithin cfg r plan else renameAcross cfg r plan

def dropReplaced (r : Renaming) (plan : RenamePlan) : MountOp Unit :=
  match plan.replaced with
  | none => Op.ret ()
  | some replaced => do
    updateDesc replaced (InodeDesc.setCtime r.now)
    Op.when plan.oldIsDir (updateDesc replaced (InodeDesc.decLinkCount 1))
    updateDesc replaced (InodeDesc.decLinkCount 1)
    let _ ← orphanIfUnlinked cfg replaced
    Op.ret ()

def setDotDot (old target : Nat) : MountOp Unit := do
  degradeIfIndexed cfg old
  let info ← findEntryInfo old dotDot none
  setEntryTarget cfg old info target .dir

def repointDotDot (r : Renaming) (plan : RenamePlan) : MountOp Unit := do
  let old := plan.oldInfo.ino
  let moved := plan.oldIsDir ∧ r.source ≠ r.target
  Op.when moved (setDotDot cfg old r.target)
  updateDesc old (if moved then InodeDesc.setMtimeCtime r.now else InodeDesc.setCtime r.now)
  writeBackJournaled cfg old

def applyDirMutations (r : Renaming) (plan : RenamePlan) : MountOp Unit := do
  renameEntries cfg r plan
  dropReplaced cfg r plan
  repointDotDot cfg r plan

def planRename (r : Renaming) : MountOp RenamePlan := do
  let oldInfo ← findEntryInfo r.source r.oldName cfg.dx
  let old ← readInode oldInfo.ino
  let replaced ← resolveReplaced cfg r
  let plan : RenamePlan := ⟨oldInfo, old.desc.type, replaced⟩
  validateRenameInvariants r plan
  Op.ret plan

def rename (r : Renaming) : MountOp Unit :=
  if r.source = r.target ∧ r.oldName = r.newName then Op.ret ()
  else do
    let plan ← planRename cfg r
    applyDirMutations cfg r plan

inductive NsOp where
  | create (parent : Nat) (name : Name) (type : InodeType) (by_ : Creator)
  | symlink (parent : Nat) (name : Name) (by_ : Creator) (target : List UInt8)
  | link (parent old : Nat) (name : Name) (now : Duration)
  | unlink (parent : Nat) (name : Name) (now : Duration)
  | rmdir (parent : Nat) (name : Name) (now : Duration)
  | rename (r : Renaming)

def NsOp.exec : NsOp → MountOp Unit
  | .create parent name type by_ => do
    let _ ← Mount.create cfg parent name type by_
    Op.ret ()
  | .symlink parent name by_ target => do
    let _ ← createSymlink cfg parent name by_ target
    Op.ret ()
  | .link parent old name now => Mount.link cfg parent old name now
  | .unlink parent name now => Mount.unlink cfg parent name now
  | .rmdir parent name now => Mount.rmdir cfg parent name now
  | .rename r => Mount.rename cfg r

def Idle (m m' : Mount) : Prop :=
  m'.inodes = m.inodes ∧ m'.chain = m.chain ∧ m'.nextGeneration = m.nextGeneration ∧
    m'.fs.sb = m.fs.sb ∧ m'.fs.groups = m.fs.groups

end Mount

end Ext4
