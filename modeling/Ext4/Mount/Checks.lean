import Ext4.Base.Frame
import Ext4.Mount.Specimen

namespace Ext4

namespace Mount

section ReadOnly

variable {σ ε α : Type}

-- the checks of an operation look, and change nothing
abbrev ReadOnly (m : Op σ ε α) : Prop := Op.Keeps (· = ·) m

end ReadOnly

variable (cfg : Config)

open Op

theorem readInode_readOnly (ino : Nat) : ReadOnly (readInode ino) := by
  refine .bind .get fun m => ?_
  cases m.inodes ino with
  | none => exact .fail _
  | some inode => exact .ret _

theorem findEntryInfo_readOnly (ino : Nat) (name : Name) (dx : Option DxCtx) :
    ReadOnly (findEntryInfo ino name dx) := by
  refine .bind (readInode_readOnly ino) fun inode => ?_
  split
  · exact .fail _
  · exact .ofExcept _

theorem emptyDir_readOnly (ino : Nat) : ReadOnly (emptyDir ino) :=
  .bind (readInode_readOnly ino) fun _ => .ret _

theorem findDirSlot_readOnly (ino nameLen : Nat) : ReadOnly (findDirSlot ino nameLen) := by
  refine .bind (readInode_readOnly ino) fun inode => ?_
  split
  · exact .fail _
  · exact .ofExcept _

theorem resolveReplaced_readOnly (r : Renaming) : ReadOnly (resolveReplaced cfg r) := by
  refine .bind (.attempt (findEntryInfo_readOnly _ _ _)) fun found => ?_
  cases found with
  | error e => exact .ret _
  | ok info => exact .bind (readInode_readOnly _) fun _ => .ret _

theorem checkDotDot_readOnly (r : Renaming) (plan : RenamePlan) : ReadOnly (checkDotDot r plan) := by
  refine .bind (findEntryInfo_readOnly _ _ _) fun info => ?_
  split
  · exact .fail _
  · exact .ret ()

theorem checkReplaced_readOnly (plan : RenamePlan) (replaced : Nat) :
    ReadOnly (checkReplaced plan replaced) := by
  refine .bind (readInode_readOnly replaced) fun inode => ?_
  split
  · exact .fail _
  split
  · exact .fail _
  split
  · refine .bind (emptyDir_readOnly replaced) fun empty => ?_
    split
    · exact .ret ()
    · exact .fail _
  · exact .ret ()

theorem validateRenameInvariants_readOnly (r : Renaming) (plan : RenamePlan) :
    ReadOnly (validateRenameInvariants r plan) := by
  refine .bind (.when fun _ => checkDotDot_readOnly r plan) fun _ => ?_
  cases plan.replaced with
  | none => exact .ret ()
  | some replaced => exact checkReplaced_readOnly plan replaced

theorem planRename_readOnly (r : Renaming) : ReadOnly (planRename cfg r) :=
  .bind (findEntryInfo_readOnly _ _ _) fun _ => .bind (readInode_readOnly _) fun _ =>
    .bind (resolveReplaced_readOnly cfg r) fun _ =>
    .bind (validateRenameInvariants_readOnly r _) fun _ => .ret _

def NsOp.check : NsOp → MountOp Unit
  | .create parent name type _ => do
    let _ ← Op.ofExcept (createSeed type)
    let _ ← findDirSlot parent name.length
    Op.ret ()
  | .symlink parent name _ target =>
    if 4096 ≤ target.length then Op.fail (.error .enametoolong "")
    else do
      let _ ← findDirSlot parent name.length
      Op.ret ()
  | .link parent old name _ => do
    let inode ← readInode old
    if maxLinkCount ≤ inode.desc.linkCount then Op.fail (.error .emlink "")
    else
      let _ ← findDirSlot parent name.length
      Op.ret ()
  | .unlink parent name _ => do
    let info ← findEntryInfo parent name cfg.dx
    let child ← readInode info.ino
    if child.isDir then Op.fail (.error .eisdir "") else Op.ret ()
  | .rmdir parent name _ => do
    let info ← findEntryInfo parent name cfg.dx
    let child ← readInode info.ino
    if child.isDir = false then Op.fail (.error .enotdir "")
    else
      let empty ← emptyDir info.ino
      if empty = false then Op.fail (.error .enotempty "") else Op.ret ()
  | .rename r =>
    if r.source = r.target ∧ r.oldName = r.newName then Op.ret ()
    else do
      let _ ← planRename cfg r
      Op.ret ()

theorem NsOp.check_readOnly (op : NsOp) : ReadOnly (op.check cfg) := by
  cases op with
  | create parent name type by_ =>
    exact .bind (.ofExcept _) fun _ => .bind (findDirSlot_readOnly _ _) fun _ => .ret ()
  | symlink parent name by_ target =>
    rw [NsOp.check]
    split
    · exact .fail _
    · exact .bind (findDirSlot_readOnly _ _) fun _ => .ret ()
  | link parent old name now =>
    refine .bind (readInode_readOnly old) fun inode => ?_
    split
    · exact .fail _
    · exact .bind (findDirSlot_readOnly _ _) fun _ => .ret ()
  | unlink parent name now =>
    refine .bind (findEntryInfo_readOnly _ _ _) fun _ => .bind (readInode_readOnly _) fun child => ?_
    split
    · exact .fail _
    · exact .ret ()
  | rmdir parent name now =>
    refine .bind (findEntryInfo_readOnly _ _ _) fun _ => .bind (readInode_readOnly _) fun child => ?_
    split
    · exact .fail _
    · refine .bind (emptyDir_readOnly _) fun empty => ?_
      split
      · exact .fail _
      · exact .ret ()
  | rename r =>
    rw [NsOp.check]
    split
    · exact .ret ()
    · exact .bind (planRename_readOnly cfg r) fun _ => .ret ()

theorem findOrGrow_guarded (ino nameLen : Nat) {α : Type} (f : DirSlotInfo → MountOp α) :
    Guards (do
      let _ ← findDirSlot ino nameLen
      Op.ret () : MountOp Unit) (findOrGrow cfg ino nameLen >>= f) :=
  .trans (.discard _) (.trans (.first _ _) (.first _ _))

theorem NsOp.exec_guarded (op : NsOp) : Guards (op.check cfg) (op.exec cfg) := by
  cases op with
  | create parent name type by_ =>
    exact .trans (.bind _ fun seed => findOrGrow_guarded cfg _ _ _) (.first _ _)
  | symlink parent name by_ target =>
    refine .trans (?_ : Guards _ (createSymlink cfg parent name by_ target)) (.first _ _)
    rw [NsOp.check, createSymlink]
    split
    · exact .fail _
    · exact findOrGrow_guarded cfg _ _ _
  | link parent old name now =>
    refine .bind _ fun inode => ?_
    split
    · exact .fail _
    · exact findOrGrow_guarded cfg _ _ _
  | unlink parent name now =>
    refine .bind _ fun info => .bind _ fun child => ?_
    split
    · exact .fail _
    · exact .ret _ _
  | rmdir parent name now =>
    refine .bind _ fun info => .bind _ fun child => ?_
    split
    · exact .fail _
    · refine .bind _ fun empty => ?_
      split
      · exact .fail _
      · exact .ret _ _
  | rename r =>
    change Guards (NsOp.check cfg (.rename r)) (Mount.rename cfg r)
    rw [NsOp.check, Mount.rename]
    split
    · exact .ret _ _
    · exact .trans (.discard _) (.first _ _)

def lone (lost : Bool) : Mount :=
  sampleMount 4 []
    (fun b =>
      if b = 20 then some (some (fillPage 11 2 [⟨nameA, 13, .file⟩]))
      else if b = 4 ∧ lost then some none
      else none)
    fun ino =>
      if ino = 11 then some (sampleDir 11 2 20 2 [⟨nameA, 13, .file⟩])
      else if ino = 13 then some (sampleFile 1)
      else none

def names (b : Block) (name : Name) : Bool :=
  ((Directory.mk (fun _ => some b) 4096 none).scanForName name).isOk

def loneView (m : Mount) : Option Bool × Option Bool × Option Nat × OrphanChain × Option Nat :=
  (((m.inodes 11).bind fun i => i.pages 0).map fun b => names b nameA, (m.fs.image 20).map fun b => names b nameA,
    (m.inodes 13).map fun i => i.desc.linkCount,
    m.chain,
    (m.fs.image 0).map fun b => Bytes.getLE b (SuperBlock.superBlockOffset + 0xE8) 4)

def dropA : NsOp := .unlink 11 nameA .zero

end Mount

end Ext4
