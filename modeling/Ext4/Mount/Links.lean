import Ext4.Mount.Checks
import Ext4.Mount.Specimen

namespace Ext4

open Mount

namespace Mount

variable {inode : Inode} {links : Nat}

def Raises (p n : Nat) (m m' : Mount) : Prop :=
  ∀ ino inode', m'.inodes ino = some inode' → inode'.desc.linkCount ≤ 2 + n ∨
    ∃ inode, m.inodes ino = some inode ∧
      inode'.desc.linkCount ≤ inode.desc.linkCount + if ino = p then n else 0

namespace Raises

variable {p n k : Nat} {m m' m'' : Mount}

theorem of_inodes (h : m'.inodes = m.inodes) : Raises p n m m' := by
  intro ino inode' hi
  rw [h] at hi
  exact .inr ⟨inode', hi, Nat.le_add_right _ _⟩

theorem mono (h : Raises p n m m') (hle : n ≤ k) : Raises p k m m' := by
  intro ino inode' hi
  rcases h ino inode' hi with hlow | ⟨inode, hin, hlow⟩
  · exact .inl (by omega)
  · refine .inr ⟨inode, hin, ?_⟩
    split_ifs at hlow ⊢ <;> omega

theorem trans (h : Raises p n m m') (h' : Raises p k m' m'') : Raises p (n + k) m m'' := by
  intro ino inode'' hi
  rcases h' ino inode'' hi with hlow | ⟨inode', hin', hlow'⟩
  · exact .inl (by omega)
  · rcases h ino inode' hin' with hlow | ⟨inode, hin, hlow⟩
    · refine .inl ?_
      split_ifs at hlow' <;> omega
    · refine .inr ⟨inode, hin, ?_⟩
      split_ifs at hlow hlow' ⊢ <;> omega

theorem update (ino : Nat) {f : Inode → Inode}
    (hf : ∀ inode, (f inode).desc.linkCount ≤ inode.desc.linkCount + if ino = p then n else 0) :
    Raises p n m (m.mapInode ino f) := by
  intro ino' inode' hi
  rcases Decidable.eq_or_ne ino' ino with rfl | hne
  · rw [mapInode_self, Option.map_eq_some_iff] at hi
    obtain ⟨inode, hin, rfl⟩ := hi
    exact .inr ⟨inode, hin, hf inode⟩
  · rw [mapInode_of_ne m f hne] at hi
    exact .inr ⟨inode', hi, Nat.le_add_right _ _⟩

theorem setInode (ino : Nat) (h : inode.desc.linkCount ≤ 2) :
    Raises p n m (m.setInode ino inode) := by
  intro ino' inode' hi
  rcases Decidable.eq_or_ne ino' ino with rfl | hne
  · rw [setInode_self] at hi
    cases hi
    exact .inl (by omega)
  · rw [setInode_of_ne m inode hne] at hi
    exact .inr ⟨inode', hi, Nat.le_add_right _ _⟩

end Raises

instance (p : Nat) : IsPreorder Mount (Raises p 0) where
  refl _ := .of_inodes rfl
  trans _ _ _ := Raises.trans

section Steady

variable (cfg : Config) {α : Type} {p n : Nat}

open Op

theorem onFs_raises (op : FsOp α) : Keeps (Raises p n) (onFs op) :=
  Keeps.zoom _ fun _ _ => .of_inodes rfl

theorem readInode_raises (ino : Nat) : Keeps (Raises p 0) (readInode ino) := by
  refine .bind .get fun m => ?_
  cases m.inodes ino with
  | none => exact .fail _
  | some inode => exact .ret _

theorem journaled_raises : Keeps (Raises p 0) journaled := .bind .get fun _ => .ret _

theorem updateInode_raises (ino : Nat) {f : Inode → Inode}
    (hf : ∀ inode, (f inode).desc.linkCount ≤ inode.desc.linkCount) :
    Keeps (Raises p 0) (updateInode ino f) :=
  .modify fun _ => .update ino fun inode => Nat.le_add_right_of_le (hf inode)

theorem updateDesc_raises (ino : Nat) {f : InodeDesc → InodeDesc}
    (hf : ∀ desc, (f desc).linkCount ≤ desc.linkCount) : Keeps (Raises p 0) (updateDesc ino f) :=
  updateInode_raises ino fun inode => hf inode.desc

theorem incLinkCount_raises (ino : Nat) : Keeps (Raises ino 1) (updateDesc ino (InodeDesc.incLinkCount 1)) :=
  .modify fun _ => .update ino fun inode => by
    rw [if_pos rfl]
    exact Nat.mod_le _ _

theorem onTree_raises (ino : Nat) (op : TreeOp α) : Keeps (Raises p 0) (onTree ino op) := by
  intro m
  rcases onTree_cases m ino op with ⟨e, hrun⟩ | ⟨inode, tree, hino, -, hrun⟩
  · rw [hrun]
    exact .of_inodes rfl
  · rw [hrun]
    intro ino' inode' hi
    rcases Decidable.eq_or_ne ino' ino with rfl | hne
    · rw [setInode_self] at hi
      cases hi
      exact .inr ⟨inode, hino, Nat.le_add_right _ _⟩
    · rw [setInode_of_ne _ _ hne] at hi
      exact .inr ⟨inode', hi, Nat.le_add_right _ _⟩

theorem writeBackInto_raises (slotIno ino : Nat) : Keeps (Raises p 0) (writeBackInto cfg slotIno ino) := by
  refine .bind (readInode_raises ino) fun inode => ?_
  split
  · exact .ret ()
  · refine .bind (updateDesc_raises ino fun _ => le_rfl) fun _ => ?_
    refine .bind (readInode_raises ino) fun _ => .bind .get fun _ => ?_
    exact .bind (onFs_raises _) fun _ => updateInode_raises ino fun _ => le_rfl

theorem writeBackInodeDesc_raises (ino : Nat) : Keeps (Raises p 0) (writeBackInodeDesc cfg ino) :=
  writeBackInto_raises cfg ino ino

theorem writeBackJournaled_raises (ino : Nat) : Keeps (Raises p 0) (writeBackJournaled cfg ino) := by
  refine .bind journaled_raises fun live => ?_
  split
  · exact writeBackInodeDesc_raises cfg ino
  · exact .ret ()

theorem mapBlocks_raises (ino iblock : Nat) : Keeps (Raises p 0) (mapBlocks ino iblock) := by
  refine .bind (readInode_raises ino) fun inode => ?_
  cases inode.tree with
  | none => exact .fail _
  | some tree => exact .bind (onFs_raises _) fun _ => .ret _

theorem resizePageCache_raises (ino newSize oldSize : Nat) :
    Keeps (Raises p 0) (resizePageCache ino newSize oldSize) := by
  refine .bind (readInode_raises ino) fun inode => ?_
  cases inode.tree with
  | none => exact .fail _
  | some tree =>
    dsimp only
    split
    · exact .ret ()
    split
    · exact .fail _
    · exact .bind (mapBlocks_raises ino _) fun _ => .ret ()

theorem ensureSizeWithinLimit_raises (ino newSize : Nat) :
    Keeps (Raises p 0) (ensureSizeWithinLimit ino newSize) := by
  refine .bind (readInode_raises ino) fun inode => ?_
  dsimp only
  generalize (if inode.desc.type = .file then (2 ^ 32 - 1) * 4096 else 2 ^ 32 - 1) = max
  split
  · exact .fail _
  · exact .ret ()

theorem prepareWrite_raises (ino offset stop : Nat) :
    Keeps (Raises p 0) (prepareWrite cfg ino offset stop) := by
  refine .bind (readInode_raises ino) fun inode => ?_
  dsimp only
  split
  · exact .fail _
  · refine .bind (.when fun _ => ?_) fun _ => onTree_raises ino _
    exact .bind (ensureSizeWithinLimit_raises ino _) fun _ => resizePageCache_raises ino _ _

theorem truncateToByteLen_raises (ino newSize : Nat) :
    Keeps (Raises p 0) (truncateToByteLen cfg ino newSize) :=
  .bind (readInode_raises ino) fun _ => onTree_raises ino _

theorem rollbackWrite_raises (ino oldSize stop : Nat) :
    Keeps (Raises p 0) (rollbackWrite cfg ino oldSize stop) := by
  unfold rollbackWrite
  split
  · exact .ret ()
  · refine .bind (.attempt (resizePageCache_raises ino _ _)) fun _ => ?_
    exact .bind (.attempt (truncateToByteLen_raises cfg ino _)) fun _ => .ret ()

theorem newInode_desc {ino : Nat} {desc : InodeDesc}
    (h : newInode cfg ino desc = .ok inode) : inode.desc = desc := by
  unfold newInode at h
  cases htree : treeOf desc with
  | error e => rw [htree] at h; cases h
  | ok tree => rw [htree] at h; cases h; rfl

theorem createInode_raises (parentIno : Nat) (type : InodeType) (by_ : Creator) (seed : InodeDesc.Seed) :
    Keeps (Raises p 0) (createInode cfg parentIno type by_ seed) := by
  refine .bind (onFs_raises _) fun ino => .bind .get fun m => ?_
  refine .bind (.modify fun _ => .of_inodes rfl) fun _ => ?_
  have hundo (e : Fault) : Keeps (Raises p 0) (do
      let _ ← Op.attempt (onFs (Fs.freeInode cfg.geometry ino type))
      Op.fail e : MountOp Nat) := .bind (.attempt (onFs_raises _)) fun _ => .fail e
  refine .bind (.attempt (onFs_raises _)) fun res => ?_
  cases res with
  | error e => exact hundo e
  | ok _ =>
    dsimp only
    split
    · exact hundo _
    next inode hnew =>
      refine .bind (.modify fun _ => .setInode ino ?_) fun _ => .ret ino
      rw [newInode_desc cfg hnew]
      change (if type.isDirectory then 2 else 1) ≤ 2
      split <;> decide

theorem editDirectory_raises (ino : Nat) (f : Directory → Except Fault Directory) :
    Keeps (Raises p 0) (editDirectory ino f) :=
  .bind (readInode_raises ino) fun _ => .bind (.ofExcept _) fun _ =>
    updateInode_raises ino fun _ => le_rfl

theorem journalDirBlock_raises (ino dirOffset : Nat) :
    Keeps (Raises p 0) (journalDirBlock cfg ino dirOffset) := by
  refine .bind (editDirectory_raises ino _) fun _ => .bind journaled_raises fun live => ?_
  split
  · exact .ret ()
  · refine .bind (mapBlocks_raises ino _) fun found => ?_
    cases found with
    | none => exact .fail _
    | some phys =>
      refine .bind (readInode_raises ino) fun inode => ?_
      split
      · exact .fail _
      · exact onFs_raises _

theorem findDirSlot_raises (ino nameLen : Nat) : Keeps (Raises p 0) (findDirSlot ino nameLen) := by
  refine .bind (readInode_raises ino) fun inode => ?_
  split
  · exact .fail _
  · exact .ofExcept _

theorem growDirBlock_raises (ino : Nat) : Keeps (Raises p 0) (growDirBlock cfg ino) := by
  refine .bind (readInode_raises ino) fun inode => ?_
  split
  · exact .fail _
  · refine .bind (prepareWrite_raises cfg ino _ _) fun _ => ?_
    refine .bind (editDirectory_raises ino _) fun _ => ?_
    refine .bind (.attempt (onTree_raises ino _)) fun res => ?_
    cases res with
    | error e => exact .bind (rollbackWrite_raises cfg ino _ _) fun _ => .fail e
    | ok _ => exact .bind (updateDesc_raises ino fun _ => le_rfl) fun _ => .ret _

theorem findOrGrow_raises (ino nameLen : Nat) : Keeps (Raises p 0) (findOrGrow cfg ino nameLen) := by
  refine .bind (findDirSlot_raises ino nameLen) fun found => ?_
  cases found with
  | some slot => exact .ret slot
  | none => exact growDirBlock_raises cfg ino

section

variable (ino : Nat)

theorem addEntry_raises (slot : DirSlotInfo) (name : Name) (target : Nat)
    (type : DirEntryFileType) : Keeps (Raises p 0) (addEntry cfg ino slot name target type) :=
  .bind (editDirectory_raises ino _) fun _ => journalDirBlock_raises cfg ino _

theorem deleteEntry_raises (target : DirEntryInfo) :
    Keeps (Raises p 0) (deleteEntry cfg ino target) :=
  .bind (editDirectory_raises ino _) fun _ => journalDirBlock_raises cfg ino _

theorem setEntryTarget_raises (entry : DirEntryInfo) (newIno : Nat)
    (newType : DirEntryFileType) : Keeps (Raises p 0) (setEntryTarget cfg ino entry newIno newType) :=
  .bind (editDirectory_raises ino _) fun _ => journalDirBlock_raises cfg ino _

theorem findEntryInfo_raises (name : Name) (dx : Option DxCtx) :
    Keeps (Raises p 0) (findEntryInfo ino name dx) := by
  refine .bind (readInode_raises ino) fun inode => ?_
  split
  · exact .fail _
  · exact .ofExcept _

theorem emptyDir_raises : Keeps (Raises p 0) (emptyDir ino) :=
  .bind (readInode_raises ino) fun _ => .ret _

end

theorem makeEmpty_raises (ino parentIno : Nat) : Keeps (Raises p 0) (makeEmpty cfg ino parentIno) :=
  .bind (growDirBlock_raises cfg ino) fun _ => .bind (editDirectory_raises ino _) fun _ =>
    journalDirBlock_raises cfg ino 0

theorem degradeHtreeToLinear_raises (ino : Nat) : Keeps (Raises p 0) (degradeHtreeToLinear cfg ino) := by
  refine .bind (readInode_raises ino) fun inode => .bind (.ofExcept _) fun indexBlocks => ?_
  refine .bind (onFs_raises _) fun _ => ?_
  split
  · exact .fail _
  · refine .bind (editDirectory_raises ino _) fun _ => ?_
    refine .bind (.each fun blk _ => editDirectory_raises ino _) fun _ => ?_
    refine .bind (updateDesc_raises ino fun _ => le_rfl) fun _ => ?_
    exact .bind (.each fun blk _ => journalDirBlock_raises cfg ino _) fun _ =>
      writeBackInto_raises cfg _ ino

theorem degradeIfIndexed_raises (ino : Nat) : Keeps (Raises p 0) (degradeIfIndexed cfg ino) := by
  refine .bind (readInode_raises ino) fun inode => ?_
  split
  · exact degradeHtreeToLinear_raises cfg ino
  · exact .ret ()

theorem enterNewName_raises (r : Renaming) (plan : RenamePlan) :
    Keeps (Raises p 0) (enterNewName cfg r plan) := by
  unfold enterNewName
  dsimp only
  split
  · exact .bind (findEntryInfo_raises _ _ _) fun _ => setEntryTarget_raises cfg _ _ _ _
  · refine .bind (degradeIfIndexed_raises cfg _) fun _ => ?_
    exact .bind (findOrGrow_raises cfg _ _) fun _ => addEntry_raises cfg _ _ _ _ _

theorem writeLink_raises (ino : Nat) (target : List UInt8) :
    Keeps (Raises p 0) (writeLink cfg ino target) := by
  refine .bind (readInode_raises ino) fun inode => ?_
  split
  · refine .bind (.when fun _ => truncateToByteLen_raises cfg ino 0) fun _ => ?_
    exact .bind (updateInode_raises ino fun _ => le_rfl) fun _ => .ret false
  · refine .bind (.when fun _ => updateInode_raises ino fun _ => le_rfl) fun _ => ?_
    refine .bind (prepareWrite_raises cfg ino _ _) fun _ => ?_
    refine .bind (updateInode_raises ino fun _ => le_rfl) fun _ => ?_
    refine .bind (onTree_raises ino _) fun _ => ?_
    exact .bind (updateDesc_raises ino fun _ => le_rfl) fun _ => .ret true

theorem orphanAdd_raises (ino : Nat) : Keeps (Raises p 0) (orphanAdd cfg ino) := by
  refine .bind .get fun m => ?_
  split
  · exact .ret _
  · split
    · exact .ret _
    · exact .bind (onFs_raises _) fun _ => .bind (.modify fun _ => .of_inodes rfl) fun _ => .ret _

theorem orphanIfUnlinked_raises (ino : Nat) : Keeps (Raises p 0) (orphanIfUnlinked cfg ino) := by
  refine .bind (readInode_raises ino) fun inode => ?_
  split
  · refine .bind (orphanAdd_raises cfg ino) fun link => .bind (.bind ?_ fun _ => ?_) fun _ => .ret _
    · exact updateDesc_raises ino fun _ => le_rfl
    · exact writeBackInodeDesc_raises cfg ino
  · exact .ret _

theorem dropReplaced_raises (r : Renaming) (plan : RenamePlan) :
    Keeps (Raises p 0) (dropReplaced cfg r plan) := by
  unfold dropReplaced
  cases plan.replaced with
  | none => exact .ret ()
  | some replaced =>
    have hdec : Keeps (Raises p 0) (updateDesc replaced (InodeDesc.decLinkCount 1)) :=
      updateDesc_raises replaced fun _ => Nat.sub_le _ _
    refine .bind (updateDesc_raises replaced fun _ => le_rfl) fun _ => ?_
    refine .bind (.when fun _ => hdec) fun _ => .bind hdec fun _ => ?_
    exact .bind (orphanIfUnlinked_raises cfg replaced) fun _ => .ret ()

theorem setDotDot_raises (old target : Nat) : Keeps (Raises p 0) (setDotDot cfg old target) :=
  .bind (degradeIfIndexed_raises cfg old) fun _ => .bind (findEntryInfo_raises _ _ _) fun _ =>
    setEntryTarget_raises cfg _ _ _ _

theorem repointDotDot_raises (r : Renaming) (plan : RenamePlan) :
    Keeps (Raises p 0) (repointDotDot cfg r plan) := by
  refine .bind (.when fun _ => setDotDot_raises cfg _ _) fun _ => ?_
  refine .bind (updateDesc_raises _ fun desc => ?_) fun _ => writeBackJournaled_raises cfg _
  split <;> exact le_rfl

end Steady

section Raising

variable (cfg : Config) {α β : Type} {p n : Nat} {op : MountOp α} {f : α → MountOp β}

open Op

theorem Raises.after (hop : Keeps (Raises p 0) op) (hf : ∀ a, Keeps (Raises p n) (f a)) :
    Keeps (Raises p n) (op >>= f) :=
  .bind_comp hop hf (fun _ _ h => h.mono zero_le) fun _ _ _ h h' =>
    (h.trans h').mono (Nat.le_of_eq (zero_add n))

theorem Raises.before (hop : Keeps (Raises p n) op) (hf : ∀ a, Keeps (Raises p 0) (f a)) :
    Keeps (Raises p n) (op >>= f) := .bind_comp hop hf (fun _ _ h => h) fun _ _ _ => Raises.trans

theorem Raises.when_inc (c : Prop) [Decidable c] (ino : Nat) :
    Keeps (Raises ino (if c then 1 else 0)) (Op.when c (updateDesc ino (InodeDesc.incLinkCount 1))) := by
  unfold Op.when
  split
  · exact incLinkCount_raises ino
  · exact .ret ()

theorem createWithSeedAndInit_raises (parentIno : Nat) (name : Name) (type : InodeType) (by_ : Creator)
    (seed : InodeDesc.Seed) {initChild : Nat → MountOp Unit}
    (hinit : ∀ child, Keeps (Raises parentIno 0) (initChild child)) :
    Keeps (Raises parentIno (if type = .dir then 1 else 0))
      (createWithSeedAndInit cfg parentIno name type by_ seed initChild) := by
  refine .after (findOrGrow_raises cfg _ _) fun slot => .after (createInode_raises cfg _ _ _ _) fun child => ?_
  refine .after (.attempt (.bind ?_ fun _ => addEntry_raises cfg _ _ _ _ _)) fun res => ?_
  · unfold fillChild
    split
    · exact makeEmpty_raises cfg _ _
    · exact hinit child
  cases res with
  | error e =>
    exact .after (updateDesc_raises child fun _ => zero_le) fun _ => .mono (.fail e) fun _ _ h =>
      Raises.mono h zero_le
  | ok _ =>
    refine .before (Raises.when_inc _ parentIno) fun _ => ?_
    refine .bind (updateDesc_raises _ fun _ => le_rfl) fun _ => ?_
    refine .bind (writeBackJournaled_raises cfg _) fun _ => ?_
    exact .bind (writeBackJournaled_raises cfg _) fun _ => .ret child

theorem renameWithin_raises (r : Renaming) (plan : RenamePlan) :
    Keeps (Raises p 0) (renameWithin cfg r plan) := by
  refine .bind (enterNewName_raises cfg r plan) fun _ => .bind (findEntryInfo_raises _ _ _) fun _ => ?_
  refine .bind (deleteEntry_raises cfg _ _) fun _ => ?_
  refine .bind (.when fun _ => updateDesc_raises _ fun _ => Nat.sub_le _ _) fun _ => ?_
  exact .bind (updateDesc_raises _ fun _ => le_rfl) fun _ => writeBackJournaled_raises cfg _

def RenamePlan.brings (plan : RenamePlan) (r : Renaming) : Prop :=
  r.source ≠ r.target ∧ plan.oldIsDir ∧ plan.replaced = none

theorem renameAcross_raises (r : Renaming) (plan : RenamePlan) :
    Keeps (Raises r.target (if plan.oldIsDir ∧ plan.replaced.isNone then 1 else 0))
      (renameAcross cfg r plan) := by
  refine .after (enterNewName_raises cfg r plan) fun _ => .before (Raises.when_inc _ r.target) fun _ => ?_
  refine .bind (updateDesc_raises _ fun _ => le_rfl) fun _ => ?_
  refine .bind (writeBackJournaled_raises cfg _) fun _ => .bind (deleteEntry_raises cfg _ _) fun _ => ?_
  refine .bind (.when fun _ => updateDesc_raises _ fun _ => Nat.sub_le _ _) fun _ => ?_
  exact .bind (updateDesc_raises _ fun _ => le_rfl) fun _ => writeBackJournaled_raises cfg _

theorem applyDirMutations_raises (r : Renaming) (plan : RenamePlan) (hn : plan.brings r → 1 ≤ n) :
    Keeps (Raises r.target n) (applyDirMutations cfg r plan) := by
  have hentries : Keeps (Raises r.target n) (renameEntries cfg r plan) := by
    unfold renameEntries
    split
    · exact .mono (renameWithin_raises cfg r plan) fun _ _ h => Raises.mono h zero_le
    next hne =>
      refine .mono (renameAcross_raises cfg r plan) fun _ _ h => Raises.mono h ?_
      split
      next hb => exact hn ⟨hne, hb.1, Option.isNone_iff_eq_none.mp hb.2⟩
      · exact zero_le
  refine .before hentries fun _ => ?_
  exact .bind (dropReplaced_raises cfg r plan) fun _ => repointDotDot_raises cfg r plan

end Raising

def LinksBounded (m : Mount) : Prop :=
  ∀ ino inode, m.inodes ino = some inode → inode.desc.linkCount ≤ maxLinkCount

def linksBelow (m : Mount) (ino : Nat) : Prop :=
  ∀ inode, m.inodes ino = some inode → inode.desc.linkCount < maxLinkCount

theorem Raises.bounded {p n : Nat} {m m' : Mount} (h : Raises p n m m') (hb : m.LinksBounded) (hle : n ≤ 1)
    (hroom : n = 1 → m.linksBelow p) : m'.LinksBounded := by
  intro ino inode' hi
  have hmax : maxLinkCount = 32000 := rfl
  rcases h ino inode' hi with hlow | ⟨inode, hin, hlow⟩
  · omega
  · have hold := hb ino inode hin
    split_ifs at hlow with hp
    · subst hp
      rcases Nat.le_one_iff_eq_zero_or_eq_one.mp hle with rfl | rfl
      · omega
      · have hlt := hroom rfl inode hin
        omega
    · omega

def NsOp.Roomy (cfg : Config) (m : Mount) : NsOp → Prop
  | .create parent _ type _ => type = .dir → m.linksBelow parent
  | .rename r => ∀ plan m', planRename cfg r m = (.ok plan, m') → plan.brings r → m.linksBelow r.target
  | _ => True

section Bounded

variable (cfg : Config) {m : Mount} {parent : Nat} {name : Name} {by_ : Creator} {now : Duration}

open Op

section

variable (hb : m.LinksBounded)

include hb

theorem create_bounded {type : InodeType} (hroom : type = .dir → m.linksBelow parent) :
    (NsOp.exec cfg (.create parent name type by_) m).2.LinksBounded := by
  have hkeeps : Keeps (Raises parent (if type = .dir then 1 else 0))
      (NsOp.exec cfg (.create parent name type by_)) :=
    .before (.after (.ofExcept _) fun seed =>
      createWithSeedAndInit_raises cfg parent name type by_ seed fun _ => .ret ()) fun _ => .ret ()
  refine (hkeeps m).bounded hb (by split <;> decide) fun hn => hroom ?_
  by_contra hdir
  rw [if_neg hdir] at hn
  cases hn

theorem symlink_bounded {target : List UInt8} : (NsOp.exec cfg (.symlink parent name by_ target) m).2.LinksBounded := by
  have hcreate : Keeps (Raises parent 0) (createSymlink cfg parent name by_ target) := by
    unfold createSymlink
    split
    · exact .fail _
    · refine createWithSeedAndInit_raises cfg parent name .symLink by_ .extentRoot fun child => ?_
      exact .bind (writeLink_raises cfg child target) fun slow => .when fun _ => onFs_raises _
  have hkeeps : Keeps (Raises parent 0) (NsOp.exec cfg (.symlink parent name by_ target)) :=
    .bind hcreate fun _ => .ret ()
  exact (hkeeps m).bounded hb zero_le fun hn => by cases hn

theorem unlink_bounded :
    (NsOp.exec cfg (.unlink parent name now) m).2.LinksBounded := by
  have hkeeps : Keeps (Raises 0 0) (NsOp.exec cfg (.unlink parent name now)) := by
    refine .bind (findEntryInfo_raises _ _ _) fun info => .bind (readInode_raises _) fun child => ?_
    split
    · exact .fail _
    · refine .bind (deleteEntry_raises cfg _ _) fun _ => ?_
      refine .bind (updateDesc_raises _ fun _ => le_rfl) fun _ => ?_
      refine .bind (updateDesc_raises _ fun _ => le_rfl) fun _ => ?_
      refine .bind (updateDesc_raises _ fun _ => Nat.sub_le _ _) fun _ => ?_
      refine .bind (orphanIfUnlinked_raises cfg _) fun gone => ?_
      split
      · exact .ret ()
      · exact writeBackJournaled_raises cfg _
  exact (hkeeps m).bounded hb zero_le fun hn => by cases hn

theorem rmdir_bounded :
    (NsOp.exec cfg (.rmdir parent name now) m).2.LinksBounded := by
  have hkeeps : Keeps (Raises 0 0) (NsOp.exec cfg (.rmdir parent name now)) := by
    refine .bind (findEntryInfo_raises _ _ _) fun info => .bind (readInode_raises _) fun child => ?_
    split
    · exact .fail _
    · refine .bind (emptyDir_raises _) fun empty => ?_
      split
      · exact .fail _
      · refine .bind (updateDesc_raises _ fun _ => le_rfl) fun _ => ?_
        refine .bind (updateDesc_raises _ fun _ => Nat.sub_le _ _) fun _ => ?_
        refine .bind (orphanIfUnlinked_raises cfg _) fun _ => .bind (deleteEntry_raises cfg _ _) fun _ => ?_
        refine .bind (updateDesc_raises _ fun _ => Nat.sub_le _ _) fun _ => ?_
        exact .bind (updateDesc_raises _ fun _ => le_rfl) fun _ => writeBackJournaled_raises cfg _
  exact (hkeeps m).bounded hb zero_le fun hn => by cases hn

end

theorem link_cases (m : Mount) (parent old : Nat) (name : Name) (now : Duration) :
    m.inodes old = none ∧ link cfg parent old name now m = (.error staleInode, m) ∨
    ∃ inode, m.inodes old = some inode ∧
      (maxLinkCount ≤ inode.desc.linkCount ∧
          link cfg parent old name now m = (.error (.error .emlink ""), m) ∨
        inode.desc.linkCount < maxLinkCount ∧ Raises old 1 m (link cfg parent old name now m).2) := by
  cases hold : m.inodes old with
  | none =>
    refine .inl ⟨rfl, Op.bind_error ?_⟩
    simp only [readInode, Op.get_bind, hold]
    rfl
  | some inode =>
    have hread : readInode old m = (.ok inode, m) := by
      simp only [readInode, Op.get_bind, hold]
      rfl
    refine .inr ⟨inode, rfl, ?_⟩
    rcases lt_or_ge inode.desc.linkCount maxLinkCount with hlt | hge
    · refine .inr ⟨hlt, ?_⟩
      rw [link, Op.bind_ok hread, if_neg (not_le.mpr hlt)]
      refine (Raises.after (findOrGrow_raises cfg _ _) fun slot => ?_) m
      refine .after (addEntry_raises cfg _ _ _ _ _) fun _ => ?_
      refine .after (updateDesc_raises _ fun _ => le_rfl) fun _ => ?_
      refine .after (writeBackJournaled_raises cfg _) fun _ => ?_
      refine .after (updateDesc_raises _ fun _ => le_rfl) fun _ => ?_
      exact .before (incLinkCount_raises old) fun _ => writeBackJournaled_raises cfg _
    · refine .inl ⟨hge, ?_⟩
      rw [link, Op.bind_ok hread, if_pos hge]
      rfl

theorem link_bounded {old : Nat} (hb : m.LinksBounded) :
    (NsOp.exec cfg (.link parent old name now) m).2.LinksBounded := by
  change (link cfg parent old name now m).2.LinksBounded
  rcases link_cases cfg m parent old name now with ⟨-, hrun⟩ | ⟨inode, hold, ⟨-, hrun⟩ | ⟨hlt, hraise⟩⟩
  · rw [hrun]
    exact hb
  · rw [hrun]
    exact hb
  · refine hraise.bounded hb (le_refl 1) fun _ inode' hi => ?_
    rw [hold] at hi
    cases hi
    exact hlt

theorem rename_bounded {r : Renaming} (hb : m.LinksBounded) (hroom : NsOp.Roomy cfg m (.rename r)) :
    (NsOp.exec cfg (.rename r) m).2.LinksBounded := by
  change (rename cfg r m).2.LinksBounded
  unfold rename
  split
  · exact hb
  · have hread := planRename_readOnly cfg r m
    cases hplan : planRename cfg r m with
    | mk res m' =>
      rw [hplan] at hread
      subst hread
      cases res with
      | error e =>
        rw [Op.bind_error hplan]
        exact hb
      | ok plan =>
        rw [Op.bind_ok hplan]
        have hmove : ∀ n, (plan.brings r → 1 ≤ n) → Raises r.target n m (applyDirMutations cfg r plan m).2 :=
          fun n hn => applyDirMutations_raises cfg r plan hn m
        by_cases hbrings : plan.brings r
        · exact (hmove 1 fun _ => Nat.le_refl 1).bounded hb (Nat.le_refl 1) fun _ =>
            hroom plan m hplan hbrings
        · exact (hmove 0 fun h => absurd h hbrings).bounded hb zero_le fun hn => by cases hn

theorem exec_bounded {op : NsOp} (hb : m.LinksBounded) (hroom : op.Roomy cfg m) :
    (op.exec cfg m).2.LinksBounded := by
  cases op with
  | create parent name type by_ => exact create_bounded cfg hb hroom
  | symlink parent name by_ target => exact symlink_bounded cfg hb
  | link parent old name now => exact link_bounded cfg hb
  | unlink parent name now => exact unlink_bounded cfg hb
  | rmdir parent name now => exact rmdir_bounded cfg hb
  | rename r => exact rename_bounded cfg hb hroom

end Bounded

inductive RoomyRun (cfg : Config) : Mount → Mount → Prop
  | refl (m : Mount) : RoomyRun cfg m m
  | op {m m₁ m₂ : Mount} (run : RoomyRun cfg m m₁) (idle : m₁.Idle m₂) (op : NsOp)
      (roomy : op.Roomy cfg m₂) : RoomyRun cfg m (op.exec cfg m₂).2

theorem RoomyRun.bounded {cfg : Config} {m m' : Mount} (h : RoomyRun cfg m m') (hb : m.LinksBounded) :
    m'.LinksBounded := by
  induction h with
  | refl => exact hb
  | op _ idle op roomy ih =>
    refine exec_bounded cfg (fun ino inode hi => ?_) roomy
    rw [idle.1] at hi
    exact ih ino inode hi

theorem link_counts_bounded {cfg : Config} {m m' : Mount} (hb : m.LinksBounded) (hrun : RoomyRun cfg m m') :
    (∀ ino inode, m'.inodes ino = some inode → inode.desc.linkCount ≤ maxLinkCount ∧
      (inode.desc.incLinkCount 1).linkCount = inode.desc.linkCount + 1) ∧
    ∀ parent old name now inode, m'.inodes old = some inode → maxLinkCount ≤ inode.desc.linkCount →
      Mount.link cfg parent old name now m' = (.error (.error .emlink ""), m') := by
  have hbound := hrun.bounded hb
  constructor
  · intro ino inode hi
    have hle := hbound ino inode hi
    have hmax : maxLinkCount = 32000 := rfl
    refine ⟨hle, Nat.mod_eq_of_lt ?_⟩
    omega
  · intro parent old name now inode hi hge
    rcases link_cases cfg m' parent old name now with ⟨hnone, -⟩ | ⟨inode', hi', ⟨-, hrun⟩ | ⟨hlt, -⟩⟩
    · rw [hi] at hnone
      cases hnone
    · exact hrun
    · rw [hi] at hi'
      cases hi'
      omega

def crowded (links : Nat) : Mount := sampleMount 24 [] (fun _ => none) fun ino =>
  if ino = 11 then some (sampleDir 11 2 20 3 [⟨nameA, 13, .dir⟩])
  else if ino = 12 then some (sampleDir 12 2 21 links [])
  else if ino = 13 then some (sampleDir 13 11 22 2 [])
  else none

def moveIn : Renaming := ⟨11, nameA, 12, nameA, .zero⟩

theorem crowded_bounded (h : links ≤ maxLinkCount) : (crowded links).LinksBounded := by
  intro ino inode hi
  simp only [crowded, sampleMount] at hi
  split_ifs at hi <;> cases hi
  · exact (by decide : 3 ≤ maxLinkCount)
  · exact h
  · exact (by decide : 2 ≤ maxLinkCount)

theorem moveIn_roomy (h : links < maxLinkCount) :
    (NsOp.rename moveIn).Roomy sampleConfig (crowded links) := by
  intro plan m' _ _ inode hi
  cases hi
  exact h

theorem link_counts_bounded_moved :
    ∃ inode, ((NsOp.rename moveIn).exec sampleConfig (crowded 3)).2.inodes 12 = some inode ∧
      inode.desc.linkCount ≤ maxLinkCount ∧
      (inode.desc.incLinkCount 1).linkCount = inode.desc.linkCount + 1 := by
  have hrun : RoomyRun sampleConfig (crowded 3) ((NsOp.rename moveIn).exec sampleConfig (crowded 3)).2 :=
    .op (.refl _) ⟨rfl, rfl, rfl, rfl, rfl⟩ _ (moveIn_roomy (by decide))
  have hthere : (((NsOp.rename moveIn).exec sampleConfig (crowded 3)).2.inodes 12).isSome = true := by
    decide +kernel
  obtain ⟨inode, hi⟩ := Option.isSome_iff_exists.mp hthere
  exact ⟨inode, hi, (link_counts_bounded (crowded_bounded (by decide)) hrun).1 12 inode hi⟩

theorem rename_ignores_link_limit :
    ((rename sampleConfig moveIn (crowded 32000)).1.isOk = true ∧
      ((rename sampleConfig moveIn (crowded 32000)).2.inodes 12).map (fun i => i.desc.linkCount) =
        some 32001) ∧
    (rename sampleConfig moveIn (crowded 65535)).1.isOk = true ∧
      ((rename sampleConfig moveIn (crowded 65535)).2.inodes 12).map (fun i => i.desc.linkCount) =
        some 0 := by
  decide +kernel

end Mount

end Ext4
