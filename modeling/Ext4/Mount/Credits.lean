import Ext4.Mount.Growth

namespace Ext4

open Op Graded FileFlags Costs Finset

variable {n : Nat} {name : Name} {m' : Mount} {r : Renaming}
  {g : JournalGeometry} {csumSeed : Option UInt32} {policy : DataForgetPolicy}

namespace Mount

variable {tree : ExtentTree} {parentIno : Nat}

section Growth

variable {m : Mount} {ino : Nat} {inode : Inode} (cfg : Config)

def Expandable (m : Mount) (ino nameLen : Nat) : Prop :=
  ∀ inode tree, m.inodes ino = some inode → inode.directory.findDirSlot nameLen = .ok none →
    inode.tree = some tree → tree.Slack ∧ inode.desc.size % 4096 = 0

section

variable (hino : m.inodes ino = some inode)

include hino

theorem onTree_spends {α : Type} {op : TreeOp α} {P : α → ExtentTree → Prop}
    (h : ∀ tree, inode.tree = some tree → op.Ends ⟨tree, m.fs⟩
      (fun a s => m.fs.Spends true n s.fs ∧ P a s.tree) fun _ s => m.fs.Spends true n s.fs) :
    (onTree ino op).Ends m
      (fun a m' => Spends true n m m' ∧
        ∃ tree, m'.inodes ino = some { inode with tree := some tree } ∧ P a tree)
      fun _ m' => Spends true n m m' := by
  have hsame (s : TreeFs) (hs : m.fs.Spends true n s.fs) :
      Spends true n m ({ m with fs := s.fs }.setInode ino { inode with tree := some s.tree }) :=
    ⟨hs, .setInode fun hidx => ⟨inode, hino, hidx⟩⟩
  cases ht : inode.tree with
  | none =>
    have hrun : onTree ino op m = (.error noBlockManager, m) := by
      unfold onTree
      rw [hino]
      dsimp only
      rw [ht]
    refine .intro (fun a m' h' => ?_) fun e m' h' => ?_
    · rw [hrun] at h'
      cases h'
    · rw [hrun] at h'
      cases h'
      exact mono zero_le (Spends.refl m)
  | some tree =>
    refine (onTree_ends hino ht (h tree ht)).mono (fun a m' hm' => ?_) fun _ m' hm' => ?_
    · obtain ⟨s, rfl, hspend, hP⟩ := hm'
      exact ⟨hsame s hspend, s.tree, setInode_self _ _ _, hP⟩
    · obtain ⟨s, rfl, hspend⟩ := hm'
      exact hsame s hspend

theorem prepareWrite_spends {offset stop : Nat}
    (htree : ∀ tree, inode.tree = some tree → tree.Slack ∧ (stop + 4095) / 4096 = offset / 4096 + 1)
    (hw : m.fs.Narrow48) :
    (prepareWrite cfg ino offset stop).Ends m
      (fun _ m' => Spends true 0 m m' ∧ ∃ tree, m'.inodes ino = some { inode with tree := some tree } ∧
        tree.Pending (offset / 4096))
      fun _ m' => Spends true 0 m m' := by
  refine .bind_of_eq (readInode_ok hino) ?_
  dsimp only
  split
  · exact .fail (refl m)
  next hrange =>
    have hread : ReadOnly (Op.when (inode.desc.size < stop) do
        ensureSizeWithinLimit ino stop
        resizePageCache ino stop inode.desc.size) := by
      refine .when fun _ => .bind ?_ fun _ => resizePageCache_readOnly ino stop _
      refine .bind (readInode_readOnly ino) fun inode => ?_
      dsimp only
      generalize (if inode.desc.type = .file then (2 ^ 32 - 1) * 4096 else 2 ^ 32 - 1) = max
      split
      · exact .fail _
      · exact .ret ()
    refine (hread.ends m).bindOr (fun _ _ h => by
      rw [h]
      exact Spends.refl m) fun _ m1 h1 => ?_
    obtain rfl := h1.symm
    refine onTree_spends hino fun tree ht => ?_
    obtain ⟨hslack, hone⟩ := htree tree ht
    rw [hone] at hrange ⊢
    exact ensureAllocated_pending hslack hw (not_le.mp fun h => hrange (.inr h))

theorem markWritten_spends {b : Nat} (htree : inode.tree = some tree)
    (hpend : tree.Pending b) (csumSeed : Option UInt32) :
    (onTree ino (markRangeWritten cfg.geometry csumSeed b (b + 1))).Ends m
      (fun _ m' => Spends true 0 m m') fun _ _ => False := by
  have hmark := markRangeWritten_pending (s := ⟨tree, m.fs⟩) hpend cfg.geometry csumSeed
  refine (onTree_ends hino htree hmark).mono (fun _ m' h => ?_) fun _ m' h => h.elim fun _ h => h.2
  obtain ⟨s, rfl, hfs⟩ := h
  refine ⟨?_, .setInode fun hidx => ⟨inode, hino, hidx⟩⟩
  change m.fs.Spends true 0 s.fs
  rw [hfs]
  exact refl m.fs

theorem growDirBlock_spends
    (htree : ∀ tree, inode.tree = some tree → tree.Slack ∧ inode.desc.size % 4096 = 0) (hw : m.fs.Narrow48) :
    (growDirBlock cfg ino).Leaves m (Spends true 0 m) := by
  refine .bind_of_eq (readInode_ok hino) ?_
  split
  · exact .fail (refl m)
  dsimp only
  refine (prepareWrite_spends cfg hino (fun tree ht => ?_) hw).bind fun _ m1 h1 => ?_
  · obtain ⟨hslack, hsize⟩ := htree tree ht
    exact ⟨hslack, by omega⟩
  obtain ⟨hspend, tree1, hino1, hpend⟩ := h1
  refine Op.Ends.bind (Q := fun _ m2 => Spends true 0 m m2 ∧ ∃ inode2, m2.inodes ino = some inode2 ∧
      inode2.tree = some tree1) ?_ fun _ m2 h2 => ?_
  · refine .bind_of_eq (readInode_ok hino1) (.bind_of_eq rfl (.modify ⟨?_, ?_⟩))
    · refine Graded.trans hspend (.mapInode m1 ino fun _ h => ?_)
      exact h
    · exact ⟨_, mapInode_some hino1, rfl⟩
  · obtain ⟨hspend2, inode2, hino2, htree2⟩ := h2
    refine Op.Ends.bind (Q := fun res m3 => res = .ok () ∧ Spends true 0 m m3) (.attempt ?_)
      fun res m3 h3 => ?_
    · exact (markWritten_spends cfg hino2 htree2 hpend _).mono
        (fun _ _ h => ⟨rfl, Graded.trans hspend2 h⟩) fun _ _ h => h.elim
    · obtain ⟨rfl, hspend3⟩ := h3
      refine .bind_modify (.ret (Graded.trans hspend3 (.mapInode m3 ino fun _ h => ?_)))
      exact h

end

theorem findOrGrow_spends {nameLen : Nat} (hexp : m.Expandable ino nameLen) (hw : m.fs.Narrow48) :
    (findOrGrow cfg ino nameLen).Leaves m (Spends true 0 m) := by
  refine Op.Ends.bind (Q := fun found m' => m' = m ∧ ∃ inode, m.inodes ino = some inode ∧
      inode.directory.findDirSlot nameLen = .ok found) ?_ fun found m' h => ?_
  · refine (readInode_ends m ino).bindOr (fun _ _ h => by rw [h]; exact Spends.refl m)
      fun inode m' h => ?_
    obtain ⟨rfl, hino⟩ := h
    split
    · exact .fail (refl m')
    · exact .ofExcept (fun found hfound => ⟨rfl, inode, hino, hfound⟩) fun _ _ => refl m'
  · obtain ⟨rfl, inode, hino, hfound⟩ := h
    cases found with
    | some slot => exact .ret (refl m')
    | none => exact growDirBlock_spends cfg hino (fun tree ht => hexp inode tree hino hfound ht) hw

end Growth

section Create

variable {m : Mount} {ino : Nat} {inode : Inode} (cfg : Config) {desc : InodeDesc} {flags : Nat}

structure Blank (m : Mount) (ino : Nat) (inode : Inode) : Prop where
  cached : m.inodes ino = some inode
  size : inode.desc.size = 0
  root : ∀ tree, inode.tree = some tree → tree.root = ExtentTree.empty.root

theorem slack_of_root (h : tree.root = ExtentTree.empty.root) : tree.Slack := by
  obtain ⟨extents, hlen, hholds, hall⟩ := ExtentTree.slack_empty
  exact ⟨extents, hlen, by rw [h]; exact hholds, hall⟩

theorem treeOf_root (h : treeOf desc = .ok (some tree)) :
    tree.root = desc.block := by
  unfold treeOf at h
  dsimp only at h
  cases hheader : ExtentHeader.tryFrom (.read desc.block) with
  | error e =>
    rw [hheader] at h
    split at h
    · cases h
    · cases h
    · split at h <;> cases h
    · cases h
  | ok header =>
    rw [hheader] at h
    split at h
    · cases h
      rfl
    · cases h
      rfl
    · split at h
      · cases h
      · cases h
        rfl
    · cases h

theorem newInode_blank (h : newInode cfg ino desc = .ok inode) :
    inode.desc = desc ∧ ∀ tree, inode.tree = some tree → tree.root = desc.block := by
  unfold newInode at h
  cases htree : treeOf desc with
  | error e =>
    rw [htree] at h
    cases h
  | ok tree =>
    rw [htree] at h
    cases h
    refine ⟨rfl, fun tree' ht => treeOf_root ?_⟩
    rw [htree]
    exact congrArg Except.ok ht

theorem InodeDesc.new_unindexed (type : InodeType) (perm uid gid linkCount generation : Nat) (now : Duration)
    (seed : InodeDesc.Seed) :
    (InodeDesc.new type perm uid gid linkCount generation now seed).flags &&& index = 0 := by
  cases seed with
  | extentRoot =>
    change extents &&& index = 0
    decide
  | device block => exact Nat.zero_and _
  | nothing => exact Nat.zero_and _

theorem createInode_spends (parentIno : Nat) (type : InodeType) (by_ : Creator) (seed : InodeDesc.Seed) :
    (createInode cfg parentIno type by_ seed).Ends m
      (fun ino m' => Spends true 4 m m' ∧ (seed = .extentRoot → ∃ inode, m'.Blank ino inode))
      fun _ m' => Spends true 4 m m' := by
  have halloc := onFs_costs (Fs.allocIno_spends cfg.geometry parentIno type)
  refine (halloc.ends m).bindOr (fun _ _ h => mono (by decide) h) fun ino m1 h1 => ?_
  refine .bind_get (.bind_modify ?_)
  have hcount : Spends true 0 m1 { m1 with nextGeneration := m1.nextGeneration + 1 } :=
    ⟨refl m1.fs, .of_inodes rfl⟩
  have hstart : Spends true 2 m { m1 with nextGeneration := m1.nextGeneration + 1 } := Graded.trans h1 hcount
  have hundo (e : Fault) (m2 : Mount) (h2 : Spends true 3 m m2) : (do
      let _ ← Op.attempt (onFs (Fs.freeInode cfg.geometry ino type))
      Op.fail e : MountOp Nat).Ends m2
        (fun ino m' => Spends true 4 m m' ∧ (seed = .extentRoot → ∃ inode, m'.Blank ino inode))
        fun _ m' => Spends true 4 m m' := by
    have hfree : Costs (Spends true) 1 (onFs (Fs.freeInode cfg.geometry ino type)) :=
      onFs_costs (Fs.freeInode_spends cfg.geometry ino type)
    refine Op.Ends.bind (Q := fun _ m3 => Spends true 4 m m3) ?_ fun _ _ h => .fail h
    exact (hfree.attempt.ends m2).both fun _ h => Graded.trans h2 h
  have hwrite (desc : InodeDesc) : Costs (Spends true) 1
      (onFs (Fs.writeNewInodeDesc cfg.table cfg.geometry ino desc)) :=
    onFs_costs (Fs.writeNewInodeDesc_costs cfg.table cfg.geometry ino desc)
  refine Op.Ends.bind (Q := fun _ m2 => Spends true 3 m m2) ?_ fun res m2 h2 => ?_
  · exact ((hwrite _).attempt.ends _).mono (fun _ _ h => Graded.trans hstart h)
      fun _ _ h => mono (by decide) (Graded.trans hstart h)
  cases res with
  | error e => exact hundo e m2 h2
  | ok _ =>
    dsimp only
    split
    · exact hundo _ m2 h2
    next inode hnew =>
      obtain ⟨hdesc, htree⟩ := newInode_blank cfg hnew
      refine .bind_modify (.ret ⟨?_, fun hseed => ⟨inode, setInode_self _ _ _, ?_, ?_⟩⟩)
      · refine mono (by decide) (Graded.trans h2 (n := 0) ⟨refl m2.fs, .setInode fun hidx => ?_⟩)
        rw [Inode.hasIndex, hdesc, InodeDesc.new_unindexed] at hidx
        cases hidx
      · rw [hdesc]
        rfl
      · intro tree ht
        rw [htree tree ht, hseed]
        rfl

theorem makeEmpty_spends (h : m.Blank ino inode) (hw : m.fs.Narrow48) (parentIno : Nat) :
    (makeEmpty cfg ino parentIno).Leaves m (Spends true 1 m) := by
  have hgrow := growDirBlock_spends cfg h.cached
    (fun tree ht => ⟨slack_of_root (h.root tree ht), by rw [h.size]⟩) hw
  refine bind_leaves (i := 0) (j := 1) hgrow fun slot => ?_
  exact .after (editDirectory_costs ino _) fun _ => journalDirBlock_costs cfg ino 0

theorem truncateEmpty_same {s : TreeFs} (h : s.tree.root = ExtentTree.empty.root) (newSize : Nat) :
    (Ext4.truncateToByteLen g csumSeed policy newSize).Ends s (fun _ s' => s'.fs = s.fs) fun _ _ => False := by
  have hholds : Holds (extentCell 60) 0 s.tree.root [] := by
    rw [h]
    exact holds_inlineLeafRoot (fun _ h => absurd h List.not_mem_nil) (by decide)
  refine Op.Ends.bind (Q := fun _ s' => s'.fs = s.fs) ?_ fun _ _ h => .ret h
  refine .bind_of_eq (flatten_inline (by decide) hholds) (.bind_get ?_)
  have hsort : sortByBlock [] = [] := List.mergeSort_nil
  have hdoomed : sortDescending [] = [] := List.mergeSort_nil
  have hshrink : (shrinkTree g csumSeed [] [] 0).Ends s (fun _ s' => s'.fs = s.fs) fun _ _ => False := by
    unfold shrinkTree
    rw [hsort]
    exact .bind_of_eq (reserialize_inline_eq zero_le) (.modify rfl)
  simp only [hsort, List.filter_nil, hdoomed, List.find?_nil]
  rw [if_neg (by simp)]
  refine .bind_of_eq rfl (.bind_of_eq rfl ?_)
  exact hshrink.bind fun _ s' h' => .bind_get (.ret h')

theorem truncateBlank_spends (h : m.Blank ino inode) (newSize : Nat) :
    (truncateToByteLen cfg ino newSize).Leaves m (Spends true 0 m) := by
  refine .bind_of_eq (readInode_ok h.cached) ?_
  refine (onTree_spends (n := 0) (P := fun _ _ => True) h.cached fun tree ht => ?_).mono (fun _ _ h => h.1)
    fun _ _ h => h
  refine (truncateEmpty_same (h.root tree ht) newSize).mono
    (fun _ s hs => ⟨?_, trivial⟩) fun _ _ h => h.elim
  rw [hs]
  exact refl m.fs

theorem Blank.tree_slack (h : m.Blank ino inode) (ht : inode.tree = some tree) :
    tree.Slack := slack_of_root (h.root tree ht)

theorem hasIndex_clear {bits : Nat} (h : (flags ^^^ (flags &&& bits)) &&& index ≠ 0) :
    flags &&& index ≠ 0 := by
  intro hzero
  apply h
  rw [Nat.and_xor_distrib_right, Nat.and_right_comm, hzero, Nat.zero_and, Nat.xor_self]

theorem hasIndex_extents (h : (flags ||| extents) &&& index ≠ 0) :
    flags &&& index ≠ 0 := by
  have hapart : extents &&& index = 0 := by decide
  rwa [Nat.and_or_distrib_right, hapart, Nat.or_zero] at h

theorem writeLink_spends (h : m.Blank ino inode) (hw : m.fs.Narrow48) {target : List UInt8}
    (hlen : target.length < 4096) :
    (writeLink cfg ino target).Leaves m (Spends true 0 m) := by
  refine .bind_of_eq (readInode_ok h.cached) ?_
  split
  · refine Op.Ends.bind (Q := fun _ m1 => Spends true 0 m m1) ?_ fun _ m1 h1 => ?_
    · exact .when (fun _ => truncateBlank_spends cfg h 0) fun _ => Spends.refl m
    · refine .bind_modify (.ret (Graded.trans h1 (.mapInode m1 ino fun inode hidx => ?_)))
      exact decide_eq_true (hasIndex_clear (of_decide_eq_true hidx))
  next hslow =>
    unfold maxFastSymlinkLen at hslow
    have hblocks : (target.length + 4095) / 4096 = 0 / 4096 + 1 := by omega
    refine Op.Ends.bind (Q := fun _ m1 => Spends true 0 m m1 ∧ ∃ inode1, m1.inodes ino = some inode1 ∧
        ∀ tree, inode1.tree = some tree → tree.Slack) ?_ fun _ m1 h1 => ?_
    · refine .when (fun _ => .modify ⟨.mapInode m ino fun inode hidx => ?_, ?_⟩) fun _ => ?_
      · exact decide_eq_true (hasIndex_extents (of_decide_eq_true hidx))
      · refine ⟨_, mapInode_some h.cached, fun tree ht => ?_⟩
        cases ht
        exact ExtentTree.slack_empty
      · exact ⟨Spends.refl m, inode, h.cached, fun tree ht => h.tree_slack ht⟩
    obtain ⟨hspend1, inode1, hino1, hslack1⟩ := h1
    have hw1 : m1.fs.Narrow48 := hspend1.fs.sites.narrow48 hw
    refine Op.Ends.bind (Q := fun _ m2 => Spends true 0 m m2 ∧ ∃ tree, m2.inodes ino =
        some { inode1 with tree := some tree } ∧ tree.Pending 0) ?_ fun _ m2 h2 => ?_
    · exact (prepareWrite_spends cfg hino1 (fun tree ht => ⟨hslack1 tree ht, hblocks⟩) hw1).mono
        (fun _ _ h => ⟨Graded.trans hspend1 h.1, h.2⟩) fun _ _ h => Graded.trans hspend1 h
    obtain ⟨hspend2, tree2, hino2, hpend⟩ := h2
    refine .bind_modify ?_
    have hpages {f : Inode → Inode} (hf : ∀ inode, (f inode).desc = inode.desc) :
        Spends true 0 m (m2.mapInode ino f) :=
      Graded.trans hspend2 (.mapInode m2 ino fun inode h => by rwa [Inode.hasIndex, hf] at h)
    rw [hblocks]
    refine Op.Ends.bind (Q := fun _ m4 => Spends true 0 m m4) ?_ fun _ m4 h4 => ?_
    · refine (markWritten_spends cfg (mapInode_some hino2) rfl hpend _).mono (fun _ _ h => ?_)
        fun _ _ h => h.elim
      refine Graded.trans (hpages ?_) h
      exact fun _ => rfl
    refine .bind_modify (.ret (Graded.trans h4 (.mapInode m4 ino fun _ h => ?_)))
    exact h

theorem registerOrderedData_costs {alloc : Bool} (len : Nat) :
    Costs (Spends alloc) 0 (registerOrderedData ino len) :=
  onFs_costs (Fs.costs_of (Fs.registerOrderedData_still ino len) (Fs.registerOrderedData_tints ino len)
    (le_of_eq Finset.card_empty))

theorem createWithSeedAndInit_spends (hexp : m.Expandable parentIno name.length) (hw : m.fs.Narrow48)
    {type : InodeType} (by_ : Creator) {seed : InodeDesc.Seed} {initChild : Nat → MountOp Unit}
    (hseed : type = .dir → seed = .extentRoot)
    (hinit : type ≠ .dir → ∀ child m', (seed = .extentRoot → ∃ inode, m'.Blank child inode) → m'.fs.Narrow48 →
      (initChild child).Leaves m' (Spends true 1 m')) :
    (createWithSeedAndInit cfg parentIno name type by_ seed initChild).Leaves m (Spends true 8 m) := by
  refine Op.Ends.bind (Q := fun _ m1 => Spends true 0 m m1) ((findOrGrow_spends cfg hexp hw).mono
    (fun _ _ h => h) fun _ _ h => mono zero_le h) fun slot m1 h1 => ?_
  refine Op.Ends.bind (Q := fun child m2 => Spends true 4 m m2 ∧ (seed = .extentRoot → ∃ inode, m2.Blank child inode))
    ((createInode_spends cfg parentIno type by_ seed).mono (fun _ _ h => ⟨Graded.trans h1 h.1, h.2⟩)
      fun _ _ h => mono (by decide) (Graded.trans h1 h)) fun child m2 h2 => ?_
  obtain ⟨hspend2, hblank⟩ := h2
  have hw2 : m2.fs.Narrow48 := hspend2.fs.sites.narrow48 hw
  have hfill : (fillChild cfg parentIno type initChild child).Leaves m2 (Spends true 1 m2) := by
    unfold fillChild
    split
    next hdir =>
      obtain ⟨inode, hchild⟩ := hblank (hseed hdir)
      exact makeEmpty_spends cfg hchild hw2 parentIno
    next hdir => exact hinit hdir child m2 hblank hw2
  have hentry : (do
      fillChild cfg parentIno type initChild child
      addEntry cfg parentIno slot name child (.ofType type)).Leaves m2 (Spends true 2 m2) :=
    bind_leaves (i := 1) (j := 1) hfill fun _ => addEntry_costs cfg parentIno slot name child _
  refine Op.Ends.bind (Q := fun _ m3 => Spends true 6 m m3) (.attempt (hentry.both fun _ h => Graded.trans hspend2 h)) fun res m3 h3 => ?_
  have hlift {α : Type} {op : MountOp α} (hop : Costs (Spends true) 2 op) :
      op.Leaves m3 (Spends true 8 m) :=
    (hop.ends m3).both fun _ h => Graded.trans h3 h
  cases res with
  | error e =>
    refine hlift ?_
    exact .after (updateDesc_costs child fun _ => rfl) fun _ => (Costs.fail e).le zero_le
  | ok _ =>
    refine hlift ?_
    refine .after (.when (updateDesc_costs parentIno fun _ => rfl)) fun _ => ?_
    refine .after (updateDesc_costs parentIno fun _ => rfl) fun _ => ?_
    refine Costs.bind (i := 1) (j := 1) (writeBackJournaled_costs cfg parentIno) fun _ => ?_
    exact .before (writeBackJournaled_costs cfg child) fun _ => .ret child

end Create

section Names

variable {m : Mount} (cfg : Config) {ino : Nat} {plan : RenamePlan}

theorem link_spends (hexp : m.Expandable parentIno name.length) (hw : m.fs.Narrow48) (old : Nat) (now : Duration) :
    (link cfg parentIno old name now).Leaves m (Spends true 3 m) := by
  have hstart : Spends true 3 m m := mono zero_le (Spends.refl m)
  refine (readInode_ends m old).bindOr (fun _ _ h => by rw [h]; exact hstart)
    fun inode m1 h1 => ?_
  obtain ⟨rfl, -⟩ := h1
  split
  · exact .fail hstart
  refine bind_leaves (i := 0) (j := 3) (findOrGrow_spends cfg hexp hw) fun slot => ?_
  refine Costs.bind (i := 1) (j := 2) (addEntry_costs cfg _ _ _ _ _) fun _ => ?_
  refine .after (updateDesc_costs _ fun _ => rfl) fun _ => ?_
  refine Costs.bind (i := 1) (j := 1) (writeBackJournaled_costs cfg _) fun _ => ?_
  refine .after (updateDesc_costs _ fun _ => rfl) fun _ => ?_
  exact .after (updateDesc_costs _ fun _ => rfl) fun _ => writeBackJournaled_costs cfg _

section

variable (parentIno : Nat) (name : Name) (now : Duration)

theorem unlink_costs :
    Costs (Spends false) 4 (unlink cfg parentIno name now) := by
  refine .after (readOnly_costs (findEntryInfo_readOnly _ _ _)) fun info => ?_
  refine .after (readOnly_costs (readInode_readOnly _)) fun child => ?_
  split
  · exact (Costs.fail _).le zero_le
  refine Costs.bind (i := 1) (j := 3) (deleteEntry_costs cfg _ _) fun _ => ?_
  refine .after (updateDesc_costs _ fun _ => rfl) fun _ => ?_
  refine .after (updateDesc_costs _ fun _ => rfl) fun _ => ?_
  refine .after (updateDesc_costs _ fun _ => rfl) fun _ => ?_
  refine Costs.bind (i := 2) (j := 1) (orphanIfUnlinked_costs cfg _) fun gone => ?_
  split
  · exact (Costs.ret ()).le zero_le
  · exact writeBackJournaled_costs cfg _

theorem rmdir_costs :
    Costs (Spends false) 4 (rmdir cfg parentIno name now) := by
  refine .after (readOnly_costs (findEntryInfo_readOnly _ _ _)) fun info => ?_
  refine .after (readOnly_costs (readInode_readOnly _)) fun child => ?_
  split
  · exact (Costs.fail _).le zero_le
  refine .after (readOnly_costs (emptyDir_readOnly _)) fun empty => ?_
  split
  · exact (Costs.fail _).le zero_le
  refine .after (updateDesc_costs _ fun _ => rfl) fun _ => ?_
  refine .after (updateDesc_costs _ fun _ => rfl) fun _ => ?_
  refine Costs.bind (i := 2) (j := 2) (orphanIfUnlinked_costs cfg _) fun _ => ?_
  refine Costs.bind (i := 1) (j := 1) (deleteEntry_costs cfg _ _) fun _ => ?_
  refine .after (updateDesc_costs _ fun _ => rfl) fun _ => ?_
  exact .after (updateDesc_costs _ fun _ => rfl) fun _ => writeBackJournaled_costs cfg _

end

def Linear (cfg : Config) (m : Mount) (ino : Nat) : Prop :=
  ∀ inode, m.inodes ino = some inode → ¬(inode.hasIndex = true ∧ cfg.dx.isSome = true)

theorem Linear.of_indexes (h : Linear cfg m ino) (hidx : m.Indexes m') :
    Linear cfg m' ino := by
  intro inode' hino' hboth
  obtain ⟨inode, hino, hindex⟩ := hidx ino inode' hino' hboth.1
  exact h inode hino ⟨hindex, hboth.2⟩

theorem degradeIfIndexed_same (h : Linear cfg m ino) :
    (degradeIfIndexed cfg ino).Leaves m fun m' => m' = m := by
  refine (readInode_ends m ino).bind fun inode m' h' => ?_
  obtain ⟨rfl, hino⟩ := h'
  rw [if_neg (h inode hino)]
  exact .ret rfl

section

variable (hlin : Linear cfg m r.target) (hexp : m.Expandable r.target r.newName.length) (hw : m.fs.Narrow48)

include hlin hexp hw

theorem enterNewName_spends (plan : RenamePlan) :
    (enterNewName cfg r plan).Leaves m (Spends true 1 m) := by
  unfold enterNewName
  dsimp only
  split
  · refine ends (.after (readOnly_costs (findEntryInfo_readOnly _ _ _)) fun _ => ?_) m
    exact setEntryTarget_costs cfg _ _ _ _
  · refine (degradeIfIndexed_same cfg hlin).bindOr (fun _ _ h => by
      rw [h]
      exact mono zero_le (Spends.refl m)) fun _ m1 h1 => ?_
    rw [h1]
    exact bind_leaves (i := 0) (j := 1) (findOrGrow_spends cfg hexp hw) fun slot => addEntry_costs cfg _ _ _ _ _

theorem renameEntries_spends (plan : RenamePlan) :
    (renameEntries cfg r plan).Leaves m (Spends true 4 m) := by
  have henter := enterNewName_spends cfg hlin hexp hw plan
  unfold renameEntries
  split
  · refine bind_leaves (i := 1) (j := 3) henter fun _ => ?_
    refine .after (readOnly_costs (findEntryInfo_readOnly _ _ _)) fun oldInfo => ?_
    refine Costs.bind (i := 1) (j := 2) (deleteEntry_costs cfg _ _) fun _ => ?_
    refine .after (.when (updateDesc_costs _ fun _ => rfl)) fun _ => ?_
    refine .after (updateDesc_costs _ fun _ => rfl) fun _ => ?_
    exact (writeBackJournaled_costs cfg _).le (by decide)
  · refine bind_leaves (i := 1) (j := 3) henter fun _ => ?_
    refine .after (.when (updateDesc_costs _ fun _ => rfl)) fun _ => ?_
    refine .after (updateDesc_costs _ fun _ => rfl) fun _ => ?_
    refine Costs.bind (i := 1) (j := 2) (writeBackJournaled_costs cfg _) fun _ => ?_
    refine Costs.bind (i := 1) (j := 1) (deleteEntry_costs cfg _ _) fun _ => ?_
    refine .after (.when (updateDesc_costs _ fun _ => rfl)) fun _ => ?_
    exact .after (updateDesc_costs _ fun _ => rfl) fun _ => writeBackJournaled_costs cfg _

end

theorem dropReplaced_costs (r : Renaming) (plan : RenamePlan) :
    Costs (Spends true) 2 (dropReplaced cfg r plan) := by
  unfold dropReplaced
  cases plan.replaced with
  | none => exact (Costs.ret ()).le zero_le
  | some replaced =>
    refine .after (updateDesc_costs _ fun _ => rfl) fun _ => ?_
    refine .after (.when (updateDesc_costs _ fun _ => rfl)) fun _ => ?_
    refine .after (updateDesc_costs _ fun _ => rfl) fun _ => ?_
    exact .before (orphanIfUnlinked_costs cfg replaced) fun _ => .ret ()

theorem repointDotDot_spends (r : Renaming) (hlin : Linear cfg m plan.oldInfo.ino) :
    (repointDotDot cfg r plan).Leaves m (Spends true 2 m) := by
  have hset : (setDotDot cfg plan.oldInfo.ino r.target).Leaves m (Spends true 1 m) := by
    refine (degradeIfIndexed_same cfg hlin).bindOr (fun _ _ h => by
      rw [h]
      exact mono zero_le (Spends.refl m)) fun _ m1 h1 => ?_
    rw [h1]
    refine ends (.after (readOnly_costs (findEntryInfo_readOnly _ _ _)) fun _ => ?_) m
    exact setEntryTarget_costs cfg _ _ _ _
  unfold repointDotDot
  dsimp only
  refine bind_leaves (i := 1) (j := 1) (.when (fun _ => hset) fun _ => ?_) fun _ => ?_
  · exact mono zero_le (Spends.refl m)
  · refine .after (updateDesc_costs _ fun desc => ?_) fun _ => writeBackJournaled_costs cfg _
    split <;> rfl

theorem applyDirMutations_spends (htarget : Linear cfg m r.target) (hmoved : Linear cfg m plan.oldInfo.ino)
    (hexp : m.Expandable r.target r.newName.length) (hw : m.fs.Narrow48) :
    (applyDirMutations cfg r plan).Leaves m (Spends true 8 m) := by
  have hentries : (renameEntries cfg r plan).Ends m
      (fun _ m' => Spends true 4 m m' ∧ Linear cfg m' plan.oldInfo.ino) fun _ m' => Spends true 4 m m' :=
    (renameEntries_spends cfg htarget hexp hw plan).mono
      (fun _ _ h => ⟨h, hmoved.of_indexes cfg h.indexes⟩) fun _ _ h => h
  refine bind_ends (i := 4) (j := 4) hentries fun _ m1 hlin1 => ?_
  have hdrop : (dropReplaced cfg r plan).Ends m1
      (fun _ m' => Spends true 2 m1 m' ∧ Linear cfg m' plan.oldInfo.ino) fun _ m' => Spends true 2 m1 m' :=
    ((dropReplaced_costs cfg r plan).ends m1).mono
      (fun _ _ h => ⟨h, hlin1.of_indexes cfg h.indexes⟩) fun _ _ h => h
  exact bind_ends (i := 2) (j := 2) hdrop fun _ m2 hlin2 => repointDotDot_spends cfg r hlin2

end Names

end Mount

namespace Fs

variable {fs : Fs}

def dirDepthCeil : Nat := 2

def createCredits (fs : Fs) : Nat :=
  let newInode := 1 + inodeDescCredits + 1 + superblockCredits
  let parent := fs.singleBlockMapCredits dirDepthCeil + inodeDescCredits
  newInode + parent

def unlinkCredits : Nat := 1 + inodeDescCredits + inodeDescCredits + superblockCredits

def linkCredits (fs : Fs) : Nat :=
  fs.singleBlockMapCredits dirDepthCeil + inodeDescCredits + inodeDescCredits

def renameCredits (fs : Fs) : Nat :=
  let oldDir := 1 + inodeDescCredits
  let newDir := fs.singleBlockMapCredits dirDepthCeil + inodeDescCredits
  let moved := inodeDescCredits
  let displaced := inodeDescCredits + superblockCredits
  oldDir + newDir + moved + displaced

structure Compact (fs : Fs) : Prop where
  few : fs.sb.nrBlockGroups ≤ 7
  whole : fs.sb.descSize ∣ 4096
  descs : ∃ base, base % 4096 = 0 ∧ ∀ idx < fs.sb.nrBlockGroups,
    (fs.groups idx).descOffset = base + idx * fs.sb.descSize
  narrow : fs.Narrow48

theorem Compact.descBlocks (h : fs.Compact) :
    ((range fs.sb.nrBlockGroups).image fun idx => (fs.groups idx).layout.descOffset / 4096).card ≤
      fs.nrGdtBlocks := by
  obtain ⟨base, hbase, hoff⟩ := h.descs
  obtain ⟨k, hk⟩ := h.whole
  have hds : 0 < fs.sb.descSize := pos_of_ne_zero fun h0 => by simp [h0] at hk
  have hkpos : 0 < k := pos_of_ne_zero fun h0 => by simp [h0] at hk
  have hper : max (4096 / fs.sb.descSize) 1 = k := by
    rw [hk, Nat.mul_div_cancel_left k hds]
    omega
  have hsub : ((range fs.sb.nrBlockGroups).image fun idx => (fs.groups idx).layout.descOffset / 4096) ⊆
      (range fs.nrGdtBlocks).image fun i => base / 4096 + i := by
    intro b hb
    obtain ⟨idx, hidx, rfl⟩ := mem_image.mp hb
    have hlt := mem_range.mp hidx
    refine mem_image.mpr ⟨idx / k, mem_range.mpr ?_, ?_⟩
    · unfold nrGdtBlocks
      dsimp only
      rw [hper]
      calc idx / k < (idx + k) / k := by rw [Nat.add_div_right idx hkpos]; exact Nat.lt_succ_self _
        _ ≤ (fs.sb.nrBlockGroups + k - 1) / k := Nat.div_le_div_right (by omega)
    · change _ = (fs.groups idx).descOffset / 4096
      have hquot : idx * fs.sb.descSize / 4096 = idx / k := by
        rw [hk, mul_comm idx, Nat.mul_div_mul_left idx k hds]
      rw [hoff idx hlt, ← hquot]
      omega
  exact (card_le_card hsub).trans (card_image_le.trans (card_range _).le)

theorem Compact.card_allocBids (h : fs.Compact) :
    fs.allocBids.card ≤ 1 + fs.sb.nrBlockGroups + fs.nrGdtBlocks := by
  have hbitmaps : ((range fs.sb.nrBlockGroups).image fun idx =>
      (fs.groups idx).layout.blockBitmapBid).card ≤ fs.sb.nrBlockGroups :=
    card_image_le.trans (card_range _).le
  have hdescs := h.descBlocks
  unfold allocBids
  refine (card_union_le _ _).trans ?_
  rw [card_singleton]
  have hunion := card_union_le
    ((range fs.sb.nrBlockGroups).image fun idx => (fs.groups idx).layout.blockBitmapBid)
    ((range fs.sb.nrBlockGroups).image fun idx => (fs.groups idx).layout.descOffset / 4096)
  omega

theorem nrGdtBlocks_le (fs : Fs) : fs.nrGdtBlocks ≤ fs.sb.nrBlockGroups := by
  unfold nrGdtBlocks
  dsimp only
  obtain ⟨j, hj⟩ := Nat.exists_eq_add_of_le' (le_max_right (4096 / fs.sb.descSize) 1)
  rw [hj, Nat.add_succ_sub_one]
  cases fs.sb.nrBlockGroups with
  | zero => exact le_of_eq (Nat.div_eq_of_lt (by omega))
  | succ n =>
    refine Nat.div_le_of_le_mul ?_
    rw [Nat.succ_mul, Nat.mul_succ]
    omega

end Fs

namespace Mount

variable {m : Mount} (cfg : Config)

def NsOp.credits (fs : Fs) : NsOp → Nat
  | .create _ _ type _ =>
    if type = .dir ∨ type = .symLink then fs.createCredits + fs.singleBlockMapCredits 0 else fs.createCredits
  | .symlink .. => fs.createCredits + fs.singleBlockMapCredits 0
  | .link .. => fs.linkCredits
  | .unlink .. | .rmdir .. => Fs.unlinkCredits
  | .rename _ => fs.renameCredits

def NsOp.Frugal (cfg : Config) (m : Mount) : NsOp → Prop
  | .create parent name _ _ | .symlink parent name _ _ | .link parent _ name _ =>
    m.fs.Compact ∧ m.Expandable parent name.length
  | .unlink .. | .rmdir .. => True
  | .rename r => m.fs.Compact ∧ m.Expandable r.target r.newName.length ∧ Linear cfg m r.target ∧
    ∀ info, findEntryInfo r.source r.oldName cfg.dx m = (.ok info, m) → Linear cfg m info.ino

def CapturesAtMost (n : Nat) (m m' : Mount) : Prop :=
  ∃ X : Finset Nat, X.card ≤ n ∧ ∀ b, m'.fs.captured b = true → m.fs.captured b = true ∨ b ∈ X

theorem Spends.capturesAtMost {k : Nat} (h : Spends true n m m') (hc : m.fs.Compact)
    (hle : 1 + m.fs.sb.nrBlockGroups + m.fs.nrGdtBlocks + n ≤ k) : CapturesAtMost k m m' := by
  obtain ⟨X, hX, hadds⟩ := h.fs.captures
  refine ⟨m.fs.allocBids ∪ X, ?_, hadds⟩
  have hcard := card_union_le m.fs.allocBids X
  have halloc := hc.card_allocBids
  omega

theorem Spends.capturesAtMost_plain (h : Spends false n m m') : CapturesAtMost n m m' := by
  obtain ⟨X, hX, hadds⟩ := h.fs.captures
  refine ⟨X, hX, fun b hb => (hadds b hb).imp_right fun hmem => ?_⟩
  simpa using hmem

end Mount

section Bounds

variable {fs : Fs}

theorem Fs.Compact.mapCredits_eq (h : fs.Compact) :
    fs.singleBlockMapCredits Fs.dirDepthCeil = 6 + fs.sb.nrBlockGroups + fs.nrGdtBlocks := by
  have hfew := h.few
  have hgdt := fs.nrGdtBlocks_le
  change 6 + min (6 + 1) fs.sb.nrBlockGroups + min (6 + 1) fs.nrGdtBlocks = _
  omega

theorem Fs.Compact.createCredits_eq (h : fs.Compact) :
    fs.createCredits = 11 + fs.sb.nrBlockGroups + fs.nrGdtBlocks := by
  have hcreate : fs.createCredits = 4 + (fs.singleBlockMapCredits Fs.dirDepthCeil + 1) := rfl
  rw [hcreate, h.mapCredits_eq]
  omega

theorem Fs.Compact.linkCredits_eq (h : fs.Compact) :
    fs.linkCredits = 8 + fs.sb.nrBlockGroups + fs.nrGdtBlocks := by
  have hlink : fs.linkCredits = fs.singleBlockMapCredits Fs.dirDepthCeil + 1 + 1 := rfl
  rw [hlink, h.mapCredits_eq]
  omega

theorem Fs.Compact.renameCredits_eq (h : fs.Compact) :
    fs.renameCredits = 12 + fs.sb.nrBlockGroups + fs.nrGdtBlocks := by
  have hrename : fs.renameCredits = 2 + (fs.singleBlockMapCredits Fs.dirDepthCeil + 1) + 1 + 2 := rfl
  rw [hrename, h.mapCredits_eq]
  omega

end Bounds

namespace Mount

section Operations

variable {m : Mount} (cfg : Config) {parent : Nat}

section

variable (hexp : m.Expandable parent name.length) (hw : m.fs.Narrow48)
include hexp hw

theorem create_spends (type : InodeType)
    (by_ : Creator) :
    (create cfg parent name type by_).Leaves m (Spends true 8 m) := by
  unfold create
  cases hseed : createSeed type with
  | error e => exact .fail (mono zero_le (Spends.refl m))
  | ok seed =>
    refine .bind_of_eq rfl (createWithSeedAndInit_spends cfg hexp hw by_ (fun hdir => ?_) ?_)
    · rw [hdir] at hseed
      cases hseed
      rfl
    · intro _ child m' _ _
      exact .ret (mono zero_le (Spends.refl m'))

theorem createSymlink_spends (by_ : Creator)
    (target : List UInt8) :
    (createSymlink cfg parent name by_ target).Leaves m (Spends true 8 m) := by
  unfold createSymlink
  split
  · exact .fail (mono zero_le (Spends.refl m))
  next hlen =>
    refine createWithSeedAndInit_spends cfg hexp hw by_ (fun _ => rfl) fun _ child m' hblank hw' => ?_
    obtain ⟨inode, hchild⟩ := hblank rfl
    have hlink := writeLink_spends cfg hchild hw' (not_le.mp hlen)
    refine bind_leaves (i := 0) (j := 1) hlink fun slow => ?_
    exact (when (registerOrderedData_costs _)).le zero_le

end

theorem planRename_moved (r : Renaming) :
    (planRename cfg r).Ends m
      (fun plan m' => m' = m ∧ findEntryInfo r.source r.oldName cfg.dx m = (.ok plan.oldInfo, m))
      fun _ m' => m' = m := by
  have hfind : (findEntryInfo r.source r.oldName cfg.dx).Ends m
      (fun info m' => m' = m ∧ findEntryInfo r.source r.oldName cfg.dx m = (.ok info, m)) fun _ m' => m' = m := by
    have hsame := findEntryInfo_readOnly r.source r.oldName cfg.dx m
    refine .intro (fun info m' hrun => ?_) fun e m' hrun => ?_
    · rw [hrun] at hsame
      rw [hrun, hsame]
      exact ⟨rfl, rfl⟩
    · rw [hrun] at hsame
      exact hsame.symm
  refine hfind.bind fun info m1 h1 => ?_
  obtain ⟨rfl, hinfo⟩ := h1
  have hrest {α : Type} {op : MountOp α} (hop : ReadOnly op) : op.Leaves m1 fun m' => m' = m1 :=
    (hop.ends m1).both fun _ h => h
  refine (hrest (readInode_readOnly _)).bind fun old m2 h2 => ?_
  rw [h2]
  refine (hrest (resolveReplaced_readOnly cfg r)).bind fun replaced m3 h3 => ?_
  rw [h3]
  refine (hrest (validateRenameInvariants_readOnly r _)).bind fun _ m4 h4 => ?_
  rw [h4]
  exact .ret ⟨rfl, hinfo⟩

theorem rename_spends (htarget : Linear cfg m r.target)
    (hmoved : ∀ info, findEntryInfo r.source r.oldName cfg.dx m = (.ok info, m) → Linear cfg m info.ino)
    (hexp : m.Expandable r.target r.newName.length) (hw : m.fs.Narrow48) :
    (rename cfg r).Leaves m (Spends true 8 m) := by
  have hstart : Spends true 8 m m := mono zero_le (Spends.refl m)
  unfold rename
  split
  · exact .ret hstart
  refine (planRename_moved cfg r).bindOr (fun _ _ h => by rw [h]; exact hstart)
    fun plan m1 h1 => ?_
  obtain ⟨rfl, hinfo⟩ := h1
  exact applyDirMutations_spends cfg htarget (hmoved plan.oldInfo hinfo) hexp hw

theorem CapturesAtMost.card_le (h : CapturesAtMost n m m') {S : Finset Nat}
    (hS : ∀ b ∈ S, m.fs.captured b = false ∧ m'.fs.captured b = true) : S.card ≤ n := by
  obtain ⟨X, hX, hall⟩ := h
  refine (card_le_card fun b hb => ?_).trans hX
  obtain ⟨hold, hnew⟩ := hS b hb
  refine (hall b hnew).resolve_left fun hcap => ?_
  rw [hold] at hcap
  cases hcap

end Operations

def rowMount (v : Row) : Mount where
  fs := v.fs Specimen.wide
  chain := []
  inodes ino := if ino = 2 then some (sampleDir 2 2 100 2 []) else none
  nextGeneration := 1

def mkdirA : NsOp := .create 2 nameA .dir ⟨0o755, 0, 0, .zero⟩

theorem rowMount_compact {v : Row} (h : v.groups ≤ 7) : (rowMount v).fs.Compact where
  few := h
  whole := by
    change 32 ∣ 4096
    decide
  descs := by
    refine ⟨4096, rfl, fun idx _ => ?_⟩
    change 4096 + 32 * idx = 4096 + idx * 32
    omega
  narrow idx hidx := by
    change idx < v.groups at hidx
    change 128 * idx + 128 ≤ 2 ^ 48
    omega

theorem rowMount_expandable (v : Row) (nameLen : Nat) : (rowMount v).Expandable 2 nameLen := by
  intro inode tree hino _ htree
  cases hino
  cases htree
  have hvalid : Extent.Valid ⟨0, 1, 100, .written⟩ := by decide
  refine ⟨⟨[⟨0, 1, 100, .written⟩], by decide, holds_inlineLeafRoot ?_ (by decide), ?_⟩, rfl⟩
  · intro e he
    obtain rfl := List.mem_singleton.mp he
    exact hvalid.toEncodable
  · intro e he
    obtain rfl := List.mem_singleton.mp he
    exact ⟨hvalid, rfl⟩

def Row.broad : Row where
  groups := 24
  credits := 25
  groups_pos := by decide
  groups_le := by decide

end Mount

end Ext4
