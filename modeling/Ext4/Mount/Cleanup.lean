import Ext4.Mount.Sweep

namespace Ext4

open Bytes Op List Inode Fs

variable {tree : ExtentTree} {α : Type} {extents : List Extent} {external : List Nat} {fs : Fs}
  {g : JournalGeometry} {csumSeed : Option UInt32} {policy : DataForgetPolicy}

structure Planted (fs : Fs) (tree : ExtentTree) (extents : List Extent) (external : List Nat) : Prop where
  shaped : Shaped fs.image tree.root extents external
  sound : Sound extents
  ordered : Ordered extents
  owns : fs.Owns (dataBlocks extents ++ external)
  loose : fs.Loose (dataBlocks extents ++ external)
  sectors : tree.sectorCount = sectorsPerBlock * ((dataBlocks extents).length + external.length)

namespace Planted

variable {t : InodeTable} {C S : Nat → Prop} {O : List Nat} {fs fs' : Fs} {tree tree' : ExtentTree}
  {extents : List Extent} {external : List Nat}

section

variable (h : Planted fs tree extents external)

include h

theorem stands (hs : fs.Steady) : Stands ⟨tree, fs⟩ extents external :=
  ⟨hs, h.shaped, h.sound, h.ordered, h.owns, h.sectors⟩

theorem bones (hroot : tree'.root = tree.root)
    (hsectors : tree'.sectorCount = tree.sectorCount) : Planted fs tree' extents external :=
  { h with
    shaped := hroot ▸ h.shaped
    sectors := hsectors.trans h.sectors }

theorem sweeps (hs : fs.Sweeps t C S O fs')
    (hO : ∀ b ∈ dataBlocks extents ++ external, b ∉ O) : Planted fs' tree extents external where
  shaped := h.shaped.congr fun b hb => by
    have hmem := mem_append_right (dataBlocks extents) hb
    exact hs.image b (h.loose b hmem).1 (h.loose b hmem).2 (h.owns.used b hmem) (hO b hmem)
  sound := h.sound
  ordered := h.ordered
  owns :=
    { nodup := h.owns.nodup
      contains := fun b hb => (hs.contains b).mpr (h.owns.contains b hb)
      used := fun b hb => (hs.used b (h.owns.contains b hb) (hO b hb)).trans (h.owns.used b hb)
      system := fun b hb => mt (hs.system b).mp (h.owns.system b hb) }
  loose b hb := ⟨(hs.contains b).mpr (h.loose b hb).1, mt (hs.guarded b).mp (h.loose b hb).2⟩
  sectors := h.sectors

theorem bare (hkeep : ∀ x ∈ contents extents, below 0 x = true) :
    dataBlocks extents ++ external = [] := by
  have hextents : extents = [] := by
    cases extents with
    | nil => rfl
    | cons e rest =>
      have hpos := (h.sound.valid e mem_cons_self).pos
      have hmem : (e.block, e.start + (e.block - e.block), e.kind) ∈ contents (e :: rest) := by
        refine mem_contents_iff.mpr ⟨e, mem_cons_self, le_rfl, ?_, rfl, rfl⟩
        exact Nat.lt_add_of_pos_right hpos
      simpa [below] using hkeep _ hmem
  have hnodes := h.shaped.count
  rw [hextents] at hnodes
  rw [hextents, eq_nil_of_length_eq_zero hnodes]
  rfl

end

end Planted

theorem truncateChunk_dirty (s : TreeFs) (newSize : Nat) (maxCredits : Option Nat) :
    (truncateChunk g csumSeed policy newSize maxCredits).Ends s (fun _ s' => s'.tree.dirty = true)
      fun _ _ => True := by
  refine (Op.Ends.any _ s).bind fun r s1 _ => .bind_get ?_
  dsimp only
  split
  · exact .fail trivial
  refine (Op.Ends.any _ s1).bind fun k s2 _ => (Op.Ends.any _ s2).bind fun r s3 _ => ?_
  refine Op.Ends.bind (Q := fun _ s' => s'.tree.dirty = true) ?_ fun _ s4 h4 => .bind_get (.ret h4)
  exact (Op.Ends.any _ s3).bind fun delta s4 _ => .modify rfl

section Chunk

variable {t : InodeTable} {C S : Nat → Prop} {s : TreeFs} {extents : List Extent} {external : List Nat}

theorem truncateChunk_sweeps (hz : s.fs.Zoned t) (h : Planted s.fs s.tree extents external)
    (g : JournalGeometry) (csumSeed : Option UInt32) (policy : DataForgetPolicy) (newSize : Nat)
    (maxCredits : Option Nat) :
    (truncateChunk g csumSeed policy newSize maxCredits).Ends s
      (fun r s' => s.fs.Sweeps t C S (dataBlocks extents ++ external) s'.fs ∧ s'.tree.dirty = true ∧
        ∃ extents' external', Planted s'.fs s'.tree extents' external' ∧
          s'.fs.Dwindles (dataBlocks extents ++ external) (dataBlocks extents' ++ external') ∧
          (contents extents').Perm ((contents extents).filter (below (max (keepBlocks newSize) r.reached))))
      fun _ _ => True := by
  have hst := h.stands hz.steady
  have hunfunded : False → s.fs.Funds (s.fs.layout.systemBids ∪ external.toFinset) 0 := False.elim
  have hends := ((truncateChunk_ends hst hunfunded newSize maxCredits).and
    (truncateChunk_ebbs g csumSeed policy hst newSize maxCredits)).and
    ((truncateChunk_skirts g csumSeed policy hst h.loose newSize maxCredits hz).and
      (truncateChunk_dirty s newSize maxCredits))
  refine hends.mono (fun r s' hr => ?_) fun _ _ _ => trivial
  obtain ⟨⟨⟨⟨extents', external', hst', hperm, htrades⟩, -⟩, hebbs⟩, haside, hdirty⟩ := hr
  have hdwin := htrades.dwindles hebbs h.owns
  refine ⟨.of_aside hz haside hebbs.tends (fun b hb hO => ?_) fun b hg hu hO => ?_, hdirty, extents', external',
    ⟨hst'.shaped, hst'.sound, hst'.ordered, hst'.owns, ?_, hst'.sectors⟩, hdwin, hperm⟩
  · rw [htrades.used hb]
    simp [hO, mt (hdwin.subset b) hO]
  · exact htrades.image (fun hsys => hg (.inl hsys)) hu hO
  · exact Fs.Loose.aside (fun b hb => h.loose b (hdwin.subset b hb)) haside

end Chunk

def InodeDesc.Recounts (desc desc' : InodeDesc) : Prop := ∃ n, desc' = { desc with sectorCount := n }

theorem InodeDesc.Recounts.refl (desc : InodeDesc) : desc.Recounts desc := ⟨desc.sectorCount, rfl⟩

theorem InodeDesc.Recounts.trans {desc desc' desc'' : InodeDesc} (h1 : desc.Recounts desc')
    (h2 : desc'.Recounts desc'') : desc.Recounts desc'' := by
  obtain ⟨n, rfl⟩ := h1
  obtain ⟨k, rfl⟩ := h2
  exact ⟨k, rfl⟩

namespace Fs

variable {t : InodeTable} {fs : Fs}

theorem writeBackInodeDesc_still (hlive : fs.handle.isSome = true) (chain : OrphanChain)
    (ino : Nat) (desc : InodeDesc) (root : Buffer 60) :
    (writeBackInodeDesc t g chain ino desc root).Leaves fs fs.Still := by
  refine .bind_get ?_
  simp only [if_pos hlive]
  exact Keeps.ends (.bind (.ofExcept _) fun slot => capturePatch_still g _ _) fs

theorem journalPatchDtime_still (ino next : Nat) :
    Keeps Still (journalPatchDtime t g ino next) :=
  .bind .get fun _ => .bind (.ofExcept _) fun _ => capturePatch_still g _ _

end Fs

namespace Mount

variable {P C S : Nat → Prop} {O : List Nat} {m m' : Mount} {ino : Nat} {inode : Inode} (cfg : Config)

structure WrittenBack (t : InodeTable) (ino : Nat) (inode : Inode) (m m' : Mount) (inode' : Inode) : Prop where
  others : ∀ x, x ≠ ino → m'.inodes x = m.inodes x
  self : m'.inodes ino = some inode'
  desc : inode.desc.Recounts inode'.desc
  tree : inode'.tree.map ExtentTree.bones = inode.tree.map ExtentTree.bones
  slot : inode.isDirty = true → ∃ raw, m'.fs.slotImage t ino = some raw ∧ raw.rootBlock = inode.rootSnapshot

theorem WrittenBack.bones {t : InodeTable} {inode' : Inode}
    (h : WrittenBack t ino inode m m' inode') (htree : inode.tree = some tree) :
    ∃ tree', inode'.tree = some tree' ∧ tree'.root = tree.root ∧ tree'.sectorCount = tree.sectorCount := by
  have hmap := h.tree
  rw [htree] at hmap
  obtain ⟨tree', htree', hbones⟩ := Option.map_eq_some_iff.mp hmap
  exact ⟨tree', htree', congrArg Prod.fst hbones, congrArg Prod.snd hbones⟩

theorem rootBlock_capturedRaw (t : InodeTable) (ino : Nat) (next : Option (Option Nat)) (desc : InodeDesc)
    (root : Buffer 60) :
    (desc.capturedRaw t ino next root).rootBlock = root := by
  funext i
  have hbytes : slice (desc.capturedRaw t ino next root) (rawInode.offset .block) 60 = slice root 0 60 :=
    desc.bytes_capturedRaw t ino root (f := .block) (by decide) (by decide) nofun
  have hi := map_inj_left.mp hbytes i.val (mem_range.mpr i.isLt)
  rw [RawInode.rootBlock, hi]
  simp [byteAt]

theorem onFs_ends {op : FsOp α} {Q : α → Fs → Prop} {E : Fault → Fs → Prop} (h : op.Ends m.fs Q E) :
    (onFs op).Ends m (fun a m' => ∃ fs, m' = { m with fs := fs } ∧ Q a fs) fun _ _ => True :=
  .zoom (h.mono (fun _ fs hQ => ⟨fs, rfl, hQ⟩) fun _ _ _ => trivial)

theorem writeBackInodeDesc_sweeps (h : m.Listed cfg.table P) (hino : m.inodes ino = some inode) (hC : C ino)
    (hS : S ino) :
    (writeBackInodeDesc cfg ino).Ends m
      (fun _ m' => m.fs.Sweeps cfg.table C S O m'.fs ∧ ∃ inode', WrittenBack cfg.table ino inode m m' inode')
      fun _ _ => True := by
  refine .bind_of_eq (readInode_ok hino) ?_
  split
  next hclean =>
    exact .ret ⟨.refl h.zoned.tabled, inode, fun _ _ => rfl, hino, .refl _, rfl, fun hd => by
      rw [hclean] at hd
      cases hd⟩
  refine .bind_modify ?_
  refine .bind_of_eq (readInode_ok ((mapInode_self _ _ _).trans (by rw [hino]; rfl))) (.bind_get ?_)
  have hend := (writeBackInodeDesc_captures (g := cfg.geometry) h.zoned m.chain ino
    { inode.desc with sectorCount := inode.sectorCount } inode.rootSnapshot).and
    (writeBackInodeDesc_still h.zoned.live m.chain ino
      { inode.desc with sectorCount := inode.sectorCount } inode.rootSnapshot)
  refine (onFs_ends (m := m.mapInode ino (editDesc fun desc => { desc with sectorCount := inode.sectorCount }))
    hend).bind fun _ m1 h1 => ?_
  obtain ⟨fs1, rfl, ⟨slot, hslot, hread, hev⟩, hstill⟩ := h1
  refine .modify ⟨?_, (inode.editDesc fun desc => { desc with sectorCount := inode.sectorCount }).clearDirty,
    fun x hx => ?_, ?_, ⟨inode.sectorCount, rfl⟩, ?_, fun _ => ?_⟩
  · exact .captured h.zoned hslot hev hstill hread (fun b i hi => RawInode.byteAt_intoBlock _ b hi) hC
      fun hn => absurd hS hn
  · rw [mapInode_of_ne _ _ hx]
    exact mapInode_of_ne _ _ hx
  · rw [mapInode_self]
    change ((m.mapInode ino _).inodes ino).map _ = _
    rw [mapInode_self, hino]
    rfl
  · cases htree : inode.tree with
    | none => simp only [clearDirty, editDesc, htree, Option.map_none]
    | some tree => simp only [clearDirty, editDesc, htree, Option.map_some, ExtentTree.bones]
  · obtain ⟨block, hblock⟩ := hread
    refine ⟨_, ?_, rootBlock_capturedRaw cfg.table ino (m.chain.successorOf ino)
      { inode.desc with sectorCount := inode.sectorCount } inode.rootSnapshot⟩
    have hslot1 : fs1.inodeSlot cfg.table ino = .ok slot := by
      rw [inodeSlot_congr hev.layout]
      exact hslot
    change fs1.slotImage cfg.table ino = _
    rw [slotImage_ok hslot1, hev.image, patched, overlay, if_pos ⟨rfl, h.zoned.live⟩, hblock]
    exact congrArg some (RawInode.ofBlock_intoBlock _ _ (inodeSlot_fits hslot))

theorem orphanDel_sweeps (h : m.Listed cfg.table P) (hC : ∀ x ∈ m.chain, C x) (ino : Nat) :
    (orphanDel cfg ino).Ends m (fun _ m' => m.fs.Sweeps cfg.table C S O m'.fs) fun _ _ => True := by
  refine .bind_get ?_
  cases hsplice : m.chain.spliceFor ino with
  | none => exact .ret (.refl h.zoned.tabled)
  | some splice =>
    rcases OrphanChain.spliceFor_some hsplice with ⟨post, hl, rfl⟩ | ⟨pre, pred, post, hl, rfl⟩
    · refine (onFs_ends ((capturePatch_reads h.zoned.steady.ready h.zoned.live _ _).and
        ((capturePatch_still cfg.geometry _ _).ends m.fs))).bind fun _ m1 h1 => ?_
      obtain ⟨fs1, rfl, ⟨hev, -⟩, hstill⟩ := h1
      exact .bind_modify (.modify (.head h.zoned hev hstill _))
    · refine (onFs_ends ((journalPatchDtime_captures h.zoned pred _).and
        ((journalPatchDtime_still pred _).ends m.fs))).bind fun _ m1 h1 => ?_
      obtain ⟨fs1, rfl, ⟨slot, hslot, hread, hev⟩, hstill⟩ := h1
      refine .modify (.captured h.zoned hslot hev hstill hread (fun b i hi => byteAt_patchDtime _ _ _ b hi)
        (hC pred ?_) fun _ b => .patchDtime _ _ _ b (inodeSlot_fits hslot))
      rw [hl]
      simp

theorem onTree_ends {op : TreeOp α} {Q : α → TreeFs → Prop} {E : Fault → TreeFs → Prop}
    (hino : m.inodes ino = some inode) (htree : inode.tree = some tree) (h : op.Ends ⟨tree, m.fs⟩ Q E) :
    (onTree ino op).Ends m
      (fun a m' => ∃ s : TreeFs, m' = { m with fs := s.fs }.setInode ino { inode with tree := some s.tree } ∧ Q a s)
      fun e m' => ∃ s : TreeFs, m' = { m with fs := s.fs }.setInode ino { inode with tree := some s.tree } ∧
        E e s := by
  cases hop : op ⟨tree, m.fs⟩ with
  | mk r s =>
    refine .intro (fun a m' hrun => ?_) fun e m' hrun => ?_
    · simp only [onTree, hino, htree, hop] at hrun
      cases hrun
      exact ⟨s, rfl, h.of_ok hop⟩
    · simp only [onTree, hino, htree, hop] at hrun
      cases hrun
      exact ⟨s, rfl, h.of_error hop⟩

structure Thinned (t : InodeTable) (C : Nat → Prop) (ino keep : Nat) (old : List Nat) (m m' : Mount)
    (inode inode' : Inode) : Prop where
  sweeps : m.fs.Sweeps t C (· = ino) old m'.fs
  others : ∀ x, x ≠ ino → m'.inodes x = m.inodes x
  self : m'.inodes ino = some inode'
  desc : inode.desc.Recounts inode'.desc
  tree : ∃ tree extents external, inode'.tree = some tree ∧ tree.dirty = true ∧
    Planted m'.fs tree extents external ∧ m'.fs.Dwindles old (dataBlocks extents ++ external) ∧
    ∀ x ∈ contents extents, below keep x = true

theorem kept_of_planted (hz : m.fs.Steady) (hino : m.inodes ino = some inode) (htree : inode.tree = some tree)
    (h : Planted m.fs tree extents external) : m.Kept ino := by
  intro inode' tree' hino' htree'
  rw [hino] at hino'
  cases hino'
  rw [htree] at htree'
  cases htree'
  exact ⟨extents, external, h.stands hz, h.loose⟩

variable (H : Handles)

theorem restart_sweeps (h : m.Listed cfg.table P) (hp : H.Paced) (credits : Nat) :
    (onFs (H.restart credits)).Ends m
      (fun _ m' => m.fs.Sweeps cfg.table C S O m'.fs ∧ m'.Listed cfg.table P ∧ m'.chain = m.chain ∧
        m'.inodes = m.inodes) fun _ _ => True := by
  refine (onFs_ends ((H.restart_ends m.fs credits h.zoned.open).and ((hp.restart credits).ends m.fs))).mono
    (fun _ m' hm => ?_) fun _ _ _ => trivial
  obtain ⟨fs', rfl, ⟨hturns, hopen⟩, hpaces⟩ := hm
  exact ⟨.turns h.zoned.tabled hturns hpaces, Stays.listed (h.stays.turns hturns rfl) hopen, rfl, rfl⟩

theorem truncateChunks_sweeps (hp : H.Paced) (hC : C ino) (h : m.Listed cfg.table P) (hino : m.inodes ino = some inode)
    (htree : inode.tree = some tree) (hplant : Planted m.fs tree extents external) (newSize rounds : Nat) :
    (truncateChunks H cfg ino newSize rounds).Ends m
      (fun _ m' => m'.Listed cfg.table P ∧ m'.chain = m.chain ∧ ∃ inode',
        Thinned cfg.table C ino (blocksOf newSize) (dataBlocks extents ++ external) m m' inode inode')
      fun _ _ => True := by
  induction rounds generalizing m inode tree extents external with
  | zero => exact .fail trivial
  | succ rounds ih =>
    refine .bind_of_eq (readInode_ok hino) (.bind_get ?_)
    have hchunk := (truncateChunk_listed cfg h (kept_of_planted h.zoned.steady hino htree hplant) inode.csumSeed
      inode.dataForgetPolicy newSize (chunkLimit cfg m)).and
      (onTree_ends hino htree (truncateChunk_sweeps (C := C) (S := (· = ino)) (s := ⟨tree, m.fs⟩) h.zoned hplant
        cfg.geometry inode.csumSeed inode.dataForgetPolicy newSize (chunkLimit cfg m)))
    refine hchunk.bindOr (fun _ _ _ => trivial) fun chunk m1 h1 => ?_
    obtain ⟨⟨h1, hchain1, -⟩, s, rfl, hsweep, hdirty, extents1, external1, hplant1, hdwin1, hperm⟩ := h1
    split
    next hlast =>
      refine .ret ⟨h1, hchain1, { inode with tree := some s.tree }, hsweep,
        fun x hx => setInode_of_ne _ _ hx, setInode_self _ _ _, .refl _, s.tree, extents1, external1, rfl, hdirty,
        hplant1, hdwin1, fun x hx => ?_⟩
      have hmax : max (keepBlocks newSize) chunk.reached ≤ blocksOf newSize :=
        Nat.max_le.mpr ⟨keepBlocks_le newSize, hlast⟩
      have hx := of_mem_filter (hperm.mem_iff.mp hx)
      exact decide_eq_true (lt_of_lt_of_le (of_decide_eq_true hx) hmax)
    next hmore =>
      have hwrite := (writeBackInodeDesc_ends cfg h1 ino).and
        (writeBackInodeDesc_sweeps (S := (· = ino)) (O := []) cfg h1 (setInode_self _ _ _) hC rfl)
      refine hwrite.bindOr (fun _ _ _ => trivial) fun _ m2 h2 => ?_
      obtain ⟨⟨h2, hchain2, -⟩, hsweep2, inode2, hback⟩ := h2
      have h2 : m2.Listed cfg.table P := h2.weaken fun x _ hx => hx.1
      obtain ⟨tree2, htree2, hroot, hsectors⟩ := hback.bones rfl
      refine (restart_sweeps (C := C) (S := (· = ino)) (O := []) cfg H h2 hp _).bind fun _ m3 h3 => ?_
      obtain ⟨hsweep3, h3, hchain3, hinodes3⟩ := h3
      have hplant2 := (hplant1.sweeps hsweep2 fun b _ => not_mem_nil).bones hroot hsectors
      have hplant3 := hplant2.sweeps hsweep3 fun b _ => not_mem_nil
      have hino3 : m3.inodes ino = some inode2 := by
        rw [hinodes3]
        exact hback.self
      refine (ih h3 hino3 htree2 hplant3).mono (fun _ m4 h4 => ?_) fun _ _ h => h
      obtain ⟨h4, hchain4, inode4, hthin⟩ := h4
      have hsweep23 : s.fs.Sweeps cfg.table C (· = ino) [] m3.fs := hsweep2.trans hsweep3
      have hsub : ∀ b ∈ dataBlocks extents1 ++ external1, b ∈ dataBlocks extents ++ external := hdwin1.subset
      refine ⟨h4, hchain4.trans (hchain3.trans (hchain2.trans hchain1)), inode4, ?_, fun x hx => ?_, hthin.self, ?_, ?_⟩
      · exact (hsweep.trans (hsweep23.mono (fun _ h => h) fun b hb => absurd hb not_mem_nil)).trans
          (hthin.sweeps.mono (fun _ h => h) hsub)
      · rw [hthin.others x hx, hinodes3, hback.others x hx]
        exact setInode_of_ne _ _ hx
      · exact hback.desc.trans hthin.desc
      · obtain ⟨tree4, extents4, external4, htree4, hdirty4, hplant4, hdwin4, hkeys⟩ := hthin.tree
        refine ⟨tree4, extents4, external4, htree4, hdirty4, hplant4, ?_, hkeys⟩
        have hc : ∀ b ∈ dataBlocks extents ++ external, s.fs.layout.Contains b := fun b hb =>
          (hsweep.contains b).mpr (hplant.owns.contains b hb)
        refine hdwin1.trans ((hsweep23.mono (fun _ h => h) fun b hb => absurd hb not_mem_nil).trans
          hthin.sweeps) hdwin4 hc

theorem freeInode_sweeps (h : m.Listed cfg.table P) (ino : Nat) (type : InodeType) :
    (onFs (freeInode cfg.geometry ino type)).Ends m
      (fun _ m' => m.fs.Sweeps cfg.table C (· = ino) O m'.fs ∧ m'.Listed cfg.table P ∧ m'.chain = m.chain ∧
        m'.inodes = m.inodes ∧ m'.fs.isInodeAllocated ino = false) fun _ _ => True := by
  have hend := ((freeInode_releases h.zoned.steady.ready ino type).and
    ((freeInode_tends cfg.geometry ino type).ends m.fs)).and
    (freeInode_skirts cfg.geometry ino type h.zoned)
  refine (onFs_ends hend).mono (fun _ m' hm => ?_) fun _ _ _ => trivial
  obtain ⟨fs', rfl, ⟨hrel, htends⟩, haside⟩ := hm
  refine ⟨.of_aside h.zoned haside htends (fun b _ _ => ?_) fun b hg _ _ => hrel.image b fun hsys => hg (.inl hsys),
    h.aside haside rfl, rfl, rfl, hrel.bit⟩
  change fs'.blockUsed b = _
  rw [hrel.used]

structure Finishes (t : InodeTable) (C : Nat → Prop) (ino : Nat) (old : List Nat) (m m' : Mount) : Prop where
  sweeps : m.fs.Sweeps t C (· = ino) old m'.fs
  others : ∀ x, x ≠ ino → m'.inodes x = m.inodes x
  chain : m'.chain = m.chain.erase ino

structure Gone (m : Mount) (ino : Nat) (old : List Nat) : Prop where
  bit : m.fs.isInodeAllocated ino = false
  contains : ∀ b ∈ old, m.fs.layout.Contains b
  blocks : ∀ b ∈ old, m.fs.blockUsed b = false

structure Cut (t : InodeTable) (m : Mount) (ino size : Nat) (old : List Nat) : Prop where
  contains : ∀ b ∈ old, m.fs.layout.Contains b
  tree : ∃ inode tree extents external, m.inodes ino = some inode ∧ inode.desc.size = size ∧
    inode.tree = some tree ∧ Planted m.fs tree extents external ∧
    m.fs.Dwindles old (dataBlocks extents ++ external) ∧ (∀ x ∈ contents extents, below (blocksOf size) x = true) ∧
    ∃ raw, m.fs.slotImage t ino = some raw ∧ raw.rootBlock = tree.root

section Later

variable {t : InodeTable} {size : Nat} {old : List Nat}

theorem Gone.sweeps (h : Gone m ino old) (hs : m.fs.Sweeps t C S O m'.fs) (hS : ¬S ino)
    (hO : ∀ b ∈ old, b ∉ O) : Gone m' ino old where
  bit := (hs.bits ino hS).trans h.bit
  contains b hb := (hs.contains b).mpr (h.contains b hb)
  blocks b hb := (hs.used b (h.contains b hb) (hO b hb)).trans (h.blocks b hb)

theorem Cut.sweeps (h : Cut t m ino size old) (hs : m.fs.Sweeps t C S O m'.fs) (hS : ¬S ino)
    (hO : ∀ b ∈ old, b ∉ O) (hino : m'.inodes ino = m.inodes ino) : Cut t m' ino size old where
  contains b hb := (hs.contains b).mpr (h.contains b hb)
  tree := by
    obtain ⟨inode, tree, extents, external, hself, hsize, htree, hplant, hdwin, hkeys, raw, hraw, hroot⟩ := h.tree
    obtain ⟨raw', hraw', halike⟩ := hs.newest ino raw hS hraw
    refine ⟨inode, tree, extents, external, hino.trans hself, hsize, htree,
      hplant.sweeps hs fun b hb => hO b (hdwin.subset b hb), ⟨hdwin.subset, fun b hb hn => ?_⟩, hkeys, raw', hraw', ?_⟩
    · rw [hs.used b (h.contains b hb) (hO b hb)]
      exact hdwin.freed b hb hn
    · rw [← hroot]
      funext i
      have hbytes : slice raw' (rawInode.offset .block) 60 = slice raw (rawInode.offset .block) 60 :=
        halike .block (by decide) (by decide) (by decide)
      exact map_inj_left.mp hbytes i.val (mem_range.mpr i.isLt)

theorem Finishes.before (hs : m.fs.Sweeps t C (fun _ => False) [] fs)
    (h : Finishes t C ino old { m with fs := fs } m') : Finishes t C ino old m m' where
  sweeps := (hs.mono (fun _ hf => hf.elim) fun _ hb => absurd hb not_mem_nil).trans h.sweeps
  others := h.others
  chain := h.chain

theorem Finishes.after (h : Finishes t C ino old m m')
    (hs : m'.fs.Sweeps t C (fun _ => False) [] fs) : Finishes t C ino old m { m' with fs := fs } where
  sweeps := h.sweeps.trans (hs.mono (fun _ hf => hf.elim) fun _ hb => absurd hb not_mem_nil)
  others := h.others
  chain := h.chain

end Later

theorem finishTruncate_sweeps (hp : H.Paced) (hC : ∀ x ∈ m.chain, C x) (hCino : C ino) (h : m.Listed cfg.table P) (hino : m.inodes ino = some inode)
    (htree : inode.tree = some tree) (hplant : Planted m.fs tree extents external) (size rounds : Nat)
    (hsize : inode.desc.size = size) :
    (finishTruncate H cfg ino size rounds).Ends m
      (fun _ m' => m'.Listed cfg.table P ∧ Finishes cfg.table C ino (dataBlocks extents ++ external) m m' ∧
        Cut cfg.table m' ino size (dataBlocks extents ++ external))
      fun _ _ => True := by
  refine (truncateChunks_sweeps cfg H hp hCino h hino htree hplant size rounds).bind fun _ m1 h1 => ?_
  obtain ⟨h1, hchain1, inode1, hthin⟩ := h1
  obtain ⟨tree1, extents1, external1, htree1, hdirty, hplant1, hdwin1, hkeys⟩ := hthin.tree
  have hdel := (orphanDel_ends cfg h1 ino).and
    (orphanDel_sweeps (S := (· = ino)) (O := []) cfg h1 (fun x hx => hC x (hchain1 ▸ hx)) ino)
  refine hdel.bindOr (fun _ _ _ => trivial) fun _ m2 h2 => ?_
  obtain ⟨⟨h2, hchain2, hinodes2⟩, hsweep2⟩ := h2
  have hino2 : m2.inodes ino = some inode1 := by
    rw [hinodes2]
    exact hthin.self
  have hwrite := (writeBackInodeDesc_ends cfg h2 ino).and
    (writeBackInodeDesc_sweeps (S := (· = ino)) (O := []) cfg h2 hino2 hCino rfl)
  refine hwrite.mono (fun _ m3 h3 => ?_) fun _ _ _ => trivial
  obtain ⟨⟨h3, hchain3, -⟩, hsweep3, inode3, hback⟩ := h3
  have hrest : m1.fs.Sweeps cfg.table C (· = ino) [] m3.fs := hsweep2.trans hsweep3
  obtain ⟨n, hdesc1⟩ := hthin.desc
  obtain ⟨k, hdesc3⟩ := hback.desc
  refine ⟨h3.weaken fun x _ hx => hx.1, ⟨?_, fun x hx => ?_, ?_⟩, ?_⟩
  · exact hthin.sweeps.trans (hrest.mono (fun _ h => h) fun b hb => absurd hb not_mem_nil)
  · rw [hback.others x hx, hinodes2]
    exact hthin.others x hx
  · rw [hchain3, hchain2, hchain1]
  · obtain ⟨tree3, htree3, hroot3, hsectors⟩ := hback.bones htree1
    obtain ⟨raw, hraw, hroot⟩ := hback.slot (by simp [isDirty, htree1, hdirty])
    have hc : ∀ b ∈ dataBlocks extents ++ external, m1.fs.layout.Contains b := fun b hb =>
      (hthin.sweeps.contains b).mpr (hplant.owns.contains b hb)
    refine ⟨fun b hb => (hrest.contains b).mpr (hc b hb), inode3, tree3, extents1, external1, hback.self, ?_, htree3,
      ?_, ⟨hdwin1.subset, fun b hb hn => ?_⟩, hkeys, raw, hraw, ?_⟩
    · rw [hdesc3, hdesc1]
      exact hsize
    · exact (hplant1.sweeps hrest fun b _ => not_mem_nil).bones hroot3 hsectors
    · rw [hrest.used b (hc b hb) not_mem_nil]
      exact hdwin1.freed b hb hn
    · rw [hroot, hroot3]
      simp [rootSnapshot, htree1]

structure Rooted (fs : Fs) (tree : Option ExtentTree) (extents : List Extent) (external : List Nat) : Prop where
  mapped : ∀ tree', tree = some tree' → Planted fs tree' extents external
  bare : tree = none → dataBlocks extents ++ external = []

theorem freeUnlinked_sweeps (hp : H.Paced) (hC : ∀ x ∈ m.chain, C x) (hCino : C ino) (h : m.Listed cfg.table P) (hino : m.inodes ino = some inode)
    (hroot : Rooted m.fs inode.tree extents external) (rounds : Nat) :
    (freeUnlinked H cfg ino rounds).Ends m
      (fun _ m' => m'.Listed cfg.table P ∧ Finishes cfg.table C ino (dataBlocks extents ++ external) m m' ∧
        Gone m' ino (dataBlocks extents ++ external))
      fun _ _ => True := by
  refine .bind_of_eq (readInode_ok hino) ?_
  refine Op.Ends.bind (Q := fun _ m1 => m1.Listed cfg.table P ∧ m1.chain = m.chain ∧
    m.fs.Sweeps cfg.table C (· = ino) (dataBlocks extents ++ external) m1.fs ∧
    (∀ x, x ≠ ino → m1.inodes x = m.inodes x) ∧ (∃ inode1, m1.inodes ino = some inode1) ∧
    ∀ b ∈ dataBlocks extents ++ external, m1.fs.layout.Contains b ∧ m1.fs.blockUsed b = false)
    (.when (fun hsectors => ?_) fun hnone => ?_) fun _ m1 h1 => ?_
  · obtain ⟨tree, htree⟩ : ∃ tree, inode.tree = some tree := by
      cases htree : inode.tree with
      | none => simp [htree] at hsectors
      | some tree => exact ⟨tree, rfl⟩
    have hplant := hroot.mapped tree htree
    refine (truncateChunks_sweeps cfg H hp hCino h hino htree hplant 0 rounds).mono (fun _ m1 h1 => ?_)
      fun _ _ h => h
    obtain ⟨h1, hchain, inode1, hthin⟩ := h1
    obtain ⟨tree1, extents1, external1, -, -, hplant1, hdwin, hkeys⟩ := hthin.tree
    refine ⟨h1, hchain, hthin.sweeps, hthin.others, ⟨inode1, hthin.self⟩, fun b hb => ⟨?_, hdwin.freed b hb ?_⟩⟩
    · exact (hthin.sweeps.contains b).mpr (hplant.owns.contains b hb)
    · rw [hplant1.bare hkeys]
      exact not_mem_nil
  · have hempty : dataBlocks extents ++ external = [] := by
      cases htree : inode.tree with
      | none => exact hroot.bare htree
      | some tree =>
        have hzero := (hroot.mapped tree htree).sectors
        have hnot : ¬0 < tree.sectorCount := by simpa [htree] using hnone
        refine eq_nil_of_length_eq_zero ?_
        rw [length_append]
        unfold sectorsPerBlock at hzero
        omega
    exact ⟨h, rfl, .refl h.zoned.tabled, fun _ _ => rfl, ⟨inode, hino⟩, fun b hb => absurd (hempty ▸ hb) not_mem_nil⟩
  obtain ⟨h1, hchain1, hsweep1, hothers1, ⟨inode1, hino1⟩, hfree⟩ := h1
  have hdel := (orphanDel_ends cfg h1 ino).and
    (orphanDel_sweeps (S := (· = ino)) (O := []) cfg h1 (fun x hx => hC x (hchain1 ▸ hx)) ino)
  refine hdel.bindOr (fun _ _ _ => trivial) fun _ m2 h2 => ?_
  obtain ⟨⟨h2, hchain2, hinodes2⟩, hsweep2⟩ := h2
  have hino2 : m2.inodes ino = some inode1 := by
    rw [hinodes2]
    exact hino1
  have hwrite := (writeBackInodeDesc_ends cfg h2 ino).and
    (writeBackInodeDesc_sweeps (S := (· = ino)) (O := []) cfg h2 hino2 hCino rfl)
  refine hwrite.bindOr (fun _ _ _ => trivial) fun _ m3 h3 => ?_
  obtain ⟨⟨h3, hchain3, -⟩, hsweep3, inode3, hback⟩ := h3
  have h3 : m3.Listed cfg.table P := h3.weaken fun x _ hx => hx.1
  refine (freeInode_sweeps (C := C) (O := []) cfg h3 ino _).mono (fun _ m4 h4 => ?_) fun _ _ h => h
  obtain ⟨hsweep4, h4, hchain4, hinodes4, hbit⟩ := h4
  have hrest : m1.fs.Sweeps cfg.table C (· = ino) [] m4.fs := (hsweep2.trans hsweep3).trans hsweep4
  refine ⟨h4, ⟨?_, fun x hx => ?_, ?_⟩, hbit, fun b hb => (hrest.contains b).mpr (hfree b hb).1, fun b hb => ?_⟩
  · exact hsweep1.trans (hrest.mono (fun _ h => h) fun b hb => absurd hb not_mem_nil)
  · rw [hinodes4, hback.others x hx, hinodes2]
    exact hothers1 x hx
  · rw [hchain4, hchain3, hchain2, hchain1]
  · rw [hrest.used b (hfree b hb).1 not_mem_nil]
    exact (hfree b hb).2

theorem during_sweeps {op : MountOp α} {R : Mount → Mount → Prop} {Q : Mount → Prop} (hp : H.Paced)
    (hrest : H.Rested m.fs) (hstays : m.Stays cfg.table P) (credits : Nat)
    (hop : ∀ fs, m.fs.Sweeps cfg.table C (fun _ => False) [] fs → { m with fs := fs }.Listed cfg.table P →
      op.Ends { m with fs := fs } (fun _ m' => m'.Listed cfg.table P ∧ R { m with fs := fs } m' ∧ Q m')
        fun _ _ => True)
    (hbefore : ∀ fs m', m.fs.Sweeps cfg.table C (fun _ => False) [] fs → R { m with fs := fs } m' → R m m')
    (hafter : ∀ m' fs, m'.fs.Sweeps cfg.table C (fun _ => False) [] fs → R m m' ∧ Q m' →
      R m { m' with fs := fs } ∧ Q { m' with fs := fs }) :
    (during H credits op).Ends m
      (fun _ m' => H.Rested m'.fs ∧ m'.Stays cfg.table P ∧ R m m' ∧ Q m') fun _ _ => True := by
  refine (onFs_ends ((H.begin_ends m.fs credits hrest).and ((hp.beginOp credits).ends m.fs))).bind fun _ m1 h1 => ?_
  obtain ⟨fs1, rfl, ⟨hturns, hopen⟩, hpaces⟩ := h1
  have hsweep : m.fs.Sweeps cfg.table C (fun _ => False) [] fs1 := .turns hstays.moored.tabled hturns hpaces
  have hlisted : { m with fs := fs1 }.Listed cfg.table P := Stays.listed (hstays.turns hturns rfl) hopen
  have hattempt : (Op.attempt op).Ends { m with fs := fs1 } (fun res m' => res.isOk = true →
      m'.Listed cfg.table P ∧ R m m' ∧ Q m') fun _ _ => True := by
    refine .attempt ((hop fs1 hsweep hlisted).mono (fun _ m' h _ => ⟨h.1, hbefore fs1 m' hsweep h.2.1, h.2.2⟩)
      fun _ _ _ hok => ?_)
    cases hok
  refine hattempt.bind fun res m2 h2 => ?_
  cases res with
  | error e => exact (Op.Ends.any _ m2).bind fun _ _ _ => .fail trivial
  | ok a =>
    obtain ⟨h2, hR, hQ⟩ := h2 rfl
    refine (onFs_ends ((H.close_ends m2.fs (H.open_held _ h2.zoned.open)).and (hp.close.ends m2.fs))).bind
      fun _ m3 h3 => ?_
    obtain ⟨fs3, rfl, ⟨hturns3, hrest3⟩, hpaces3⟩ := h3
    have hback := hafter m2 fs3 (.turns h2.zoned.tabled hturns3 hpaces3) ⟨hR, hQ⟩
    exact .ret ⟨hrest3, h2.stays.turns hturns3 rfl, hback⟩

theorem Rooted.sweeps {t : InodeTable} {fs' : Fs} {tree : Option ExtentTree} (h : Rooted fs tree extents external) (hs : fs.Sweeps t C S O fs')
    (hO : ∀ b ∈ dataBlocks extents ++ external, b ∉ O) : Rooted fs' tree extents external :=
  ⟨fun tree' htree => (h.mapped tree' htree).sweeps hs hO, h.bare⟩

theorem reclaimUnlinked_sweeps (hp : H.Paced) (hC : ∀ x ∈ m.chain, C x) (hmem : ino ∈ m.chain) (h : m.Listed cfg.table P) (hino : m.inodes ino = some inode)
    (hroot : Rooted m.fs inode.tree extents external) (rounds : Nat) (now : Duration) :
    (reclaimUnlinked H cfg ino rounds now).Ends m
      (fun _ m' => m'.Listed cfg.table P ∧ Finishes cfg.table C ino (dataBlocks extents ++ external) m m' ∧
        Gone m' ino (dataBlocks extents ++ external))
      fun _ _ => True := by
  have hskip : orphanAddIfAbsent cfg ino m = (.ok (), m) := by
    have hlisted : (m.chain.successorOf ino).isSome = true := by
      rw [Option.isSome_iff_ne_none]
      exact fun hnone => OrphanChain.successorOf_none.mp hnone hmem
    have hlive : m.fs.handle.isNone = false := by
      rw [Option.isNone_eq_false_iff]
      exact h.zoned.live
    unfold orphanAddIfAbsent
    rw [Op.get_bind, if_neg (by simp [hlive]), if_pos hlisted]
    rfl
  refine .bind_of_eq hskip (.bind_of_eq (readInode_ok hino) ?_)
  refine Op.Ends.bind (Q := fun _ m1 => m1 = m) (.when (fun _ => ?_) fun _ => rfl) fun _ m1 hm => ?_
  · exact ((resizePageCache_readOnly ino 0 _).ends m).mono (fun _ _ h => h) fun _ _ _ => trivial
  rw [hm]
  refine .bind_modify ?_
  have hedit : (m.mapInode ino (editDesc fun desc => { desc with dtime := .time now, size := 0 })).Listed
      cfg.table P := h.memory rfl rfl
  have hself : (m.mapInode ino (editDesc fun desc => { desc with dtime := .time now, size := 0 })).inodes ino =
      some (inode.editDesc fun desc => { desc with dtime := .time now, size := 0 }) := by
    rw [mapInode_self, hino]
    rfl
  refine (freeUnlinked_sweeps (m := m.mapInode ino _) cfg H hp hC (hC ino hmem) hedit hself hroot rounds).mono
    (fun _ m2 h2 => ?_) fun _ _ h => h
  obtain ⟨h2, hfin, hgone⟩ := h2
  exact ⟨h2, ⟨hfin.sweeps, fun x hx => (hfin.others x hx).trans (mapInode_of_ne _ _ hx), hfin.chain⟩, hgone⟩

theorem tryReclaimDeletedInode_freed (hbit : m.fs.isInodeAllocated ino = false) (rounds : Nat) (now : Duration) :
    (tryReclaimDeletedInode H cfg ino rounds now).Leaves m fun m' => m' = m := by
  refine (readInode_ends m ino).bindOr (fun _ _ h => h) fun inode m1 hm => ?_
  rw [hm.1]
  refine .bind_get ?_
  rw [if_pos hbit]
  split
  · exact .ret rfl
  · exact .ret rfl

theorem tryReclaimDeletedInode_sweeps (hp : H.Paced) (hC : ∀ x ∈ m.chain, C x) (hmem : ino ∈ m.chain)
    (hrest : H.Rested m.fs) (hstays : m.Stays cfg.table P) (hset : m.fs.isInodeAllocated ino = true) (hino : m.inodes ino = some inode)
    (hlinks : inode.desc.linkCount = 0) (hroot : Rooted m.fs inode.tree extents external) (rounds : Nat)
    (now : Duration) :
    (tryReclaimDeletedInode H cfg ino rounds now).Ends m
      (fun _ m' => H.Rested m'.fs ∧ m'.Stays cfg.table P ∧ Finishes cfg.table C ino (dataBlocks extents ++
        external) m m' ∧ Gone m' ino (dataBlocks extents ++ external))
      fun _ _ => True := by
  refine .bind_of_eq (readInode_ok hino) (.bind_get ?_)
  rw [if_neg (not_not.mpr hlinks), if_neg (by simp [hset])]
  refine Op.Ends.bind (during_sweeps (R := Finishes cfg.table C ino (dataBlocks extents ++ external))
    (Q := fun m' => Gone m' ino (dataBlocks extents ++ external)) cfg H hp hrest hstays _
    (fun fs hsweep hlisted => ?_) (fun fs m' hsweep h => h.before hsweep) fun m' fs hsweep h => ?_)
    fun _ m' h => .ret h
  · have hroot' : Rooted fs inode.tree extents external := hroot.sweeps hsweep fun b _ => not_mem_nil
    exact reclaimUnlinked_sweeps (m := { m with fs := fs }) cfg H hp hC hmem hlisted hino hroot' rounds now
  · exact ⟨h.1.after hsweep, h.2.sweeps hsweep not_false fun b _ => not_mem_nil⟩

theorem retruncateTo_sweeps (hp : H.Paced) (hC : ∀ x ∈ m.chain, C x) (hCino : C ino) (hrest : H.Rested m.fs)
    (hstays : m.Stays cfg.table P)
    (hino : m.inodes ino = some inode) (hroot : Rooted m.fs inode.tree extents external) (rounds : Nat) :
    (retruncateTo H cfg ino inode.desc.size rounds).Ends m
      (fun _ m' => H.Rested m'.fs ∧ m'.Stays cfg.table P ∧ Finishes cfg.table C ino (dataBlocks extents ++
        external) m m' ∧ Cut cfg.table m' ino inode.desc.size (dataBlocks extents ++ external))
      fun _ _ => True := by
  refine .bind_modify ?_
  split
  · exact .fail trivial
  have hedit : (m.mapInode ino (editDesc fun desc => { desc with dtime := .time .zero })).inodes ino =
      some (inode.editDesc fun desc => { desc with dtime := .time .zero }) := by
    rw [mapInode_self, hino]
    rfl
  cases htree : inode.tree with
  | none =>
    refine Op.Ends.bind (Q := fun _ _ => False) ?_ fun _ _ h => h.elim
    refine .bind_of_eq (readInode_ok hedit) ?_
    rw [if_pos (by simp [editDesc, htree])]
    exact .fail trivial
  | some tree =>
    have hneed : needTree ino (m.mapInode ino (editDesc fun desc => { desc with dtime := .time .zero })) =
        (.ok (), m.mapInode ino (editDesc fun desc => { desc with dtime := .time .zero })) := by
      refine (Op.bind_ok (readInode_ok hedit)).trans ?_
      rw [if_neg (by simp [editDesc, htree])]
      rfl
    refine .bind_of_eq hneed (.bind_of_eq (readInode_ok hedit) (.bind_get ?_))
    refine (during_sweeps (m := m.mapInode ino (editDesc fun desc => { desc with dtime := .time .zero }))
      (R := Finishes cfg.table C ino (dataBlocks extents ++ external))
      (Q := fun m' => Cut cfg.table m' ino inode.desc.size (dataBlocks extents ++ external)) cfg H hp hrest
      (hstays.turns ⟨rfl, rfl, fun _ => rfl⟩ rfl) _ (fun fs hsweep hlisted => ?_) (fun fs m' hsweep h => h.before hsweep)
      fun m' fs hsweep h => ?_).mono (fun _ m' h => ?_) fun _ _ h => h
    · have hplant : Planted fs tree extents external :=
        (hroot.mapped tree htree).sweeps hsweep fun b _ => not_mem_nil
      exact finishTruncate_sweeps (m := { m.mapInode ino _ with fs := fs }) cfg H hp hC hCino hlisted hedit htree
        hplant _ rounds rfl
    · exact ⟨h.1.after hsweep, h.2.sweeps hsweep not_false (fun b _ => not_mem_nil) rfl⟩
    · obtain ⟨hrest', hstays', hfin, hcut⟩ := h
      exact ⟨hrest', hstays', ⟨hfin.sweeps, fun x hx => (hfin.others x hx).trans (mapInode_of_ne _ _ hx),
        hfin.chain⟩, hcut⟩

end Mount

end Ext4
