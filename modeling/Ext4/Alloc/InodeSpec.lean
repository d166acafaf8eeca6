import Ext4.Alloc.Moves

namespace Ext4

open SuperBlock BlockGroup ClaimedIno

variable {g : JournalGeometry}

namespace Fs

variable {type : InodeType} {i : Nat} {m' : BlockGroupMetadata}

structure Unchanged (fs fs' : Fs) : Prop where
  blockBitmap : ∀ idx < fs.sb.nrBlockGroups,
    (fs'.groups idx).metadata.blockBitmap = (fs.groups idx).metadata.blockBitmap
  inodeBitmap : ∀ idx < fs.sb.nrBlockGroups,
    (fs'.groups idx).metadata.inodeBitmap = (fs.groups idx).metadata.inodeBitmap
  freeBlocks : ∀ idx < fs.sb.nrBlockGroups, (fs'.groups idx).metadata.desc.freeBlocksCount =
    (fs.groups idx).metadata.desc.freeBlocksCount
  freeInodes : ∀ idx < fs.sb.nrBlockGroups, (fs'.groups idx).metadata.desc.freeInodesCount =
    (fs.groups idx).metadata.desc.freeInodesCount
  usedDirs : ∀ idx < fs.sb.nrBlockGroups, (fs'.groups idx).metadata.desc.usedDirsCount =
    (fs.groups idx).metadata.desc.usedDirsCount
  sbFreeBlocks : fs'.sb.freeBlocksCount = fs.sb.freeBlocksCount
  sbFreeInodes : fs'.sb.freeInodesCount = fs.sb.freeInodesCount
  blockBitmapImage : ∀ idx < fs.sb.nrBlockGroups,
    fs'.image (fs.groups idx).metadata.desc.blockBitmapBid =
      fs.image (fs.groups idx).metadata.desc.blockBitmapBid
  inodeBitmapImage : ∀ idx < fs.sb.nrBlockGroups,
    fs'.image (fs.groups idx).metadata.desc.inodeBitmapBid =
      fs.image (fs.groups idx).metadata.desc.inodeBitmapBid
  descImage : ∀ idx < fs.sb.nrBlockGroups,
    (fs'.image (fs.groups idx).descBlockBid).map
        (BlockGroupDesc.readCounters ((fs.groups idx).descOffset % 4096)) =
      (fs.image (fs.groups idx).descBlockBid).map
        (BlockGroupDesc.readCounters ((fs.groups idx).descOffset % 4096))
  sbImage : (fs'.image SuperBlock.superblockBid).map (SuperBlock.readCounters fs.sb.is64bit) =
    (fs.image SuperBlock.superblockBid).map (SuperBlock.readCounters fs.sb.is64bit)

variable {fs fs' base : Fs} {idx : Nat} {m : BlockGroupMetadata} {sb : SuperBlock}
  {image : Nat → Option Block} {T : Finset Nat}

theorem Evolves.unchanged (h : fs.Evolves fs' fs.image T) : fs.Unchanged fs' := by
  refine ⟨?_, ?_, ?_, ?_, ?_, by rw [h.sb], by rw [h.sb], ?_, ?_, ?_, by rw [h.image]⟩
  · simp only [h.groups, implies_true]
  · simp only [h.groups, implies_true]
  · simp only [h.groups, implies_true]
  · simp only [h.groups, implies_true]
  · simp only [h.groups, implies_true]
  · exact fun idx _ => h.image _
  · exact fun idx _ => h.image _
  · exact fun idx _ => by rw [h.image]

theorem Unchanged.of_synced (hs : fs.Synced) (hs' : fs'.Synced) (hlayout : fs'.layout = fs.layout)
    (hblock : ∀ idx < fs.sb.nrBlockGroups,
      (fs'.groups idx).metadata.blockBitmap = (fs.groups idx).metadata.blockBitmap)
    (hinode : ∀ idx < fs.sb.nrBlockGroups,
      (fs'.groups idx).metadata.inodeBitmap = (fs.groups idx).metadata.inodeBitmap)
    (hfreeBlocks : ∀ idx < fs.sb.nrBlockGroups, (fs'.groups idx).metadata.desc.freeBlocksCount =
      (fs.groups idx).metadata.desc.freeBlocksCount)
    (hfreeInodes : ∀ idx < fs.sb.nrBlockGroups, (fs'.groups idx).metadata.desc.freeInodesCount =
      (fs.groups idx).metadata.desc.freeInodesCount)
    (hdirs : ∀ idx < fs.sb.nrBlockGroups, (fs'.groups idx).metadata.desc.usedDirsCount =
      (fs.groups idx).metadata.desc.usedDirsCount)
    (hsbBlocks : fs'.sb.freeBlocksCount = fs.sb.freeBlocksCount)
    (hsbInodes : fs'.sb.freeInodesCount = fs.sb.freeInodesCount) : fs.Unchanged fs' := by
  have hgroup : ∀ idx, (fs'.groups idx).layout = (fs.groups idx).layout := fun idx =>
    congrFun (congrArg Layout.group hlayout) idx
  have hframe : fs'.sb.frame = fs.sb.frame := congrArg Layout.sb hlayout
  have hnr : fs'.sb.nrBlockGroups = fs.sb.nrBlockGroups := by
    simpa [frame] using congrArg nrBlockGroups hframe
  have h64 : fs'.sb.is64bit = fs.sb.is64bit := by
    simpa [frame] using congrArg is64bit hframe
  refine ⟨hblock, hinode, hfreeBlocks, hfreeInodes, hdirs, hsbBlocks, hsbInodes, fun idx hidx => ?_,
    fun idx hidx => ?_, fun idx hidx => ?_, ?_⟩
  · have hbid : (fs'.groups idx).metadata.desc.blockBitmapBid =
        (fs.groups idx).metadata.desc.blockBitmapBid := congrArg GroupLayout.blockBitmapBid (hgroup idx)
    rw [hs.blockBitmap idx hidx, ← hbid, hs'.blockBitmap idx (hnr ▸ hidx), hblock idx hidx]
  · have hbid : (fs'.groups idx).metadata.desc.inodeBitmapBid =
        (fs.groups idx).metadata.desc.inodeBitmapBid := congrArg GroupLayout.inodeBitmapBid (hgroup idx)
    rw [hs.inodeBitmap idx hidx, ← hbid, hs'.inodeBitmap idx (hnr ▸ hidx), hinode idx hidx]
  · have hoff : (fs'.groups idx).descOffset = (fs.groups idx).descOffset :=
      congrArg GroupLayout.descOffset (hgroup idx)
    obtain ⟨buf, hbuf, hread⟩ := hs.desc idx hidx
    obtain ⟨buf', hbuf', hread'⟩ := hs'.desc idx (hnr ▸ hidx)
    rw [descBlockBid, hoff] at hbuf'
    rw [hoff] at hread'
    rw [hbuf, descBlockBid, hbuf', Option.map_some, Option.map_some, hread, hread', BlockGroupDesc.counters,
      BlockGroupDesc.counters, hfreeBlocks idx hidx, hfreeInodes idx hidx, hdirs idx hidx]
  · obtain ⟨buf, hbuf, hread⟩ := hs.superblock
    obtain ⟨buf', hbuf', hread'⟩ := hs'.superblock
    rw [h64] at hread'
    rw [hbuf, hbuf', Option.map_some, Option.map_some, hread, hread', counters,
      counters, hsbBlocks, hsbInodes, h64]

theorem Synced.published {bid : Nat} {bitmap : IdBitmap} (hs : fs.Synced) (hw : fs.layout.Wf)
    (hidx : idx < fs.sb.nrBlockGroups) (hrep : Republished (fs.groups idx) m bid bitmap)
    (hlive : fs.handle.isSome = true) (hev : (fs.setMetadata idx m).Evolves fs'
      ((fs.groups idx).publishImage bid bitmap m fs.handle.isSome fs.image) T) : fs'.Synced := by
  unfold Synced
  rw [hev.sb, hev.groups, show fs'.image = _ from funext hev.image, hlive]
  exact Recorded.publish hs hw hidx hrep

theorem ClaimedIno.republished (hc : (fs.groups idx).ClaimedIno type i m) :
    Republished (fs.groups idx) m (fs.groups idx).metadata.desc.inodeBitmapBid m.inodeBitmap := by
  refine ⟨?_, .inr ⟨rfl, rfl, hc.blocks⟩⟩
  simp only [BlockGroup.layout, hc.desc, hc.len, hc.blocks]

theorem ReleasedIno.republished (hc : (fs.groups idx).ReleasedIno type i m) :
    Republished (fs.groups idx) m (fs.groups idx).metadata.desc.inodeBitmapBid m.inodeBitmap := by
  refine ⟨?_, .inr ⟨rfl, rfl, hc.blocks⟩⟩
  simp only [BlockGroup.layout, hc.desc, hc.blocks, hc.bitmap]
  rfl

theorem ClaimedIno.undone {group group' : BlockGroup} (hc : group.ClaimedIno type i m)
    (hgroup : group' = { group with metadata := m }) (hrel : group'.ReleasedIno type i m') :
    m'.inodeBitmap = group.metadata.inodeBitmap ∧ m'.blockBitmap = group.metadata.blockBitmap ∧
      m'.desc.freeBlocksCount = group.metadata.desc.freeBlocksCount ∧
      m'.desc.freeInodesCount = group.metadata.desc.freeInodesCount ∧
      m'.desc.usedDirsCount = group.metadata.desc.usedDirsCount := by
  subst hgroup
  have hfree := hc.free
  have hlt : i < m.inodeBitmap.len := hc.len ▸ hc.lt
  refine ⟨?_, hrel.blocks.trans hc.blocks, ?_, ?_, ?_⟩
  · rw [hrel.bitmap]
    refine IdBitmap.ext_isAllocated hc.len fun k => ?_
    rw [IdBitmap.isAllocated_free _ hlt]
    split_ifs with hk
    · rw [hk, hc.clear]
    · exact (hc.bits k).trans (if_neg hk)
  · rw [hrel.desc]
    simp only [hc.desc]
  · rw [hrel.desc]
    simp only [hc.desc]
    omega
  · rw [hrel.desc]
    simp only [hc.desc]
    omega

section

variable (hlift : (base.setMetadata idx m).Evolves fs ((base.groups idx).publishImage (base.groups
    idx).metadata.desc.inodeBitmapBid m.inodeBitmap m base.handle.isSome base.image) base.layout.systemBids)
include hlift

theorem lifted_group : fs.groups idx = { base.groups idx with metadata := m } := by
  rw [hlift.groups]
  simp [setMetadata]

variable (hidx : idx < base.sb.nrBlockGroups) (hc : (base.groups idx).ClaimedIno type i m)
include hidx hc

theorem ClaimedIno.blocked (hfit : (base.groups idx).metadata.desc.freeInodesCount < 2 ^ 32)
    (hb : BlockGroup.InoBlocked fs idx type) : base.Short := by
  have hself := lifted_group hlift
  have hlayout : (fs.groups idx).layout = (base.groups idx).layout := by
    rw [hself]
    exact (republished hc).layout
  have hsub : (fs.groups idx).metaBids ⊆ base.layout.systemBids := by
    unfold metaBids
    rw [hlayout]
    exact metaBids_subset hidx
  have hread : ∀ b ∈ (fs.groups idx).metaBids, fs.image b = none → base.Short := fun b hb hnone => by
    rw [hlift.image, publishImage_none] at hnone
    exact .inr ⟨b, hsub hb, hnone⟩
  have hfree := hc.free
  have hmeta : (fs.groups idx).metadata = m := by rw [hself]
  rcases hb with hcredit | hnone | hnone | hover | ⟨hdir, hdirs⟩
  · exact .inl fun hcov =>
      hcredit ((hlift.credits _ 0 (Finset.Subset.refl _) hcov).mono hsub)
  · exact hread _ (inodeBitmapBid_subset _ (Finset.mem_singleton_self _)) hnone
  · exact hread _ (descBlockBid_mem _) hnone
  · rw [hmeta, hc.desc] at hover
    simp only at hover
    omega
  · rw [hmeta, hc.desc] at hdirs
    simp [hdir] at hdirs

theorem ClaimedIno.unchanged (hw : base.layout.Wf) (hrel : (fs.groups idx).ReleasedIno type i m')
    (hev : (fs.setMetadata idx m').Evolves fs' ((fs.groups idx).publishImage
      (fs.groups idx).metadata.desc.inodeBitmapBid m'.inodeBitmap m' fs.handle.isSome fs.image)
      (fs.groups idx).metaBids) (hlive : base.handle.isSome = true) (hs : base.Synced) :
    base.Unchanged fs' := by
  have hself := lifted_group hlift
  obtain ⟨hinode, hblock, hfreeBlocks, hfreeInodes, hdirs⟩ := undone hc hself hrel
  have hsb : fs.sb = base.sb := hlift.sb
  have hsb' : fs'.sb = base.sb := hev.sb.trans hsb
  have hlayout : fs.layout = base.layout :=
    hlift.layout.trans (layout_setMetadata (republished hc).layout)
  have hlayout' : fs'.layout = base.layout :=
    (hev.layout.trans (layout_setMetadata (ReleasedIno.republished hrel).layout)).trans hlayout
  have hsync : fs.Synced := hs.published hw hidx (republished hc) hlive hlift
  have hsync' : fs'.Synced := hsync.published (hlayout ▸ hw) (hsb ▸ hidx)
    (ReleasedIno.republished hrel) (hlift.mode.trans hlive) hev
  have hnew : (fs'.groups idx).metadata = m' := by
    rw [hev.groups]
    simp [setMetadata]
  have hother : ∀ k, k ≠ idx → fs'.groups k = base.groups k := fun k hk => by
    rw [hev.groups]
    simp [setMetadata, hk, hlift.groups]
  refine .of_synced hs hsync' hlayout' (fun k _ => ?_) (fun k _ => ?_) (fun k _ => ?_)
    (fun k _ => ?_) (fun k _ => ?_) (by rw [hsb']) (by rw [hsb'])
  all_goals
    rcases eq_or_ne k idx with rfl | hk
    · rw [hnew]
      assumption
    · rw [hother k hk]

end

def InoSpared (fs fs' : Fs) : Prop :=
  fs.Spared fs' ∨ (fs.handle.isSome = true → fs.Synced → fs.Unchanged fs')

theorem searchInodeGroups_ends (hev : base.Evolves fs base.image base.layout.systemBids)
    (hw : base.layout.Wf) (type : InodeType) {ring : List Nat}
    (hring : ∀ idx ∈ ring, idx < base.sb.nrBlockGroups) (hfree : base.sb.freeInodesCount ≠ 0)
    (hfit : ∀ idx < base.sb.nrBlockGroups, (base.groups idx).metadata.desc.freeInodesCount < 2 ^ 32) :
    (searchInodeGroups g type ring).Ends fs (fun _ _ => True) fun _ fs' => base.InoSpared fs' := by
  induction ring generalizing fs with
  | nil => exact .fail (.inl (.inl hev))
  | cons idx rest ih =>
    obtain ⟨hidx, hrest⟩ := List.forall_mem_cons.mp hring
    unfold searchInodeGroups
    refine (allocIno_ends hev.ready g idx type).bindOr
      (fun _ fs1 h1 => .inl (hev.spared hidx h1)) fun res fs1 h1 => ?_
    cases res with
    | none =>
      obtain rfl : fs1 = fs := h1
      exact ih hev hrest
    | some i =>
      obtain ⟨m, hclaim, hpub⟩ := h1
      have hlift := ((hev.setMetadata idx m).trans hpub).weaken (hev.union_metaBids hidx)
      rw [show fs.image = base.image from funext hev.image, hev.mode, hev.groups] at hlift
      rw [hev.groups] at hclaim
      have hcarries : base.Carries fs1 := hlift.setCarries
      refine .bind_get ?_
      dsimp only
      split
      · refine ((updateSb_ends hpub.ready _).mono (fun _ _ _ => trivial)
          fun e fs2 h2 => ?_).bind fun _ fs2 _ => .ret trivial
        refine .inl (.inr ⟨?_, hcarries.trans h2.1⟩)
        rcases h2.2 with hdec | hrefused
        · rw [hlift.sb] at hdec
          simp [decFreeInodes, setMetadata, Nat.one_le_iff_ne_zero, hfree] at hdec
        · exact hlift.short_of_refuses publishImage_none.mp (Layout.superblockBid_mem _) hrefused
      · have hself : fs1.groups idx = { base.groups idx with metadata := m } := by
          rw [hlift.groups]
          simp [setMetadata]
        have hset : (fs1.groups idx).metadata.inodeBitmap.isAllocated i = true := by
          rw [hself]
          exact (hclaim.bits i).trans (if_pos rfl)
        refine (Op.Ends.attempt (Q := fun _ fs2 => base.InoSpared fs2) ((freeInode_ends hlift.ready type
          hset).mono (fun _ fs2 h2 => ?_) fun _ fs2 h2 => ?_)).bind fun _ fs2 h2 => .fail h2
        · obtain ⟨m', hrel, h2⟩ := h2
          exact .inr (ClaimedIno.unchanged hlift hidx hclaim hw hrel h2)
        · exact .inl (.inr ⟨ClaimedIno.blocked hlift hidx hclaim (hfit idx hidx) h2.1, hcarries.trans h2.2⟩)

theorem allocIno_ends (hr : fs.Ready) (hw : fs.layout.Wf) (g : JournalGeometry) (parentIno : Nat) (type : InodeType)
    (hfit : ∀ idx < fs.sb.nrBlockGroups, (fs.groups idx).metadata.desc.freeInodesCount < 2 ^ 32) :
    (allocIno g parentIno type).Ends fs (fun _ _ => True) fun _ fs' => fs.InoSpared fs' := by
  have hsame : fs.Evolves fs fs.image fs.layout.systemBids := (Evolves.refl hr).weaken (by simp)
  unfold allocIno
  split
  · exact .fail (.inl (.inl hsame))
  · refine .bind_get ?_
    split
    · exact .fail (.inl (.inl hsame))
    · split
      · exact .fail (.inl (.inl hsame))
      next hfree => exact searchInodeGroups_ends hsame hw type groupRing_lt hfree hfit

end Fs

end Ext4
