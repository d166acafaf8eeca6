import Ext4.Alloc.VolumeSpec

namespace Ext4

open Bytes BlockGroup SuperBlock

namespace BlockGroupDesc

def counters (desc : BlockGroupDesc) : Nat × Nat × Nat :=
  (desc.freeBlocksCount % 256 ^ 2, desc.freeInodesCount % 256 ^ 2, desc.usedDirsCount % 256 ^ 2)

def readCounters (off : Nat) (buf : Block) : Nat × Nat × Nat :=
  (getLE buf (off + 12) 2, getLE buf (off + 14) 2, getLE buf (off + 16) 2)

variable {off off' w v size : Nat} {buf : Block} {descOffset : Nat}

theorem readCounters_putLE (h : off' + w ≤ off + 12 ∨ off + 18 ≤ off') :
    readCounters off (putLE buf off' w v) = readCounters off buf := by
  unfold readCounters
  simp (disch := omega) only [getLE_putLE_disjoint]

theorem readCounters_stampChecksums (seed : UInt32) (group : Nat) (x y : UInt32) {wide : Bool}
    (hwide : wide = true → 64 ≤ size) (hsize : 32 ≤ size) (h : off = off' ∨ off + 18 ≤ off' ∨ off' + size ≤ off) :
    readCounters off (stampChecksums seed group off' wide x y buf) = readCounters off buf := by
  unfold stampChecksums
  cases wide with
  | false =>
    simp only [Bool.false_eq_true, if_false]
    rw [readCounters_putLE (by omega), readCounters_putLE (by omega), readCounters_putLE (by omega)]
  | true =>
    have h64 := hwide rfl
    simp only [if_true]
    rw [readCounters_putLE (by omega), readCounters_putLE (by omega), readCounters_putLE (by omega),
      readCounters_putLE (by omega), readCounters_putLE (by omega)]

theorem readCounters_patchInto_same (desc : BlockGroupDesc) (hfits : descOffset % 4096 + 32 ≤ 4096) :
    readCounters (descOffset % 4096) (desc.patchInto descOffset buf) = desc.counters := by
  unfold patchInto readCounters counters
  simp only
  refine Prod.ext ?_ (Prod.ext ?_ ?_)
  · simp only
    simp (disch := omega) only [getLE_putLE_disjoint, getLE_putLE_same]
  · simp only
    simp (disch := omega) only [getLE_putLE_disjoint, getLE_putLE_same]
  · simp only
    simp (disch := omega) only [getLE_putLE_disjoint, getLE_putLE_same]

theorem readCounters_patchInto_other (desc : BlockGroupDesc)
    (h : off + 18 ≤ descOffset % 4096 ∨ descOffset % 4096 + 32 ≤ off) :
    readCounters off (desc.patchInto descOffset buf) = readCounters off buf := by
  unfold patchInto
  simp only
  rw [readCounters_putLE (by omega), readCounters_putLE (by omega), readCounters_putLE (by omega),
    readCounters_putLE (by omega), readCounters_putLE (by omega)]

end BlockGroupDesc

namespace BlockGroup

open BlockGroupDesc

variable {group : BlockGroup} {buf : Block}

theorem readCounters_patchDesc_same (m : BlockGroupMetadata) (hsize : 32 ≤ group.descSize)
    (hfits : group.descOffset % 4096 + group.descSize ≤ 4096) :
    readCounters (group.descOffset % 4096) (group.patchDesc m buf) = m.desc.counters := by
  unfold patchDesc stampDescCsumInBlock
  cases group.csumSeed with
  | none => exact readCounters_patchInto_same _ (by omega)
  | some seed =>
    simp only
    rw [readCounters_stampChecksums _ _ _ _ (by simp) hsize (.inl rfl)]
    exact readCounters_patchInto_same _ (by omega)

theorem readCounters_patchDesc_other (m : BlockGroupMetadata) {off : Nat} (hsize : 32 ≤ group.descSize)
    (h : off + 18 ≤ group.descOffset % 4096 ∨ group.descOffset % 4096 + group.descSize ≤ off) :
    readCounters off (group.patchDesc m buf) = readCounters off buf := by
  have hpatch : readCounters off (m.desc.patchInto group.descOffset buf) = readCounters off buf :=
    readCounters_patchInto_other m.desc (by omega)
  unfold patchDesc stampDescCsumInBlock
  cases group.csumSeed with
  | none => exact hpatch
  | some seed =>
    simp only
    rw [readCounters_stampChecksums _ _ _ _ (by simp) hsize (.inr h)]
    exact hpatch

end BlockGroup

namespace SuperBlock

def counters (sb : SuperBlock) : Nat × Nat × Nat :=
  (sb.freeBlocksCount % 256 ^ 4, if sb.is64bit then sb.freeBlocksCount / 2 ^ 32 % 256 ^ 4 else 0,
    sb.freeInodesCount % 256 ^ 4)

def readCounters (is64bit : Bool) (buf : Block) : Nat × Nat × Nat :=
  (getLE buf (superBlockOffset + 0x0C) 4,
    if is64bit then getLE buf (superBlockOffset + 0x158) 4 else 0,
    getLE buf (superBlockOffset + 0x10) 4)

theorem readCounters_patchInto (sb : SuperBlock) (lastOrphan : Option Nat) (buf : Block) :
    readCounters sb.is64bit (sb.patchInto lastOrphan buf) = sb.counters := by
  unfold patchInto readCounters counters superBlockOffset
  cases sb.is64bit <;> cases sb.hasMetadataCsum <;>
    simp (disch := omega) [getLE_putLE_disjoint, getLE_putLE_same]

end SuperBlock

namespace Fs

structure Recorded (sb : SuperBlock) (groups : Nat → BlockGroup) (image : Nat → Option Block) : Prop where
  blockBitmap : ∀ idx < sb.nrBlockGroups,
    image (groups idx).metadata.desc.blockBitmapBid = some (groups idx).metadata.blockBitmap.asBytes
  inodeBitmap : ∀ idx < sb.nrBlockGroups,
    image (groups idx).metadata.desc.inodeBitmapBid = some (groups idx).metadata.inodeBitmap.asBytes
  desc : ∀ idx < sb.nrBlockGroups, ∃ buf, image (groups idx).descBlockBid = some buf ∧
    BlockGroupDesc.readCounters ((groups idx).descOffset % 4096) buf =
      (groups idx).metadata.desc.counters
  superblock : ∃ buf, image SuperBlock.superblockBid = some buf ∧
    SuperBlock.readCounters sb.is64bit buf = sb.counters

def Synced (fs : Fs) : Prop := Recorded fs.sb fs.groups fs.image

variable {fs fs' : Fs} {idx : Nat} {m : BlockGroupMetadata} {sb : SuperBlock}
  {image image' : Nat → Option Block}

theorem Recorded.congr (hs : Recorded fs.sb fs.groups image)
    (h : ∀ b ∈ fs.layout.systemBids, image' b = image b) : Recorded fs.sb fs.groups image' := by
  have hmeta : ∀ idx < fs.sb.nrBlockGroups, ∀ b ∈ (fs.groups idx).metaBids,
      image' b = image b := fun idx hidx b hb => h b (metaBids_subset hidx hb)
  refine ⟨fun idx hidx => ?_, fun idx hidx => ?_, fun idx hidx => ?_, ?_⟩
  · rw [hmeta idx hidx _ (blockBitmapBid_subset _ (Finset.mem_singleton_self _))]
    exact hs.blockBitmap idx hidx
  · rw [hmeta idx hidx _ (inodeBitmapBid_subset _ (Finset.mem_singleton_self _))]
    exact hs.inodeBitmap idx hidx
  · rw [hmeta idx hidx _ (descBlockBid_mem _)]
    exact hs.desc idx hidx
  · rw [h _ (Layout.superblockBid_mem _)]
    exact hs.superblock

theorem layout_setMetadata
    (h : ({ fs.groups idx with metadata := m } : BlockGroup).layout = (fs.groups idx).layout) :
    (fs.setMetadata idx m).layout = fs.layout := by
  unfold Fs.layout
  refine congrArg₂ Layout.mk rfl (funext fun k => ?_)
  by_cases hk : k = idx
  · rw [hk]
    simpa [setMetadata] using h
  · simp [setMetadata, hk]

structure Republished (group : BlockGroup) (m : BlockGroupMetadata) (bid : Nat) (bitmap : IdBitmap) :
    Prop where
  layout : ({ group with metadata := m } : BlockGroup).layout = group.layout
  which : (bid = group.metadata.desc.blockBitmapBid ∧ bitmap = m.blockBitmap ∧
      m.inodeBitmap = group.metadata.inodeBitmap) ∨
    (bid = group.metadata.desc.inodeBitmapBid ∧ bitmap = m.inodeBitmap ∧ m.blockBitmap = group.metadata.blockBitmap)

section PublishImage

variable {group : BlockGroup} {bid b : Nat} {bitmap : IdBitmap} {buf : Block}

theorem publishImage_other (hdesc : b ≠ group.descBlockBid) (hb : b ≠ bid) {live : Bool} :
    group.publishImage bid bitmap m live image b = image b := by
  rw [publishImage, overlay, if_neg fun h => hdesc h.1, overlay, if_neg fun h => hb h.1]

theorem publishImage_bitmap (hdesc : bid ≠ group.descBlockBid) (h : image bid = some buf) :
    group.publishImage bid bitmap m true image bid = some bitmap.asBytes := by
  rw [publishImage, overlay, if_neg fun h => hdesc h.1, overlay, if_pos ⟨rfl, rfl⟩, h]
  rfl

theorem publishImage_desc (hdesc : bid ≠ group.descBlockBid) (h : image group.descBlockBid = some buf) :
    group.publishImage bid bitmap m true image group.descBlockBid = some (group.patchDesc m buf) := by
  rw [publishImage, overlay, if_pos ⟨rfl, rfl⟩, overlay, if_neg fun h => hdesc h.1.symm, h]
  rfl

end PublishImage

theorem groups_setMetadata_self : (fs.setMetadata idx m).groups idx = { fs.groups idx with metadata := m } := by
  simp [setMetadata]

theorem groups_setMetadata_other {k : Nat} (hk : k ≠ idx) : (fs.setMetadata idx m).groups k = fs.groups k := by
  simp [setMetadata, hk]

section Publish

variable {bid k : Nat} {bitmap : IdBitmap} (hrep : Republished (fs.groups idx) m bid bitmap)
  (hw : fs.layout.Wf) (hidx : idx < fs.sb.nrBlockGroups) (hk : k < fs.sb.nrBlockGroups)
include hrep hw hidx hk

theorem Republished.bid_ne_desc : bid ≠ (fs.groups k).descBlockBid := by
  rcases hrep.which with ⟨h, -, -⟩ | ⟨h, -, -⟩
  · exact h ▸ hw.blockBitmap_ne_desc idx hidx k hk
  · exact h ▸ hw.inodeBitmap_ne_desc idx hidx k hk

theorem Republished.blockBitmap (hold : image (fs.groups k).metadata.desc.blockBitmapBid =
      some (fs.groups k).metadata.blockBitmap.asBytes) :
    (fs.groups idx).publishImage bid bitmap m true image
        ((fs.setMetadata idx m).groups k).metadata.desc.blockBitmapBid =
      some ((fs.setMetadata idx m).groups k).metadata.blockBitmap.asBytes := by
  have hdesc : (fs.groups k).metadata.desc.blockBitmapBid ≠ (fs.groups idx).descBlockBid :=
    hw.blockBitmap_ne_desc k hk idx hidx
  rcases eq_or_ne k idx with rfl | hne
  · have hsame : m.desc.blockBitmapBid = (fs.groups k).metadata.desc.blockBitmapBid :=
      congrArg GroupLayout.blockBitmapBid hrep.layout
    rw [groups_setMetadata_self]
    dsimp only
    rw [hsame]
    rcases hrep.which with ⟨h, hbm, -⟩ | ⟨h, -, hkept⟩
    · rw [← h] at hold ⊢
      rw [publishImage_bitmap (hrep.bid_ne_desc hw hidx hk) hold, hbm]
    · rw [publishImage_other hdesc (h ▸ hw.bitmaps_ne k hk k hk), hkept]
      exact hold
  · rw [groups_setMetadata_other hne, publishImage_other hdesc ?_]
    · exact hold
    · rcases hrep.which with ⟨h, -, -⟩ | ⟨h, -, -⟩
      · exact h ▸ fun heq => hne (hw.blockBitmap_inj k hk idx hidx heq)
      · exact h ▸ hw.bitmaps_ne k hk idx hidx

theorem Republished.inodeBitmap (hold : image (fs.groups k).metadata.desc.inodeBitmapBid =
      some (fs.groups k).metadata.inodeBitmap.asBytes) :
    (fs.groups idx).publishImage bid bitmap m true image
        ((fs.setMetadata idx m).groups k).metadata.desc.inodeBitmapBid =
      some ((fs.setMetadata idx m).groups k).metadata.inodeBitmap.asBytes := by
  have hdesc : (fs.groups k).metadata.desc.inodeBitmapBid ≠ (fs.groups idx).descBlockBid :=
    hw.inodeBitmap_ne_desc k hk idx hidx
  rcases eq_or_ne k idx with rfl | hne
  · have hsame : m.desc.inodeBitmapBid = (fs.groups k).metadata.desc.inodeBitmapBid :=
      congrArg GroupLayout.inodeBitmapBid hrep.layout
    rw [groups_setMetadata_self]
    dsimp only
    rw [hsame]
    rcases hrep.which with ⟨h, -, hkept⟩ | ⟨h, hbm, -⟩
    · rw [publishImage_other hdesc (h ▸ (hw.bitmaps_ne k hk k hk).symm), hkept]
      exact hold
    · rw [← h] at hold ⊢
      rw [publishImage_bitmap (hrep.bid_ne_desc hw hidx hk) hold, hbm]
  · rw [groups_setMetadata_other hne, publishImage_other hdesc ?_]
    · exact hold
    · rcases hrep.which with ⟨h, -, -⟩ | ⟨h, -, -⟩
      · exact h ▸ (hw.bitmaps_ne idx hidx k hk).symm
      · exact h ▸ fun heq => hne (hw.inodeBitmap_inj k hk idx hidx heq)

theorem Republished.descBlock {buf : Block} (hbuf : image (fs.groups k).descBlockBid = some buf) :
    (fs.groups idx).publishImage bid bitmap m true image (fs.groups k).descBlockBid =
      some (if (fs.groups k).descBlockBid = (fs.groups idx).descBlockBid then
        (fs.groups idx).patchDesc m buf else buf) := by
  split_ifs with hblk
  · rw [hblk] at hbuf ⊢
    exact publishImage_desc (hrep.bid_ne_desc hw hidx hidx) hbuf
  · rw [publishImage_other hblk (hrep.bid_ne_desc hw hidx hk).symm, hbuf]

end Publish

theorem descs_apart {k : Nat} (hw : fs.layout.Wf) (hk : k < fs.sb.nrBlockGroups)
    (hidx : idx < fs.sb.nrBlockGroups) (hne : k ≠ idx)
    (hblk : (fs.groups k).descBlockBid = (fs.groups idx).descBlockBid) :
    (fs.groups k).descOffset % 4096 + (fs.groups k).descSize ≤ (fs.groups idx).descOffset % 4096 ∨
      (fs.groups idx).descOffset % 4096 + (fs.groups idx).descSize ≤ (fs.groups k).descOffset % 4096 := by
  have hapart := hw.desc_apart k hk idx hidx hne
  change (fs.groups k).descOffset + (fs.groups k).descSize ≤ (fs.groups idx).descOffset ∨
    (fs.groups idx).descOffset + (fs.groups idx).descSize ≤ (fs.groups k).descOffset at hapart
  unfold descBlockBid at hblk
  omega

theorem Recorded.publish {bid : Nat} {bitmap : IdBitmap} (hs : Recorded fs.sb fs.groups image)
    (hw : fs.layout.Wf) (hidx : idx < fs.sb.nrBlockGroups) (hrep : Republished (fs.groups idx) m bid bitmap) :
    Recorded fs.sb (fs.setMetadata idx m).groups
      ((fs.groups idx).publishImage bid bitmap m true image) := by
  refine ⟨fun k hk => hrep.blockBitmap hw hidx hk (hs.blockBitmap k hk),
    fun k hk => hrep.inodeBitmap hw hidx hk (hs.inodeBitmap k hk), fun k hk => ?_, ?_⟩
  · obtain ⟨buf, hbuf, hread⟩ := hs.desc k hk
    have hsize : 32 ≤ (fs.groups idx).descSize := hw.desc_size idx hidx
    have hnew := hrep.descBlock hw hidx hk hbuf
    rcases eq_or_ne k idx with rfl | hne
    · rw [if_pos rfl] at hnew
      rw [groups_setMetadata_self]
      exact ⟨_, hnew, readCounters_patchDesc_same m hsize (hw.desc_fits k hidx)⟩
    · rw [groups_setMetadata_other hne]
      refine ⟨_, hnew, ?_⟩
      split_ifs with hblk
      · have hapart := descs_apart hw hk hidx hne hblk
        have hk32 : 32 ≤ (fs.groups k).descSize := hw.desc_size k hk
        rw [readCounters_patchDesc_other m hsize (by omega), hread]
      · exact hread
  · have hsb_desc : superblockBid ≠ (fs.groups idx).descBlockBid :=
      (hw.desc_ne_sb idx hidx).symm
    rw [publishImage_other hsb_desc ?_]
    · exact hs.superblock
    · rcases hrep.which with ⟨h, -, -⟩ | ⟨h, -, -⟩
      · exact h ▸ (hw.blockBitmap_ne_sb idx hidx).symm
      · exact h ▸ (hw.inodeBitmap_ne_sb idx hidx).symm

theorem Recorded.setSb (hs : Recorded fs.sb fs.groups image) (hw : fs.layout.Wf) (hframe : sb.frame = fs.sb.frame) :
    Recorded sb fs.groups
      (overlay true superblockBid (sb.patchInto sb.lastOrphan) image) := by
  have hnr : sb.nrBlockGroups = fs.sb.nrBlockGroups := by
    simpa [frame] using congrArg nrBlockGroups hframe
  have hkeep : ∀ b, b ≠ superblockBid →
      overlay true superblockBid (sb.patchInto sb.lastOrphan) image b = image b :=
    fun b hb => by rw [overlay, if_neg fun h => hb h.1]
  refine ⟨?_, ?_, ?_, ?_⟩
  · rw [hnr]
    intro k hk
    exact (hkeep _ (hw.blockBitmap_ne_sb k hk)).trans (hs.blockBitmap k hk)
  · rw [hnr]
    intro k hk
    exact (hkeep _ (hw.inodeBitmap_ne_sb k hk)).trans (hs.inodeBitmap k hk)
  · rw [hnr]
    intro k hk
    obtain ⟨buf, hbuf, hread⟩ := hs.desc k hk
    exact ⟨buf, (hkeep _ (hw.desc_ne_sb k hk)).trans hbuf, hread⟩
  · obtain ⟨buf, hbuf, -⟩ := hs.superblock
    rw [overlay, if_pos ⟨rfl, rfl⟩, hbuf]
    exact ⟨_, rfl, readCounters_patchInto sb _ buf⟩

end Fs

end Ext4
