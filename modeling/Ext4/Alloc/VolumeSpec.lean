import Ext4.Alloc.GroupSpec
import Ext4.Alloc.Volume
import Mathlib.Algebra.BigOperators.Group.Finset.Basic

namespace Ext4

open Bytes SuperBlock Finset BlockGroup

variable {g : JournalGeometry}

namespace Layout

structure Wf (layout : Layout) : Prop where
  perGroup_pos : 0 < layout.sb.blocksPerGroup
  cover : layout.sb.blocksCount ≤
    layout.sb.firstDataBlock + layout.sb.nrBlockGroups * layout.sb.blocksPerGroup
  first : ∀ idx < layout.sb.nrBlockGroups, (layout.group idx).firstBlock =
    layout.sb.firstDataBlock + idx * layout.sb.blocksPerGroup
  first_le : ∀ idx < layout.sb.nrBlockGroups,
    (layout.group idx).firstBlock ≤ (layout.group idx).lastBlock
  last : ∀ idx < layout.sb.nrBlockGroups, (layout.group idx).lastBlock + 1 =
    min ((layout.group idx).firstBlock + layout.sb.blocksPerGroup) layout.sb.blocksCount
  bits : ∀ idx < layout.sb.nrBlockGroups, (layout.group idx).blockBits =
    (layout.group idx).lastBlock - (layout.group idx).firstBlock + 1
  blockBitmap_inj : ∀ i < layout.sb.nrBlockGroups, ∀ j < layout.sb.nrBlockGroups,
    (layout.group i).blockBitmapBid = (layout.group j).blockBitmapBid → i = j
  inodeBitmap_inj : ∀ i < layout.sb.nrBlockGroups, ∀ j < layout.sb.nrBlockGroups,
    (layout.group i).inodeBitmapBid = (layout.group j).inodeBitmapBid → i = j
  bitmaps_ne : ∀ i < layout.sb.nrBlockGroups, ∀ j < layout.sb.nrBlockGroups,
    (layout.group i).blockBitmapBid ≠ (layout.group j).inodeBitmapBid
  blockBitmap_ne_desc : ∀ i < layout.sb.nrBlockGroups, ∀ j < layout.sb.nrBlockGroups,
    (layout.group i).blockBitmapBid ≠ (layout.group j).descOffset / 4096
  inodeBitmap_ne_desc : ∀ i < layout.sb.nrBlockGroups, ∀ j < layout.sb.nrBlockGroups,
    (layout.group i).inodeBitmapBid ≠ (layout.group j).descOffset / 4096
  blockBitmap_ne_sb : ∀ i < layout.sb.nrBlockGroups,
    (layout.group i).blockBitmapBid ≠ SuperBlock.superblockBid
  inodeBitmap_ne_sb : ∀ i < layout.sb.nrBlockGroups,
    (layout.group i).inodeBitmapBid ≠ SuperBlock.superblockBid
  desc_ne_sb : ∀ i < layout.sb.nrBlockGroups,
    (layout.group i).descOffset / 4096 ≠ SuperBlock.superblockBid
  desc_size : ∀ i < layout.sb.nrBlockGroups, 32 ≤ (layout.group i).descSize
  desc_fits : ∀ i < layout.sb.nrBlockGroups,
    (layout.group i).descOffset % 4096 + (layout.group i).descSize ≤ 4096
  desc_apart : ∀ i < layout.sb.nrBlockGroups, ∀ j < layout.sb.nrBlockGroups, i ≠ j →
    (layout.group i).descOffset + (layout.group i).descSize ≤ (layout.group j).descOffset ∨
      (layout.group j).descOffset + (layout.group j).descSize ≤ (layout.group i).descOffset

variable {layout : Layout} {idx b : Nat}

theorem Wf.located (hw : layout.Wf) (hb : layout.Contains b) :
    layout.groupOf b < layout.sb.nrBlockGroups ∧
      (layout.group (layout.groupOf b)).firstBlock ≤ b ∧
        b ≤ (layout.group (layout.groupOf b)).lastBlock := by
  obtain ⟨hlo, hhi⟩ := hb
  have hcover := hw.cover
  have hpos := hw.perGroup_pos
  have hlt : layout.groupOf b < layout.sb.nrBlockGroups :=
    Nat.div_lt_of_lt_mul (by rw [mul_comm]; omega)
  have hfirst := hw.first _ hlt
  have hlast := hw.last _ hlt
  have hdiv : layout.groupOf b * layout.sb.blocksPerGroup ≤ b - layout.sb.firstDataBlock :=
    Nat.div_mul_le_self _ _
  have hrem : b - layout.sb.firstDataBlock <
      layout.groupOf b * layout.sb.blocksPerGroup + layout.sb.blocksPerGroup := by
    have h := Nat.lt_div_mul_add (a := b - layout.sb.firstDataBlock) hpos
    exact h
  exact ⟨hlt, by omega, by omega⟩

theorem Wf.groupOf_eq (hw : layout.Wf) (hidx : idx < layout.sb.nrBlockGroups)
    (hlo : (layout.group idx).firstBlock ≤ b) (hhi : b ≤ (layout.group idx).lastBlock) :
    layout.Contains b ∧ layout.groupOf b = idx := by
  have hfirst := hw.first idx hidx
  have hlast := hw.last idx hidx
  refine ⟨⟨by omega, by omega⟩, ?_⟩
  refine Nat.div_eq_of_lt_le (by omega) ?_
  rw [add_mul]
  omega

theorem superblockBid_mem (layout : Layout) : superblockBid ∈ layout.systemBids :=
  mem_insert_self _ _

end Layout

namespace Fs

variable {fs fs' fs'' : Fs} {idx : Nat} {m : BlockGroupMetadata} {sb : SuperBlock}
  {image : Nat → Option Block} {T : Finset Nat}

theorem Evolves.setSb (h : fs.Evolves fs' image T) (sb : SuperBlock) :
    (fs.setSb sb).Evolves (fs'.setSb sb) image T where
  sb := rfl
  groups := h.groups
  device := h.device
  aborted := h.aborted
  ready := h.ready.of_same rfl rfl
  mode := h.mode
  image := h.image
  credits := h.credits

theorem journalCapture_ends (hr : fs.Ready) :
    (journalCapture g).Ends fs
      (fun _ fs' => fs.Evolves fs' (fs.patched superblockBid (fs.sb.patchInto fs.sb.lastOrphan))
        {superblockBid})
      fun _ fs' => fs.Evolves fs' fs.image ∅ ∧ fs.Refuses superblockBid :=
  .bind_get (capturePatch_ends hr _ _)

theorem updateSb_ends (hr : fs.Ready) (update : SuperBlock → Except Fault SuperBlock) :
    (updateSb g update).Ends fs
      (fun _ fs' => ∃ sb, update fs.sb = .ok sb ∧ (fs.setSb sb).Evolves fs'
        (fs.patched superblockBid (sb.patchInto sb.lastOrphan)) {superblockBid})
      fun e fs' => fs.Carries fs' ∧
        (update fs.sb = .error e ∨ fs.Refuses superblockBid) := by
  refine .bind_get ?_
  refine (Op.Ends.ofExcept (Q := fun sb fs' => fs' = fs ∧ update fs.sb = .ok sb) (fun sb hok => ⟨rfl, hok⟩)
    fun e herr => ⟨⟨hr, rfl, fun ha => ha⟩, .inl herr⟩).bind fun sb fs1 h1 => ?_
  obtain ⟨rfl, hok⟩ := h1
  refine .bind_modify ?_
  have hr' : (fs1.setSb sb).Ready := hr.of_same rfl rfl
  refine (journalCapture_ends hr').mono (fun _ fs2 h2 => ⟨sb, hok, h2⟩) fun _ fs2 h2 => ?_
  exact ⟨⟨h2.1.ready, h2.1.mode, fun ha => by rw [h2.1.aborted]; exact ha⟩, .inr h2.2⟩

theorem metaBids_subset (hidx : idx < fs.sb.nrBlockGroups) :
    (fs.groups idx).metaBids ⊆ fs.layout.systemBids :=
  fun _ hb => mem_insert_of_mem
    (mem_biUnion.mpr ⟨idx, mem_range.mpr hidx, hb⟩)

def Short (fs : Fs) : Prop :=
  ¬fs.Covers fs.layout.systemBids 0 ∨ ∃ b ∈ fs.layout.systemBids, fs.image b = none

theorem Evolves.layout (h : fs.Evolves fs' image T) : fs'.layout = fs.layout := by
  simp only [Fs.layout, h.sb, h.groups]

theorem Evolves.short (h : fs.Evolves fs' fs.image fs.layout.systemBids) (hs : fs'.Short) :
    fs.Short := by
  unfold Short at hs ⊢
  rw [h.layout] at hs
  rcases hs with hcredit | ⟨b, hb, hnone⟩
  · exact .inl fun hc => hcredit (h.credits _ 0 (Finset.Subset.refl _) hc)
  · rw [h.image] at hnone
    exact .inr ⟨b, hb, hnone⟩

theorem Stuck.short (hidx : idx < fs.sb.nrBlockGroups) (hs : BlockGroup.Stuck fs idx fs') :
    fs.Short := by
  have hsub := metaBids_subset hidx
  rcases hs.1 with hcredit | hnone
  · exact .inl fun hc => hcredit (hc.mono hsub)
  · exact .inr ⟨_, hsub (descBlockBid_mem _), hnone⟩

theorem Evolves.short_of_refuses {b : Nat} (h : (fs.setMetadata idx m).Evolves fs' image
      fs.layout.systemBids) (himage : image b = none → fs.image b = none)
    (hb : b ∈ fs.layout.systemBids) (hr : fs'.Refuses b) : fs.Short := by
  by_contra hno
  simp only [Short, not_or, not_not, not_exists, not_and] at hno
  refine (h.credits _ 0 (Finset.Subset.refl _) hno.1).admits hb (fun hnone => ?_) hr
  rw [h.image] at hnone
  exact hno.2 b hb (himage hnone)

theorem publishImage_none {group : BlockGroup} {bid : Nat} {bitmap : IdBitmap} {live : Bool} {b : Nat} :
    group.publishImage bid bitmap m live image b = none ↔ image b = none := by
  simp only [publishImage, overlay_none]

structure Allotted (fs fs' : Fs) (count : Nat) (pinnedFrees : List (Nat × Nat)) (r : IdRange)
    (idx : Nat) (m : BlockGroupMetadata) (sb : SuperBlock) : Prop where
  idx_lt : idx < fs.sb.nrBlockGroups
  claimed : (fs.groups idx).Claimed count fs.sb.freeBlocksCount pinnedFrees r m
  counted : fs.sb.decFreeBlocks r.len = .ok sb
  evolves : ((fs.setMetadata idx m).setSb sb).Evolves fs'
    (overlay fs.handle.isSome SuperBlock.superblockBid (sb.patchInto sb.lastOrphan)
      ((fs.groups idx).publishImage (fs.groups idx).metadata.desc.blockBitmapBid m.blockBitmap m
        fs.handle.isSome fs.image)) fs.layout.systemBids

def Spared (fs fs' : Fs) : Prop :=
  fs.Evolves fs' fs.image fs.layout.systemBids ∨ fs.Short ∧ fs.Carries fs'

section Ring

variable {base : Fs} (hev : base.Evolves fs base.image base.layout.systemBids) (hidx : idx < base.sb.nrBlockGroups)

include hev hidx

theorem Evolves.union_metaBids : base.layout.systemBids ∪ (fs.groups idx).metaBids ⊆ base.layout.systemBids := by
  refine union_subset (Finset.Subset.refl _) ?_
  rw [hev.groups]
  exact metaBids_subset hidx

theorem Evolves.group (h : fs.Evolves fs' fs.image (fs.groups idx).metaBids) :
    base.Evolves fs' base.image base.layout.systemBids := by
  rw [show fs.image = base.image from funext hev.image] at h
  exact (hev.trans h).weaken (hev.union_metaBids hidx)

theorem Evolves.spared (h : fs.Evolves fs' fs.image (fs.groups idx).metaBids ∨ BlockGroup.Stuck fs idx fs') :
    base.Spared fs' := by
  rcases h with hsame | hstuck
  · exact .inl (hev.group hidx hsame)
  · have hshort := hev.short (Stuck.short (by rw [hev.sb]; exact hidx) hstuck)
    exact .inr ⟨hshort, hev.carries.trans hstuck.2⟩

end Ring

variable {base : Fs}

theorem searchGroups_ends (hev : base.Evolves fs base.image base.layout.systemBids)
    (count : Nat) (pinnedFrees : List (Nat × Nat)) {ring : List Nat}
    (hring : ∀ idx ∈ ring, idx < base.sb.nrBlockGroups) (pinnedBlocked : Bool) :
    (searchGroups g count base.sb.freeBlocksCount pinnedFrees ring pinnedBlocked).Ends fs
      (fun r fs' => ∃ idx m sb, base.Allotted fs' count pinnedFrees r idx m sb)
      fun _ fs' => base.Spared fs' := by
  induction ring generalizing fs pinnedBlocked with
  | nil =>
    unfold searchGroups
    split_ifs
    · refine (requestCommitOfRunning_ends hev.ready).bind fun _ fs1 h1 => .fail (.inl ?_)
      have himage : fs.image = base.image := funext hev.image
      rw [himage] at h1
      exact (hev.trans h1).weaken (by simp)
    · exact .fail (.inl hev)
  | cons idx rest ih =>
    obtain ⟨hidx, hrest⟩ := List.forall_mem_cons.mp hring
    unfold searchGroups
    refine (allocBlocks_ends hev.ready g idx count _ pinnedFrees).bindOr
      (fun _ fs1 h1 => hev.spared hidx h1) fun res fs1 h1 => ?_
    cases res with
    | noFit pinnedInGroup => exact ih (hev.group hidx h1) hrest _
    | allocated r =>
      obtain ⟨m, hclaim, hpub⟩ := h1
      have hlift := ((hev.setMetadata idx m).trans hpub).weaken (hev.union_metaBids hidx)
      rw [show fs.image = base.image from funext hev.image, hev.mode, hev.groups] at hlift
      rw [hev.groups] at hclaim
      refine (updateSb_ends hpub.ready _).bindOr (fun e fs2 h2 => ?_)
        fun _ fs2 h2 => .ret ?_
      · obtain ⟨hcarries, hcause⟩ := h2
        refine .inr ⟨?_, ⟨hcarries.ready, hcarries.mode.trans hlift.mode,
          fun ha => hcarries.aborted (by rw [hlift.aborted]; exact ha)⟩⟩
        rcases hcause with hdec | hrefused
        · have hfree : r.len ≤ base.sb.freeBlocksCount := hclaim.len_sb
          rw [hlift.sb] at hdec
          simp [decFreeBlocks, setMetadata, hfree] at hdec
        · exact hlift.short_of_refuses publishImage_none.mp (Layout.superblockBid_mem _) hrefused
      · obtain ⟨sb, hdec, hcap⟩ := h2
        rw [hlift.sb] at hdec
        refine ⟨idx, m, sb, hidx, hclaim, hdec, ((hlift.setSb sb).patch hcap).weaken ?_⟩
        exact union_subset (Finset.Subset.refl _)
          (singleton_subset_iff.mpr (Layout.superblockBid_mem _))

end Fs

end Ext4
