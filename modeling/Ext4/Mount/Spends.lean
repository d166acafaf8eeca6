import Ext4.Alloc.Captures
import Ext4.Base.Cost
import Ext4.Extent.Tends
import Ext4.Mount.Reclaim

namespace Ext4

open Op Finset

namespace Fs

structure Sites (fs fs' : Fs) : Prop where
  nrBlockGroups : fs'.sb.nrBlockGroups = fs.sb.nrBlockGroups
  group : ∀ idx, (fs'.groups idx).layout = (fs.groups idx).layout

instance : IsPreorder Fs Sites where
  refl _ := ⟨rfl, fun _ => rfl⟩
  trans _ _ _ h₁ h₂ :=
    ⟨h₂.nrBlockGroups.trans h₁.nrBlockGroups, fun idx => (h₂.group idx).trans (h₁.group idx)⟩

def allocBids (fs : Fs) : Finset Nat :=
  {SuperBlock.superblockBid} ∪
    ((Finset.range fs.sb.nrBlockGroups).image (fun idx => (fs.groups idx).layout.blockBitmapBid) ∪
      (Finset.range fs.sb.nrBlockGroups).image fun idx => (fs.groups idx).layout.descOffset / 4096)

structure Spends (alloc : Bool) (n : Nat) (fs fs' : Fs) : Prop where
  sites : fs.Sites fs'
  captures : ∃ X : Finset Nat, X.card ≤ n ∧ fs.Adds ((if alloc then fs.allocBids else ∅) ∪ X) fs'

section Relation

variable {fs fs' : Fs} {alloc : Bool} {S : Finset Nat} {n : Nat} {idx : Nat}

theorem Sites.allocBids (h : fs.Sites fs') : fs'.allocBids = fs.allocBids := by
  unfold Fs.allocBids
  simp only [h.nrBlockGroups, h.group]

theorem Still.sites (h : fs.Still fs') : fs.Sites fs' := ⟨by rw [h.sb], fun idx => by rw [h.groups]⟩

theorem Idles.sites (h : fs.Idles fs') : fs.Sites fs' := ⟨by rw [h.sb], fun idx => by rw [h.groups]⟩

theorem Adds.mono {T : Finset Nat} (h : fs.Adds S fs') (hsub : S ⊆ T) : fs.Adds T fs' :=
  fun b hb => (h b hb).imp_right fun hmem => hsub hmem

instance (alloc : Bool) : Graded (Spends alloc) where
  refl s := ⟨refl_of Sites s, ∅, Nat.le_refl 0, refl_of (Adds _) s⟩
  mono hle h := by
    obtain ⟨X, hcard, hadds⟩ := h.captures
    exact ⟨h.sites, X, hcard.trans hle, hadds⟩
  trans h₁ h₂ := by
    obtain ⟨X, hX, haddsX⟩ := h₁.captures
    obtain ⟨Y, hY, haddsY⟩ := h₂.captures
    rw [h₁.sites.allocBids] at haddsY
    refine ⟨trans_of Sites h₁.sites h₂.sites, X ∪ Y, ?_, ?_⟩
    · exact (Finset.card_union_le X Y).trans (Nat.add_le_add hX hY)
    · refine trans_of (Adds _) (haddsX.mono ?_) (haddsY.mono ?_)
      · exact Finset.union_subset_union_right Finset.subset_union_left
      · exact Finset.union_subset_union_right Finset.subset_union_right

theorem Spends.of_adds (hsites : fs.Sites fs') (hadds : fs.Adds S fs') (hcard : S.card ≤ n) :
    fs.Spends alloc n fs' := ⟨hsites, S, hcard, hadds.mono subset_union_right⟩

theorem Spends.of_allocBids (hsites : fs.Sites fs') (hadds : fs.Adds S fs') (hsub : S ⊆ fs.allocBids) :
    fs.Spends true 0 fs' :=
  ⟨hsites, ∅, le_refl 0, hadds.mono (hsub.trans subset_union_left)⟩

theorem bitmap_mem_allocBids (h : idx < fs.sb.nrBlockGroups) :
    (fs.groups idx).metadata.desc.blockBitmapBid ∈ fs.allocBids :=
  mem_union_right _ (mem_union_left _ (mem_image.mpr ⟨idx, mem_range.mpr h, rfl⟩))

theorem desc_mem_allocBids (h : idx < fs.sb.nrBlockGroups) :
    (fs.groups idx).descBlockBid ∈ fs.allocBids :=
  mem_union_right _ (mem_union_right _ (mem_image.mpr ⟨idx, mem_range.mpr h, rfl⟩))

theorem superblock_mem_allocBids (fs : Fs) : SuperBlock.superblockBid ∈ fs.allocBids :=
  mem_union_left _ (mem_singleton_self _)

end Relation

section Funnel

variable {alloc : Bool} (g : JournalGeometry) {S : Finset Nat}

theorem costs_of {α : Type} {m : FsOp α} (hstill : Keeps Still m) {n : Nat} (htints : Keeps (Tints S) m)
    (hcard : S.card ≤ n) : Costs (Spends alloc) n m := fun fs =>
  .of_adds (hstill fs).sites (htints fs).adds hcard

theorem getWriteAccess_costs (bid : Nat) : Costs (Spends alloc) 1 (getWriteAccess g bid) :=
  costs_of (getWriteAccess_still g bid) (getWriteAccess_tints g (mem_singleton_self bid))
    (card_singleton bid).le

theorem getCreateAccess_costs (bid : Nat) : Costs (Spends alloc) 1 (getCreateAccess g bid) :=
  costs_of (getCreateAccess_still g bid) (getCreateAccess_tints g (mem_singleton_self bid))
    (card_singleton bid).le

theorem patch_costs (access : WriteAccess) (f : Block → Block) : Costs (Spends alloc) 0 (patch access f) :=
  costs_of (patch_still access f) (patch_tints access f) (le_of_eq card_empty)

theorem capturePatch_costs (bid : Nat) (f : Block → Block) : Costs (Spends alloc) 1 (capturePatch g bid f) :=
  costs_of (capturePatch_still g bid f) (capturePatch_tints g (mem_singleton_self bid) f)
    (card_singleton bid).le

theorem registerOrderedData_tints (ino len : Nat) :
    Keeps (Tints S) (underHandle () fun h st => keepOnError h st (st.registerOrderedData h.tid ino len)) := by
  refine keepOnError_tints fun h st st' hst => ?_
  unfold JournalState.registerOrderedData at hst
  split at hst
  · cases hst
  · next txn hactive =>
    cases hst
    exact JournalState.tints_setActive hactive (.of_record rfl)

theorem writeDevice_costs (bid : Nat) (block : Block) : Costs (Spends alloc) 0 (writeDevice bid block) := by
  intro fs
  have hsites : fs.Sites (writeDevice bid block fs).2 ∧ fs.Adds ∅ (writeDevice bid block fs).2 := by
    unfold writeDevice
    split
    · exact ⟨⟨rfl, fun _ => rfl⟩, fun _ hb => .inl hb⟩
    · exact ⟨refl_of Sites fs, refl_of (Adds ∅) fs⟩
  exact .of_adds hsites.1 hsites.2 (le_of_eq card_empty)

end Funnel

section Allocate

variable {fs : Fs} {idx : Nat} (g : JournalGeometry) {metadata : BlockGroupMetadata} {count sbFreeBlocks : Nat}
  {pinnedFrees : List (Nat × Nat)} {r : IdRange} {fs' : Fs} {ring : List Nat}

theorem Sites.setMetadata
    (h : ({ fs.groups idx with metadata := metadata } : BlockGroup).layout = (fs.groups idx).layout) :
    fs.Sites (fs.setMetadata idx metadata) := by
  refine ⟨rfl, fun k => ?_⟩
  by_cases hk : k = idx
  · rw [hk]
    simpa [Fs.setMetadata] using h
  · simp [Fs.setMetadata, hk]

theorem claimed_layout {group : BlockGroup} (h : group.Claimed count sbFreeBlocks pinnedFrees r metadata) :
    ({ group with metadata := metadata } : BlockGroup).layout = group.layout := by
  have hdesc := h.desc
  rw [BlockGroupDesc.clearBlockUninit_eq] at hdesc
  simp only [BlockGroup.layout, hdesc, h.len, h.inodes]

theorem Touched.sites (h : BlockGroup.Touched fs idx count sbFreeBlocks pinnedFrees fs') : fs.Sites fs' := by
  rcases h with h | ⟨r, metadata, hc, h⟩
  · exact h.sites
  · exact trans_of Sites (.setMetadata (claimed_layout hc)) h.sites

theorem updateSb_costs {update : SuperBlock → Except Fault SuperBlock}
    (hsb : ∀ (fs : Fs) sb, update fs.sb = .ok sb → sb.frame = fs.sb.frame) :
    Costs (Spends true) 0 (updateSb g update) := fun fs => by
  have hsites : ∀ (fs : Fs) sb, update fs.sb = .ok sb → fs.Sites (fs.setSb sb) := fun fs sb h =>
    ⟨(congrArg SuperBlock.nrBlockGroups (hsb fs sb h) : sb.frame.nrBlockGroups = _), fun _ => rfl⟩
  exact .of_allocBids (updateSb_keeps g (fun _ _ h => h.sites) hsites fs)
    (updateSb_tints g (mem_singleton_self _) update fs).adds
    (Finset.singleton_subset_iff.mpr fs.superblock_mem_allocBids)

structure Yields (fs : Fs) (count : Nat) (r : IdRange) : Prop where
  pos : r.start < r.stop
  len_le : r.len ≤ count
  within : ∃ idx < fs.sb.nrBlockGroups, r.stop ≤ (fs.groups idx).layout.firstBlock +
    (fs.groups idx).layout.blockBits

theorem groupAllocBlocks_spends (h : idx < fs.sb.nrBlockGroups) (count sbFreeBlocks : Nat)
    (pinnedFrees : List (Nat × Nat)) :
    (BlockGroup.allocBlocks g idx count sbFreeBlocks pinnedFrees).Ends fs
      (fun res fs' => fs.Spends true 0 fs' ∧ ∀ r, res = .allocated r → fs.Yields count r)
      fun _ fs' => fs.Spends true 0 fs' := by
  have hpair : {(fs.groups idx).metadata.desc.blockBitmapBid, (fs.groups idx).descBlockBid} ⊆ fs.allocBids :=
    insert_subset_iff.mpr
      ⟨bitmap_mem_allocBids h, Finset.singleton_subset_iff.mpr (desc_mem_allocBids h)⟩
  refine ((BlockGroup.allocBlocks_settles g fs idx count sbFreeBlocks pinnedFrees).and
    (BlockGroup.allocBlocks_adds g fs idx count sbFreeBlocks pinnedFrees)).mono (fun res fs' hres => ?_)
    fun e fs' he => .of_allocBids (Touched.sites he.1.1) he.2 hpair
  cases res with
  | noFit pinnedInGroup =>
    refine ⟨.of_allocBids hres.1.1.sites hres.2 ?_, fun r hr => by cases hr⟩
    exact Finset.singleton_subset_iff.mpr (bitmap_mem_allocBids h)
  | allocated r =>
    obtain ⟨⟨metadata, hc, hidle, -⟩, hadds⟩ := hres
    refine ⟨.of_allocBids ?_ hadds hpair, fun r' hr => ?_⟩
    · exact trans_of Sites (.setMetadata (claimed_layout hc)) hidle.sites
    · cases hr
      exact ⟨hc.pos, hc.len_le, idx, h, hc.le⟩

theorem Sites.yields (hs : fs.Sites fs') (h : fs'.Yields count r) :
    fs.Yields count r := by
  obtain ⟨idx, hidx, hle⟩ := h.within
  rw [hs.group] at hle
  exact ⟨h.pos, h.len_le, idx, hs.nrBlockGroups ▸ hidx, hle⟩

theorem searchGroups_spends (count sbFreeBlocks : Nat) (pinnedFrees : List (Nat × Nat))
    (hring : ∀ idx ∈ ring, idx < fs.sb.nrBlockGroups) (pinnedBlocked : Bool) :
    (searchGroups g count sbFreeBlocks pinnedFrees ring pinnedBlocked).Ends fs
      (fun r fs' => fs.Spends true 0 fs' ∧ fs.Yields count r) fun _ fs' => fs.Spends true 0 fs' := by
  induction ring generalizing fs pinnedBlocked with
  | nil =>
    have hidle : Costs (Spends true) 0 requestCommitOfRunning := fun fs =>
      .of_adds (requestCommitOfRunning_still fs).sites (requestCommitOfRunning_adds fs) (le_of_eq card_empty)
    unfold searchGroups
    split_ifs
    · exact ((hidle.ends fs).both fun _ h => h).bind fun _ _ h => .fail h
    · exact .fail (Graded.refl fs)
  | cons idx ring ih =>
    refine (groupAllocBlocks_spends g (hring idx List.mem_cons_self) count sbFreeBlocks pinnedFrees).bind
      fun res fs1 h1 => ?_
    obtain ⟨hspend, hyield⟩ := h1
    cases res with
    | allocated r =>
      refine Op.Ends.bind (Q := fun _ fs2 => fs.Spends true 0 fs2) ?_ fun _ fs2 h2 => .ret ⟨h2, hyield r rfl⟩
      exact ((updateSb_costs g fun _ _ h => decFreeBlocks_ok h).ends fs1).both fun _ h => Graded.trans hspend h
    | noFit pinnedInGroup =>
      have hring1 : ∀ i ∈ ring, i < fs1.sb.nrBlockGroups := fun i hi => by
        rw [hspend.sites.nrBlockGroups]
        exact hring i (List.mem_cons_of_mem idx hi)
      exact (ih hring1 _).mono (fun _ _ h => ⟨Graded.trans hspend h.1, hspend.sites.yields h.2⟩)
        fun _ _ h => Graded.trans hspend h

theorem allocBlocks_spends (fs : Fs) (count goal : Nat) :
    (Fs.allocBlocks g count goal).Ends fs (fun r fs' => fs.Spends true 0 fs' ∧ fs.Yields count r)
      fun _ fs' => fs.Spends true 0 fs' := by
  unfold allocBlocks
  split_ifs
  · exact .fail (Graded.refl fs)
  · refine .bind_get ?_
    split_ifs
    · exact .fail (Graded.refl fs)
    · exact searchGroups_spends g count _ _ groupRing_lt false

theorem getWriteAccess_grouped (bid : Nat) : (getWriteAccess g bid).Ends fs
    (fun _ fs1 => fs.Spends true 1 fs1 ∧ fs1.groups = fs.groups) fun _ fs1 => fs.Spends true 1 fs1 :=
  (((getWriteAccess_costs g _).ends fs).and ((getWriteAccess_still g _).ends fs)).mono
    (fun _ _ h => ⟨h.1, h.2.groups⟩) fun _ _ h => h.1

section

variable (h : idx < fs.sb.nrBlockGroups)

include h

theorem publish_spends {fs1 : Fs} {n : Nat} (h1 : fs.Spends true n fs1)
    (hlayout : ({ fs.groups idx with metadata := metadata } : BlockGroup).layout = (fs.groups idx).layout)
    (hgroup : fs1.groups idx = fs.groups idx) (access : WriteAccess) (bitmap : IdBitmap) :
    (BlockGroup.publish g (fs.groups idx) access bitmap metadata).Leaves (fs1.setMetadata idx metadata) fun fs' =>
      fs.Spends true n fs' := by
  have hset : fs1.Spends true 0 (fs1.setMetadata idx metadata) :=
    .of_allocBids (S := ∅) (.setMetadata (by rw [hgroup]; exact hlayout)) (fun _ hb => .inl hb)
      (empty_subset _)
  have hdesc : {(fs.groups idx).descBlockBid} ⊆ (fs1.setMetadata idx metadata).allocBids := by
    rw [hset.sites.allocBids, h1.sites.allocBids, Finset.singleton_subset_iff]
    exact desc_mem_allocBids h
  have hpublish : (fs1.setMetadata idx metadata).Spends true 0
      (BlockGroup.publish g (fs.groups idx) access bitmap metadata (fs1.setMetadata idx metadata)).2 :=
    .of_allocBids (publish_still g (fs.groups idx) access bitmap _).sites
      (BlockGroup.publish_tints g (mem_singleton_self _) bitmap metadata _).adds hdesc
  have hall := Graded.trans h1 (Graded.trans hset hpublish)
  exact .intro (fun a fs' hrun => by rwa [hrun] at hall) fun e fs' hrun => by rwa [hrun] at hall

theorem groupAllocIno_spends (type : InodeType) :
    (BlockGroup.allocIno g idx type).Ends fs
      (fun res fs' => (res = none → fs' = fs) ∧ fs.Spends true 1 fs') fun _ fs' => fs.Spends true 1 fs' := by
  have hstart : fs.Spends true 1 fs := Graded.mono zero_le (Graded.refl fs)
  refine .bind_get ?_
  dsimp only
  split
  · exact .ret ⟨fun _ => rfl, hstart⟩
  split
  · exact .ret ⟨fun _ => rfl, hstart⟩
  split
  · exact .fail hstart
  refine (getWriteAccess_grouped g _).bind fun access fs1 h1 => ?_
  obtain ⟨hspend, hgroups⟩ := h1
  have hgroup : fs1.groups idx = fs.groups idx := congrFun hgroups idx
  cases halloc : (fs.groups idx).metadata.inodeBitmap.allocConsecutive 1 with
  | mk res bitmap =>
    cases res with
    | none =>
      obtain rfl := IdBitmap.allocConsecutive_none halloc
      refine .bind_modify (.fail ?_)
      have hsites : fs1.Sites (fs1.setMetadata idx (fs.groups idx).metadata) :=
        .setMetadata (by rw [hgroup])
      exact Graded.trans hspend (Spends.of_allocBids (S := ∅) hsites (fun _ hb => .inl hb)
        (empty_subset _))
    | some range =>
      have hc := IdBitmap.allocConsecutive_some halloc
      refine .bind_modify ?_
      refine (publish_spends g h hspend ?_ hgroup access bitmap).bind
        fun _ _ h => .ret ⟨fun hnone => (nomatch hnone), h⟩
      simp only [BlockGroup.layout, hc.len]

theorem groupFreeInode_spends (localIdx : Nat) (type : InodeType) :
    (BlockGroup.freeInode g idx localIdx type).Leaves fs (fs.Spends true 1) := by
  have hstart : fs.Spends true 1 fs := Graded.mono zero_le (Graded.refl fs)
  refine .bind_get ?_
  dsimp only
  split
  · exact .ret hstart
  refine (getWriteAccess_grouped g _).bind fun access fs1 h1 => ?_
  obtain ⟨hspend, hgroups⟩ := h1
  split
  · exact .fail hspend
  split
  · exact .fail hspend
  · refine .bind_modify ?_
    refine (publish_spends g h hspend ?_ (congrFun hgroups idx) access _).bind fun _ _ h => .ret h
    simp only [BlockGroup.layout]
    rfl

end

theorem decFreeInodes_frame {sb : SuperBlock} (h : fs.sb.decFreeInodes = .ok sb) :
    sb.frame = fs.sb.frame := by
  unfold SuperBlock.decFreeInodes at h
  split at h
  · cases h
    rfl
  · cases h

theorem searchInodeGroups_spends (type : InodeType) (hring : ∀ idx ∈ ring, idx < fs.sb.nrBlockGroups) :
    (searchInodeGroups g type ring).Leaves fs (fs.Spends true 2) := by
  induction ring generalizing fs with
  | nil => exact .fail (Graded.mono zero_le (Graded.refl fs))
  | cons idx ring ih =>
    have hidx := hring idx List.mem_cons_self
    refine (groupAllocIno_spends g hidx type).bindOr (fun _ _ h => Graded.mono (by decide) h) fun res fs1 h1 => ?_
    obtain ⟨hnone, hspend⟩ := h1
    cases res with
    | none =>
      rw [hnone rfl]
      exact ih fun i hi => hring i (List.mem_cons_of_mem idx hi)
    | some localIdx =>
      refine .bind_get ?_
      dsimp only
      split
      · refine Op.Ends.bind (Q := fun _ fs2 => fs.Spends true 2 fs2) ?_ fun _ _ h => .ret h
        exact ((updateSb_costs g fun _ _ h => decFreeInodes_frame h).ends fs1).both fun _ h => Graded.mono (by decide) (Graded.trans hspend h)
      · have hidx1 : idx < fs1.sb.nrBlockGroups := by
          rw [hspend.sites.nrBlockGroups]
          exact hidx
        refine Op.Ends.bind (Q := fun _ fs2 => fs.Spends true 2 fs2) (.attempt ?_) fun _ _ h => .fail h
        exact (groupFreeInode_spends g hidx1 localIdx type).both fun _ h => Graded.trans hspend h

theorem allocIno_spends (parentIno : Nat) (type : InodeType) :
    Costs (Spends true) 2 (Fs.allocIno g parentIno type) := by
  refine .of_ends fun fs => ?_
  have hstart : fs.Spends true 2 fs := Graded.mono zero_le (Graded.refl fs)
  unfold Fs.allocIno
  split
  · exact .fail hstart
  refine .bind_get ?_
  split
  · exact .fail hstart
  split
  · exact .fail hstart
  · exact searchInodeGroups_spends g type groupRing_lt

theorem freeInode_spends (ino : Nat) (type : InodeType) : Costs (Spends true) 1 (Fs.freeInode g ino type) := by
  refine .of_ends fun fs => .bind_get ?_
  cases hfind : findGroup fs.sb ino with
  | error e => exact .fail (Graded.mono zero_le (Graded.refl fs))
  | ok idx =>
    have hidx : idx < fs.sb.nrBlockGroups := by
      unfold findGroup at hfind
      split_ifs at hfind with h1 h2 h3
      cases hfind
      exact not_le.mp h3
    refine .bind_of_eq rfl ((groupFreeInode_spends g hidx _ type).bind fun freed fs1 h1 => ?_)
    split
    · exact ((updateSb_costs g fun _ _ h => incFreeInodes_ok h).ends fs1).both fun _ h => Graded.trans h1 h
    · exact .ret h1

end Allocate

section Table

variable {alloc : Bool} (t : InodeTable) (g : JournalGeometry)

theorem writeBackInodeDesc_costs (chain : OrphanChain) (ino : Nat) (desc : InodeDesc) (root : Bytes.Buffer 60) :
    Costs (Spends alloc) 1 (Fs.writeBackInodeDesc t g chain ino desc root) := by
  refine .after .get fun fs => .after (.ofExcept _) fun slot => ?_
  split
  · exact capturePatch_costs g _ _
  split
  · exact (Costs.fail _).le zero_le
  · exact (writeDevice_costs _ _).le zero_le

theorem writeNewInodeDesc_costs (ino : Nat) (desc : InodeDesc) :
    Costs (Spends alloc) 1 (Fs.writeNewInodeDesc t g ino desc) := by
  refine .after .get fun fs => .after (.ofExcept _) fun slot => ?_
  dsimp only
  split
  · exact capturePatch_costs g _ _
  split
  · exact (Costs.fail _).le zero_le
  · exact (writeDevice_costs _ _).le zero_le

end Table

end Fs

end Ext4
