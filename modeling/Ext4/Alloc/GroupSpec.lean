import Ext4.Alloc.Group
import Mathlib.Order.Interval.Finset.Nat

namespace Ext4

open IdRange Finset IdBitmap

variable {access : WriteAccess} {g : JournalGeometry}

namespace Fs

variable {fs fs' : Fs} {idx : Nat} {metadata : BlockGroupMetadata} {image : Nat → Option Block}
  {T : Finset Nat}

@[simp] theorem setMetadata_self (fs : Fs) (idx : Nat) :
    fs.setMetadata idx (fs.groups idx).metadata = fs := by
  simp [setMetadata]

@[simp] theorem setMetadata_setMetadata (fs : Fs) (idx : Nat) (m m' : BlockGroupMetadata) :
    (fs.setMetadata idx m).setMetadata idx m' = fs.setMetadata idx m' := by
  simp [setMetadata]

theorem Ready.of_same (hr : fs.Ready) (hh : fs'.handle = fs.handle) (hj : fs'.journal = fs.journal) :
    fs'.Ready := by
  cases hr with
  | plain hn hnone => exact .plain (hh.trans hn) (hj.trans hnone)
  | live hl => exact .live ⟨hh.trans hl.handle, hj.trans hl.journal, hl.serves, hl.credits⟩

theorem Ready.setMetadata (hr : fs.Ready) (idx : Nat) (metadata : BlockGroupMetadata) :
    (fs.setMetadata idx metadata).Ready :=
  hr.of_same rfl rfl

theorem Granted.setMetadata {b : Nat} (hg : fs.Granted access b) (idx : Nat)
    (metadata : BlockGroupMetadata) : (fs.setMetadata idx metadata).Granted access b := by
  cases hg with
  | inert ha hn => exact .inert ha hn
  | captured hl ha hget => exact .captured ⟨hl.handle, hl.journal, hl.serves, hl.credits⟩ ha hget

theorem Evolves.setMetadata (h : fs.Evolves fs' image T) (idx : Nat) (metadata : BlockGroupMetadata) :
    (fs.setMetadata idx metadata).Evolves (fs'.setMetadata idx metadata) image T where
  sb := h.sb
  device := h.device
  groups := by simp only [Fs.setMetadata, h.groups]
  aborted := h.aborted
  ready := h.ready.setMetadata idx metadata
  mode := h.mode
  image := h.image
  credits := h.credits

theorem Evolves.restored (h : fs.Evolves fs' image T) (idx : Nat) :
    fs.Evolves (fs'.setMetadata idx (fs.groups idx).metadata) image T := by
  rw [← h.groups, setMetadata_self]
  exact h

structure Carries (fs fs' : Fs) : Prop where
  ready : fs'.Ready
  mode : fs'.handle.isSome = fs.handle.isSome
  aborted : fs.aborted = true → fs'.aborted = true

theorem Evolves.carries (h : fs.Evolves fs' image T) : fs.Carries fs' :=
  ⟨h.ready, h.mode, fun ha => by rw [h.aborted]; exact ha⟩

theorem Carries.trans {fs'' : Fs} (h1 : fs.Carries fs') (h2 : fs'.Carries fs'') : fs.Carries fs'' :=
  ⟨h2.ready, h2.mode.trans h1.mode, fun ha => h2.aborted (h1.aborted ha)⟩

theorem Evolves.setCarries (h : (fs.setMetadata idx metadata).Evolves fs' image T) :
    fs.Carries fs' :=
  ⟨h.ready, h.mode, fun ha => by rw [h.aborted]; exact ha⟩

theorem abortJournalOnFsError_ends (hr : fs.Ready) {E : Fault → Fs → Prop} :
    abortJournalOnFsError.Ends fs
      (fun _ fs' => fs.Carries fs' ∧ (fs.handle.isSome → fs'.aborted = true)) E := by
  refine .modify ?_
  cases hr with
  | plain hn hj =>
    simp only [hn]
    exact ⟨⟨.plain hn hj, rfl, fun ha => ha⟩, fun h => by simp at h⟩
  | @live h j txn hl =>
    simp only [hl.handle, hl.journal, Option.map_some]
    refine ⟨⟨.live ⟨rfl, rfl, ?_, hl.credits⟩, by simp [hl.handle], fun _ => rfl⟩, fun _ => rfl⟩
    exact hl.serves

end Fs

namespace BlockGroup

open Fs

variable {count sbFreeBlocks : Nat} {r : IdRange} {image : Nat → Option Block}

structure Claimed (group : BlockGroup) (count sbFreeBlocks : Nat) (pinnedFrees : List (Nat × Nat))
    (r : IdRange) (metadata : BlockGroupMetadata) : Prop where
  first_le : group.firstBlock ≤ r.start
  pos : r.start < r.stop
  len_le : r.len ≤ count
  len_free : r.len ≤ group.metadata.desc.freeBlocksCount
  len_sb : r.len ≤ sbFreeBlocks
  le : r.stop ≤ group.firstBlock + group.metadata.blockBitmap.len
  clear : ∀ b, r.contains b = true →
    group.metadata.blockBitmap.isAllocated (b - group.firstBlock) = false
  len : metadata.blockBitmap.len = group.metadata.blockBitmap.len
  bits : ∀ i, metadata.blockBitmap.isAllocated i =
    if r.contains (group.firstBlock + i) then true else group.metadata.blockBitmap.isAllocated i
  unpinned : ∀ run ∈ pinnedFrees, ∀ b, r.contains b = true → b ≤ group.lastBlock →
    ¬(run.1 ≤ b ∧ b < run.1 + run.2)
  zone : group.overlapsSystemZoneWith group.metadata.desc r = false
  desc : metadata.desc = { group.metadata.desc with
    freeBlocksCount := group.metadata.desc.freeBlocksCount - r.len }.clearBlockUninit
  inodes : metadata.inodeBitmap = group.metadata.inodeBitmap

variable {group : BlockGroup} {pinnedFrees : List (Nat × Nat)} {run : Nat × Nat} {b : Nat}

theorem mem_pinnedBits (hrun : run ∈ pinnedFrees) (hfirst : group.firstBlock ≤ b)
    (hlast : b ≤ group.lastBlock) (hb : run.1 ≤ b ∧ b < run.1 + run.2) :
    ∃ pin ∈ group.pinnedBits pinnedFrees, pin.contains (b - group.firstBlock) = true := by
  refine ⟨⟨max run.1 group.firstBlock - group.firstBlock,
    min (run.1 + run.2) (group.lastBlock + 1) - group.firstBlock⟩, ?_, ?_⟩
  · refine List.mem_filterMap.mpr ⟨run, hrun, ?_⟩
    simp only
    rw [if_pos (by omega)]
  · apply contains_iff.mpr
    simp only
    omega

theorem claimed_of_takes {requested : Nat} {bitmap : IdBitmap}
    (ht : group.metadata.blockBitmap.Takes (group.pinnedBits pinnedFrees) requested r bitmap)
    (hcount : requested ≤ count) {desc : BlockGroupDesc} (hok : ¬(group.overlapsSystemZoneWith group.metadata.desc
        ⟨group.firstBlock + r.start, group.firstBlock + r.stop⟩ = true ∨
      group.metadata.desc.freeBlocksCount < r.len ∨ sbFreeBlocks < r.len))
    (hdesc : desc = { group.metadata.desc with
      freeBlocksCount := group.metadata.desc.freeBlocksCount - r.len }.clearBlockUninit) :
    group.Claimed count sbFreeBlocks pinnedFrees
      ⟨group.firstBlock + r.start, group.firstBlock + r.stop⟩
      { group.metadata with desc := desc, blockBitmap := bitmap } := by
  have hpos := ht.pos
  have hlen := ht.len_le
  have hle := ht.le
  have hshift : (⟨group.firstBlock + r.start, group.firstBlock + r.stop⟩ : IdRange).len = r.len := by
    simp only [IdRange.len]
    omega
  have hcontains : ∀ i, (⟨group.firstBlock + r.start, group.firstBlock + r.stop⟩ : IdRange).contains
      (group.firstBlock + i) = r.contains i := fun i => by
    simp [contains]
  have hlocal : ∀ x, (⟨group.firstBlock + r.start, group.firstBlock + r.stop⟩ : IdRange).contains x =
      true → group.firstBlock ≤ x ∧ r.contains (x - group.firstBlock) = true := fun x hx => by
    have hrange := contains_iff.mp hx
    simp only at hrange
    exact ⟨by omega, contains_iff.mpr (by omega)⟩
  refine ⟨Nat.le_add_right _ _, by simp only; omega, by omega, by omega, by omega,
    by simp only; omega, fun x hx => ht.clear _ (hlocal x hx).2, ht.len, fun i => ?_,
    fun run hrun x hx hlast hin => ?_, ?_, ?_, rfl⟩
  · rw [hcontains]
    exact ht.bits i
  · obtain ⟨hfirst, hx⟩ := hlocal x hx
    obtain ⟨pin, hpin, hcov⟩ := mem_pinnedBits hrun hfirst hlast hin
    have hno := ht.unpinned pin hpin
    have h1 := contains_iff.mp hx
    have h2 := contains_iff.mp hcov
    simp only [overlaps, Bool.and_eq_false_iff, decide_eq_false_iff_not] at hno
    omega
  · exact Bool.eq_false_iff.mpr fun hz => hok (.inl hz)
  · rw [hshift]
    exact hdesc

theorem Claimed.books {metadata : BlockGroupMetadata}
    (hc : group.Claimed count sbFreeBlocks pinnedFrees r metadata) :
    metadata.blockBitmap.freeIds.card + r.len = group.metadata.blockBitmap.freeIds.card := by
  have hfirst := hc.first_le
  have hle := hc.le
  have hsplit : group.metadata.blockBitmap.freeIds =
      metadata.blockBitmap.freeIds ∪ Finset.Ico (r.start - group.firstBlock)
        (r.stop - group.firstBlock) := by
    ext i
    simp only [freeIds, mem_union, mem_filter, mem_range, mem_Ico, hc.len, hc.bits]
    by_cases hi : r.contains (group.firstBlock + i) = true
    · have hin := contains_iff.mp hi
      have hclear := hc.clear _ hi
      rw [Nat.add_sub_cancel_left] at hclear
      simp only [hi, if_true, hclear]
      constructor
      · intro _
        exact .inr (by omega)
      · intro _
        exact ⟨by omega, trivial⟩
    · have hout : ¬(r.start ≤ group.firstBlock + i ∧ group.firstBlock + i < r.stop) := fun h =>
        hi (contains_iff.mpr h)
      rw [if_neg hi]
      constructor
      · exact .inl
      · rintro (h | h)
        · exact h
        · exact absurd (by omega) hout
  have hdisj : Disjoint metadata.blockBitmap.freeIds
      (Finset.Ico (r.start - group.firstBlock) (r.stop - group.firstBlock)) := by
    refine disjoint_left.mpr fun i hi hin => ?_
    have hfree := (mem_filter.mp hi).2
    have hico := mem_Ico.mp hin
    have hmem : r.contains (group.firstBlock + i) = true :=
      contains_iff.mpr (by omega)
    rw [hc.bits, if_pos hmem] at hfree
    cases hfree
  rw [hsplit, Finset.card_union_of_disjoint hdisj, Nat.card_Ico, IdRange.len]
  omega

def publishImage (group : BlockGroup) (bid : Nat) (bitmap : IdBitmap) (metadata : BlockGroupMetadata)
    (live : Bool) (image : Nat → Option Block) : Nat → Option Block :=
  overlay live group.descBlockBid (group.patchDesc metadata)
    (overlay live bid (fun _ => bitmap.asBytes) image)

theorem overlay_none {live : Bool} {x : Nat} {f : Block → Block} :
    overlay live x f image b = none ↔ image b = none := by
  unfold overlay
  split_ifs <;> simp

variable {fs base : Fs} {idx : Nat}

theorem blockBitmapBid_subset (group : BlockGroup) :
    {group.metadata.desc.blockBitmapBid} ⊆ group.metaBids := by
  simp [metaBids, GroupLayout.metaBids, layout]

theorem inodeBitmapBid_subset (group : BlockGroup) :
    {group.metadata.desc.inodeBitmapBid} ⊆ group.metaBids := by
  simp [metaBids, GroupLayout.metaBids, layout]

theorem descBlockBid_mem (group : BlockGroup) : group.descBlockBid ∈ group.metaBids := by
  simp [metaBids, GroupLayout.metaBids, layout, descBlockBid]

theorem publish_ends {g : JournalGeometry} {bid : Nat} (bitmap : IdBitmap) (metadata : BlockGroupMetadata)
    (h1 : base.Evolves fs image group.metaBids) (hg : fs.Granted access bid) :
    (publish g group access bitmap metadata).Ends fs
      (fun _ fs' => base.Evolves fs'
        (group.publishImage bid bitmap metadata base.handle.isSome image) group.metaBids)
      fun _ fs' => base.Evolves fs' (overlay base.handle.isSome bid (fun _ => bitmap.asBytes) image)
        group.metaBids ∧ (¬base.Covers group.metaBids 0 ∨ image group.descBlockBid = none) := by
  refine ((patch_ends h1.ready hg _).mono (fun _ fs2 h2 => h1.patch h2)
    fun _ _ hf => hf.elim).bind fun _ fs2 h2 => ?_
  rw [union_empty] at h2
  have hmem := singleton_subset_iff.mpr group.descBlockBid_mem
  refine (capturePatch_ends h2.ready _ _).mono
    (fun _ fs3 h3 => (h2.patch h3).weaken (union_subset (Finset.Subset.refl _) hmem))
    fun _ fs3 h3 => ?_
  obtain ⟨h3, hrefused⟩ := h3
  have himage : fs2.image = overlay base.handle.isSome bid (fun _ => bitmap.asBytes) image :=
    funext h2.image
  rw [himage] at h3
  refine ⟨(h2.trans h3).weaken (union_empty _).subset, ?_⟩
  by_contra! hno
  obtain ⟨hcovers, hread⟩ := hno
  refine (h2.credits _ 0 (Finset.Subset.refl _) hcovers).admits group.descBlockBid_mem ?_ hrefused
  rw [h2.image, ne_eq, overlay_none]
  exact hread

def AllocOutcome (fs : Fs) (idx count sbFreeBlocks : Nat) (pinnedFrees : List (Nat × Nat)) (fs' : Fs) :
    GroupBlockAlloc → Prop
  | .noFit _ => fs.Evolves fs' fs.image (fs.groups idx).metaBids
  | .allocated r => ∃ metadata,
    (fs.groups idx).Claimed count sbFreeBlocks pinnedFrees r metadata ∧
      (fs.setMetadata idx metadata).Evolves fs' ((fs.groups idx).publishImage
        (fs.groups idx).metadata.desc.blockBitmapBid metadata.blockBitmap metadata
          fs.handle.isSome fs.image) (fs.groups idx).metaBids

def Stuck (fs : Fs) (idx : Nat) (fs' : Fs) : Prop :=
  (¬fs.Covers (fs.groups idx).metaBids 0 ∨ fs.image (fs.groups idx).descBlockBid = none) ∧
    fs.Carries fs'

theorem allocBlocks_ends (hr : fs.Ready) (g : JournalGeometry) (idx count sbFreeBlocks : Nat)
    (pinnedFrees : List (Nat × Nat)) :
    (allocBlocks g idx count sbFreeBlocks pinnedFrees).Ends fs
      (fun res fs' => AllocOutcome fs idx count sbFreeBlocks pinnedFrees fs' res)
      fun _ fs' => fs.Evolves fs' fs.image (fs.groups idx).metaBids ∨ Stuck fs idx fs' := by
  refine .bind_get ?_
  refine (getWriteAccess_ends hr _).bindOr (fun _ fs1 h1 => .inl (h1.1.weaken (empty_subset _))) fun access fs1 h1 => ?_
  obtain ⟨h1, hg⟩ := h1
  replace h1 := h1.weaken (blockBitmapBid_subset _)
  have hundo := h1.restored idx
  rcases (fs.groups idx).search_cases count sbFreeBlocks pinnedFrees with hs | ⟨range, bitmap, hs, htakes⟩
  · rw [hs]
    refine .bind_modify ?_
    split_ifs
    · exact .fail (.inl hundo)
    · exact .ret hundo
  · rw [hs]
    dsimp only
    split_ifs with hbad
    · refine .bind_modify (.fail (.inl ?_))
      rw [show bitmap.freeConsecutive range = _ from htakes.free]
      exact hundo
    · have hc := claimed_of_takes htakes
        ((min_le_left _ _).trans ((min_le_left _ _).trans (min_le_left _ _))) hbad rfl
      refine .bind_modify ?_
      refine (publish_ends bitmap _ (h1.setMetadata idx _) (hg.setMetadata idx _)).bindOr
        (fun _ fs2 h2 => .inr ⟨h2.2, h2.1.setCarries⟩) fun _ fs2 h2 => .ret ⟨_, hc, h2⟩

structure Released (group : BlockGroup) (startBit count freed : Nat) (metadata : BlockGroupMetadata) :
    Prop where
  zone : group.overlapsSystemZoneWith group.metadata.desc
    ⟨group.firstBlock + startBit, group.firstBlock + startBit + count⟩ = false
  len : metadata.blockBitmap.len = group.metadata.blockBitmap.len
  bits : ∀ i, metadata.blockBitmap.isAllocated i =
    if startBit ≤ i ∧ i < startBit + count then false else group.metadata.blockBitmap.isAllocated i
  books : metadata.blockBitmap.freeIds.card = group.metadata.blockBitmap.freeIds.card + freed
  desc : metadata.desc = { group.metadata.desc with
    freeBlocksCount := group.metadata.desc.freeBlocksCount + freed }
  inodes : metadata.inodeBitmap = group.metadata.inodeBitmap

theorem released_of_clearBits {startBit : Nat} (hle : startBit + count ≤ group.metadata.blockBitmap.len)
    (hzone : group.overlapsSystemZoneWith group.metadata.desc
      ⟨group.firstBlock + startBit, group.firstBlock + startBit + count⟩ = false) :
    group.Released startBit count
      (clearBits (List.range' startBit count) group.metadata.blockBitmap).2
      { group.metadata with
        desc := { group.metadata.desc with
          freeBlocksCount := group.metadata.desc.freeBlocksCount +
            (clearBits (List.range' startBit count) group.metadata.blockBitmap).2 }
        blockBitmap :=
          (clearBits (List.range' startBit count) group.metadata.blockBitmap).1 } := by
  have hbound : ∀ i ∈ List.range' startBit count, i < group.metadata.blockBitmap.len :=
    fun i hi => by
      have := List.mem_range'_1.mp hi
      omega
  obtain ⟨hlen, hbits, hcard⟩ := clearBits_spec _ hbound
  refine ⟨hzone, hlen, fun i => ?_, hcard, rfl, rfl⟩
  rw [hbits i]
  simp only [List.mem_range'_1]

theorem freeBlocks_ends (hr : fs.Ready) (g : JournalGeometry) (idx startBit count : Nat) :
    (freeBlocks g idx startBit count).Ends fs
      (fun freed fs' => ∃ metadata, (startBit + count ≤ (fs.groups idx).metadata.blockBitmap.len → (fs.groups
          idx).Released startBit count freed metadata) ∧ (fs.setMetadata idx metadata).Evolves fs' ((fs.groups
          idx).publishImage (fs.groups idx).metadata.desc.blockBitmapBid metadata.blockBitmap metadata
          fs.handle.isSome fs.image) (fs.groups idx).metaBids)
      fun _ fs' => fs.Carries fs' := by
  refine .bind_get ?_
  dsimp only
  split
  · exact ((abortJournalOnFsError_ends hr).mono (fun _ _ h => h.1) fun _ _ h => h).bind
      fun _ fs1 h1 => .fail h1
  next hzone =>
    refine (getWriteAccess_ends hr _).bindOr (fun _ fs1 h1 => h1.1.carries) fun access fs1 h1 => ?_
    obtain ⟨h1, hg⟩ := h1
    replace h1 := h1.weaken (blockBitmapBid_subset _)
    refine .bind_modify ?_
    split
    · exact .fail (h1.setMetadata idx _).setCarries
    · refine .bind_modify ?_
      rw [setMetadata_setMetadata]
      exact (publish_ends _ _ (h1.setMetadata idx _) (hg.setMetadata idx _)).bindOr (fun _ fs2 h2 => h2.1.setCarries) fun _ fs2 h2 =>
          .ret ⟨_, fun hle => released_of_clearBits hle (Bool.eq_false_iff.mpr hzone), h2⟩

structure ClaimedIno (group : BlockGroup) (type : InodeType) (i : Nat) (metadata : BlockGroupMetadata) :
    Prop where
  lt : i < group.metadata.inodeBitmap.len
  clear : group.metadata.inodeBitmap.isAllocated i = false
  len : metadata.inodeBitmap.len = group.metadata.inodeBitmap.len
  bits : ∀ k, metadata.inodeBitmap.isAllocated k =
    if k = i then true else group.metadata.inodeBitmap.isAllocated k
  free : 0 < group.metadata.desc.freeInodesCount
  desc : metadata.desc = { group.metadata.desc with
    freeInodesCount := group.metadata.desc.freeInodesCount - 1
    usedDirsCount := group.metadata.desc.usedDirsCount + if type.isDirectory then 1 else 0
    itableUnused := itableUnusedFromBitmap metadata.inodeBitmap group.nrInodesPerGroup }
  blocks : metadata.blockBitmap = group.metadata.blockBitmap

def InoOutcome (fs : Fs) (idx : Nat) (type : InodeType) (fs' : Fs) : Option Nat → Prop
  | none => fs' = fs
  | some i => ∃ metadata, (fs.groups idx).ClaimedIno type i metadata ∧
      (fs.setMetadata idx metadata).Evolves fs' ((fs.groups idx).publishImage
        (fs.groups idx).metadata.desc.inodeBitmapBid metadata.inodeBitmap metadata
          fs.handle.isSome fs.image) (fs.groups idx).metaBids

theorem allocIno_ends (hr : fs.Ready) (g : JournalGeometry) (idx : Nat) (type : InodeType) :
    (allocIno g idx type).Ends fs (fun res fs' => InoOutcome fs idx type fs' res)
      fun _ fs' => fs.Evolves fs' fs.image (fs.groups idx).metaBids ∨ Stuck fs idx fs' := by
  refine .bind_get ?_
  dsimp only
  split
  · exact .ret rfl
  next hfree =>
    split
    · exact .ret rfl
    · split
      · exact .fail (.inl ((Evolves.refl hr).weaken (empty_subset _)))
      · refine (getWriteAccess_ends hr _).bindOr (fun _ fs1 h1 => .inl (h1.1.weaken (empty_subset _))) fun access fs1 h1 => ?_
        obtain ⟨h1, hg⟩ := h1
        replace h1 := h1.weaken (inodeBitmapBid_subset _)
        cases halloc : (fs.groups idx).metadata.inodeBitmap.allocConsecutive 1 with
        | mk found bitmap =>
          cases found with
          | none =>
            obtain rfl := allocConsecutive_none halloc
            exact .bind_modify (.fail (.inl (h1.restored idx)))
          | some range =>
            have hc := allocConsecutive_some halloc
            have hstop := hc.stop
            have hle := hc.le
            have honly : ∀ k, range.contains k = true ↔ k = range.start := fun k => by
              rw [contains_iff]
              omega
            refine .bind_modify ?_
            refine (publish_ends bitmap _ (h1.setMetadata idx _) (hg.setMetadata idx _)).bindOr (fun _ fs2 h2 => .inr ⟨h2.2, h2.1.setCarries⟩)
                fun _ fs2 h2 => .ret ⟨_, ?_, h2⟩
            refine ⟨by omega, hc.clear _ ((honly _).mpr rfl), hc.len, fun k => ?_,
              pos_of_ne_zero hfree, rfl, rfl⟩
            rw [hc.bits k]
            simp only [honly]

structure ReleasedIno (group : BlockGroup) (type : InodeType) (i : Nat) (metadata : BlockGroupMetadata) :
    Prop where
  bitmap : metadata.inodeBitmap = group.metadata.inodeBitmap.free i
  desc : metadata.desc = { group.metadata.desc with
    freeInodesCount := group.metadata.desc.freeInodesCount + 1
    usedDirsCount := group.metadata.desc.usedDirsCount - if type.isDirectory then 1 else 0
    itableUnused := itableUnusedFromBitmap metadata.inodeBitmap group.nrInodesPerGroup }
  blocks : metadata.blockBitmap = group.metadata.blockBitmap

def InoBlocked (fs : Fs) (idx : Nat) (type : InodeType) : Prop :=
  ¬fs.Covers (fs.groups idx).metaBids 0 ∨ fs.image (fs.groups idx).metadata.desc.inodeBitmapBid = none ∨
    fs.image (fs.groups idx).descBlockBid = none ∨
    2 ^ 32 ≤ (fs.groups idx).metadata.desc.freeInodesCount + 1 ∨
    type.isDirectory ∧ (fs.groups idx).metadata.desc.usedDirsCount = 0

theorem freeInode_ends (hr : fs.Ready) {i : Nat} (type : InodeType)
    (hset : (fs.groups idx).metadata.inodeBitmap.isAllocated i = true) :
    (freeInode g idx i type).Ends fs
      (fun _ fs' => ∃ metadata, (fs.groups idx).ReleasedIno type i metadata ∧ (fs.setMetadata idx
        metadata).Evolves fs' ((fs.groups idx).publishImage (fs.groups idx).metadata.desc.inodeBitmapBid
        metadata.inodeBitmap metadata fs.handle.isSome fs.image) (fs.groups idx).metaBids)
      fun _ fs' => InoBlocked fs idx type ∧ fs.Carries fs' := by
  refine .bind_get ?_
  dsimp only
  split
  next hclear => simp [hset] at hclear
  · refine (getWriteAccess_ends hr _).bindOr (fun _ fs1 h1 => ?_)
      fun access fs1 h1 => ?_
    · refine ⟨?_, h1.1.carries⟩
      by_contra hno
      simp only [InoBlocked, not_or, not_not] at hno
      exact hno.1.admits (inodeBitmapBid_subset _ (mem_singleton_self _)) hno.2.1 h1.2
    · obtain ⟨h1, hg⟩ := h1
      replace h1 := h1.weaken (inodeBitmapBid_subset _)
      split
      next hover => exact .fail ⟨.inr (.inr (.inr (.inl hover))), h1.carries⟩
      · split
        next hdirs => exact .fail ⟨.inr (.inr (.inr (.inr hdirs))), h1.carries⟩
        · refine .bind_modify ?_
          refine (publish_ends _ _ (h1.setMetadata idx _) (hg.setMetadata idx _)).bindOr (fun _ fs2 h2 => ⟨?_, h2.1.setCarries⟩)
              fun _ fs2 h2 => .ret ⟨_, ?_, h2⟩
          · rcases h2.2 with hcredit | hread
            · exact .inl hcredit
            · exact .inr (.inr (.inl hread))
          · exact ⟨rfl, rfl, rfl⟩

end BlockGroup

end Ext4
