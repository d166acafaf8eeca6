import Ext4.Alloc.Admission
import Ext4.Alloc.Search

namespace Ext4

open Bytes Op BlockGroup SuperBlock IdBitmap

variable {count : Nat} {raw : RawSuperBlock} {v : Volume}

namespace BlockGroupDesc

def fromRaw (buf : Block) (off : Nat) (wide : Bool) : BlockGroupDesc :=
  let hi (at_ width shift : Nat) : Nat := if wide then getLE buf (off + at_) width <<< shift else 0
  { blockBitmapBid := getLE buf off 4 ||| hi 32 4 32
    inodeBitmapBid := getLE buf (off + 4) 4 ||| hi 36 4 32
    inodeTableBid := getLE buf (off + 8) 4 ||| hi 40 4 32
    freeBlocksCount := getLE buf (off + 12) 2
    freeInodesCount := getLE buf (off + 14) 2
    usedDirsCount := getLE buf (off + 16) 2
    flags := .ofNat (getLE buf (off + 18) 2)
    itableUnused := getLE buf (off + 28) 2 ||| hi 50 2 16 }

def verifyGroupDescChecksum (seed : UInt32) (group : Nat) (buf : Block) (off : Nat) (wide : Bool) :
    Except Fault Unit :=
  if getLE buf (off + 30) 2 = groupDescChecksum seed group buf off wide then .ok ()
  else .error (.error .euclean "bad group descriptor checksum")

end BlockGroupDesc

namespace BlockGroup

variable (device : Nat → Option Block)

def readDesc (descOffset descSize group : Nat) (csumSeed : Option UInt32) : Except Fault BlockGroupDesc :=
  match device (descOffset / 4096) with
  | none => .error (.error .eio "failed to read group descriptor")
  | some buf =>
    let off := descOffset % 4096
    let wide : Bool := 64 ≤ descSize
    match csumSeed with
    | none => .ok (.fromRaw buf off wide)
    | some seed =>
      (BlockGroupDesc.verifyGroupDescChecksum seed group buf off wide).map fun _ => .fromRaw buf off wide

def firstBlockOf (sb : SuperBlock) (groupIdx : Nat) : Nat :=
  sb.firstDataBlock + groupIdx * sb.blocksPerGroup

def lastBlockOf (sb : SuperBlock) (groupIdx : Nat) : Nat :=
  if groupIdx = sb.nrBlockGroups - 1 then sb.blocksCount - 1
  else firstBlockOf sb groupIdx + sb.blocksPerGroup - 1

def rebuildBlockBitmap (firstBlock lastBlock : Nat) (desc : BlockGroupDesc)
    (hsize : lastBlock - firstBlock + 1 ≤ 32768) : Except Fault IdBitmap :=
  let groupSize := lastBlock - firstBlock + 1
  if groupSize < desc.freeBlocksCount then
    .error (.error .euclean "uninit group free count exceeds group size")
  else
    let overhead := groupSize - desc.freeBlocksCount
    let bitmap := IdBitmap.fromBuf (zeros _) groupSize hsize
    let bitmap := if 0 < overhead then (bitmap.allocConsecutive overhead).2 else bitmap
    if [desc.blockBitmapBid, desc.inodeBitmapBid, desc.inodeTableBid].any fun bid =>
        firstBlock ≤ bid && bid ≤ lastBlock && overhead ≤ bid - firstBlock then
      .error (.error .euclean "uninit group metadata block outside reconstructed prefix")
    else .ok bitmap

def loadBlockBitmap (firstBlock lastBlock : Nat) (desc : BlockGroupDesc)
    (hsize : lastBlock - firstBlock + 1 ≤ 32768) : Except Fault IdBitmap :=
  if desc.isBlockUninit then rebuildBlockBitmap firstBlock lastBlock desc hsize
  else match device desc.blockBitmapBid with
    | none => .error (.error .eio "failed to read block bitmap")
    | some buf => .ok (.fromBuf buf (lastBlock - firstBlock + 1) hsize)

def loadInodeBitmap (nrInodesPerGroup : Nat) (desc : BlockGroupDesc) : Except Fault IdBitmap :=
  let capacity := min nrInodesPerGroup 32768
  if desc.isInodeUninit then .ok (.fromBuf (zeros _) capacity (Nat.min_le_right _ _))
  else match device desc.inodeBitmapBid with
    | none => .error (.error .eio "failed to read inode bitmap")
    | some buf => .ok (.fromBuf buf capacity (Nat.min_le_right _ _))

def load (v : Volume) (groupIdx gdtBaseOffset : Nat)
    (hsize : lastBlockOf v.sb groupIdx - firstBlockOf v.sb groupIdx + 1 ≤ 32768) :
    Except Fault BlockGroup := do
  let descOffset := gdtBaseOffset + groupIdx * v.sb.descSize
  let csumSeed := if v.sb.hasMetadataCsum then some v.metadataCsumSeed else none
  let desc ← readDesc device descOffset v.sb.descSize groupIdx csumSeed
  let firstBlock := firstBlockOf v.sb groupIdx
  let lastBlock := lastBlockOf v.sb groupIdx
  let blockBitmap ← loadBlockBitmap device firstBlock lastBlock desc hsize
  let inodeBitmap ← loadInodeBitmap device v.sb.inodesPerGroup desc
  .ok
    { groupIdx := groupIdx
      firstBlock := firstBlock
      lastBlock := lastBlock
      nrInodeTableBlocksPerGroup := v.nrInodeTableBlocksPerGroup
      nrInodesPerGroup := v.sb.inodesPerGroup
      nrBlocksPerGroup := v.sb.blocksPerGroup
      descSize := v.sb.descSize
      descOffset := descOffset
      csumSeed := csumSeed
      metadata := { desc := desc, blockBitmap := blockBitmap, inodeBitmap := inodeBitmap } }

end BlockGroup

namespace IdBitmap

variable {len : Nat}

theorem scan_start {buf : Block} (hclear : ∀ i, bitAt buf i = false) (fuel : Nat)
    (r : IdRange) : (scan buf len count fuel r).start = r.start := by
  induction fuel generalizing r with
  | zero => rfl
  | succ fuel ih =>
    unfold scan
    split_ifs with hmore hset
    · rw [hclear] at hset
      cases hset
    · exact ih _
    · rfl

theorem allocConsecutive_blank (hlen : len ≤ 32768) (hpos : 0 < count) (hle : count ≤ len) (i : Nat) :
    ((fromBuf (zeros _) len hlen).allocConsecutive count).2.isAllocated i = decide (i < count) := by
  have hclear : ∀ i, bitAt (zeros 4096) i = false := fun i => bitAt_zeros i
  have hfirst : (fromBuf (zeros _) len hlen).firstAvailableId = 0 := by
    by_contra hne
    have hused := (fromBuf (zeros _) len hlen).used_below 0 (pos_of_ne_zero hne)
    have hzero : bitAt (zeros 4096) 0 = true := hused
    rw [hclear] at hzero
    cases hzero
  have hstart : ((fromBuf (zeros _) len hlen).candidate count).start = 0 :=
    (scan_start hclear _ _).trans hfirst
  have hfit : (fromBuf (zeros _) len hlen).firstAvailableId + count ≤ (fromBuf (zeros _) len hlen).len := by
    rw [hfirst, zero_add]
    exact hle
  have hcand := candidate_clear _ (Nat.pos_iff_ne_zero.mp hpos) hfit
  have hlong : ¬((fromBuf (zeros _) len hlen).candidate count).len < count := by
    rcases candidate_settles (fromBuf (zeros _) len hlen) count with h | h
    · omega
    · have hend : len ≤ ((fromBuf (zeros _) len hlen).candidate count).stop := h
      unfold IdRange.len
      omega
  have hsome : ∃ bm', (fromBuf (zeros _) len hlen).allocConsecutive count =
      (some ((fromBuf (zeros _) len hlen).candidate count), bm') := by
    rw [allocConsecutive, dif_neg (Nat.pos_iff_ne_zero.mp hpos), dif_pos hfit, dif_neg hlong]
    exact ⟨_, rfl⟩
  obtain ⟨bm', halloc⟩ := hsome
  have hc := allocConsecutive_some halloc
  have hstop := hc.stop
  rw [halloc, hc.bits i]
  have hcontains : ((fromBuf (zeros _) len hlen).candidate count).contains i = decide (i < count) := by
    simp only [IdRange.contains, hstart, hstop, zero_le, decide_true, Bool.true_and, zero_add]
  have hblank : (fromBuf (zeros _) len hlen).isAllocated i = false := hclear i
  rw [hcontains, hblank]
  cases decide (i < count) <;> rfl

theorem len_allocConsecutive (bm : IdBitmap) (count : Nat) : (bm.allocConsecutive count).2.len = bm.len := by
  cases halloc : bm.allocConsecutive count with
  | mk res bm' =>
    cases res with
    | none => rw [allocConsecutive_none halloc]
    | some r => exact (allocConsecutive_some halloc).len

end IdBitmap

namespace BlockGroup

structure Rebuilt (firstBlock lastBlock : Nat) (desc : BlockGroupDesc) (bitmap : IdBitmap) : Prop where
  len : bitmap.len = lastBlock - firstBlock + 1
  free_le : desc.freeBlocksCount ≤ lastBlock - firstBlock + 1
  bits : ∀ i, bitmap.isAllocated i = decide (i < lastBlock - firstBlock + 1 - desc.freeBlocksCount)
  covers : ∀ bid ∈ [desc.blockBitmapBid, desc.inodeBitmapBid, desc.inodeTableBid],
    firstBlock ≤ bid → bid ≤ lastBlock →
      bid - firstBlock < lastBlock - firstBlock + 1 - desc.freeBlocksCount

theorem rebuildBlockBitmap_ok {firstBlock lastBlock : Nat} {desc : BlockGroupDesc} {bitmap : IdBitmap}
    {hsize : lastBlock - firstBlock + 1 ≤ 32768}
    (h : rebuildBlockBitmap firstBlock lastBlock desc hsize = .ok bitmap) :
    Rebuilt firstBlock lastBlock desc bitmap := by
  unfold rebuildBlockBitmap at h
  simp only at h
  split_ifs at h with hmore hout hpos
  all_goals
    cases h
    have hcovers : ∀ bid ∈ [desc.blockBitmapBid, desc.inodeBitmapBid, desc.inodeTableBid],
        firstBlock ≤ bid → bid ≤ lastBlock →
          bid - firstBlock < lastBlock - firstBlock + 1 - desc.freeBlocksCount := by
      intro bid hbid hlo hhi
      by_contra hge
      refine hout (List.any_eq_true.mpr ⟨bid, hbid, ?_⟩)
      simp only [Bool.and_eq_true, decide_eq_true_eq]
      omega
  · exact ⟨len_allocConsecutive _ _, by omega,
      fun i => allocConsecutive_blank hsize hpos (by omega) i, hcovers⟩
  · refine ⟨rfl, by omega, fun i => ?_, hcovers⟩
    rw [show lastBlock - firstBlock + 1 - desc.freeBlocksCount = 0 by omega]
    exact (bitAt_zeros i).trans (by simp)

structure Honest (group : BlockGroup) : Prop where
  books : group.metadata.desc.freeBlocksCount = group.metadata.blockBitmap.freeIds.card
  reserves : group.Reserves

theorem Rebuilt.honest {group : BlockGroup}
    (h : Rebuilt group.firstBlock group.lastBlock group.metadata.desc group.metadata.blockBitmap)
    (hspan : group.firstBlock ≤ group.lastBlock)
    (htable : min (group.metadata.desc.inodeTableBid + group.nrInodeTableBlocksPerGroup) (group.lastBlock + 1) ≤
      group.firstBlock + (group.groupSize - group.metadata.desc.freeBlocksCount) ∨
        group.lastBlock < group.metadata.desc.inodeTableBid) : group.Honest where
  books := by
    have hle := h.free_le
    have hfree : group.metadata.blockBitmap.freeIds =
        Finset.Ico (group.groupSize - group.metadata.desc.freeBlocksCount) group.groupSize := by
      ext i
      rw [freeIds, Finset.mem_filter, Finset.mem_range, Finset.mem_Ico, h.len, h.bits]
      simp only [groupSize, decide_eq_false_iff_not]
      omega
    rw [hfree, Nat.card_Ico]
    unfold groupSize
    omega
  reserves := by
    intro i hi hzone
    have hlen := h.len
    rw [h.bits, decide_eq_true_iff]
    unfold groupSize at htable
    have hcovers := h.covers
    simp only [List.mem_cons, List.not_mem_nil, or_false, forall_eq_or_imp, forall_eq] at hcovers
    rcases hzone with hb | hb | ⟨hlo, hhi⟩
    · have := hcovers.1 (by omega) (by omega)
      omega
    · have := hcovers.2.1 (by omega) (by omega)
      omega
    · omega

end BlockGroup

namespace Fs

theorem abortJournalOnFsError_idles : Keeps Idles abortJournalOnFsError := by
  refine .modify fun fs => ?_
  split <;> exact ⟨rfl, rfl⟩

end Fs

namespace BlockGroup

open Fs

variable {group : BlockGroup} {metadata : BlockGroupMetadata} {fs fs' : Fs} {idx : Nat} {g : JournalGeometry} {pinnedFrees : List (Nat × Nat)}

theorem Honest.claim (hg : group.Honest) {count sbFreeBlocks : Nat}
    {r : IdRange} (hc : group.Claimed count sbFreeBlocks pinnedFrees r metadata) :
    ({ group with metadata := metadata } : BlockGroup).Honest := by
  have hdesc := hc.desc
  rw [BlockGroupDesc.clearBlockUninit_eq] at hdesc
  refine ⟨?_, fun i hi hzone => ?_⟩
  · have hcount := hc.books
    have hfree := hc.len_free
    have hbooks := hg.books
    simp only [hdesc]
    omega
  · simp only [InZone, hdesc] at hzone
    simp only [hc.len] at hi
    simp only [hc.bits]
    split_ifs
    · rfl
    · exact hg.reserves i hi hzone

theorem Honest.release (hg : group.Honest) {startBit count freed : Nat}
    (hr : group.Released startBit count freed metadata) :
    ({ group with metadata := metadata } : BlockGroup).Honest where
  books := by
    simp only [hr.desc, hr.books, hg.books]
  reserves i hi hzone := by
    simp only [InZone, hr.desc] at hzone
    simp only [hr.len] at hi
    simp only [hr.bits]
    rw [if_neg]
    · exact hg.reserves i hi hzone
    · intro hin
      have hinside : (⟨group.firstBlock + startBit, group.firstBlock + startBit + count⟩ : IdRange).contains
          (group.firstBlock + i) = true := IdRange.contains_iff.mpr ⟨by dsimp only; omega, by dsimp only; omega⟩
      have hover := overlapsSystemZone_iff.mpr ⟨group.firstBlock + i, hinside, hzone⟩
      rw [hr.zone] at hover
      cases hover

theorem freeBlocks_touches {startBit : Nat} (hg : (fs.groups idx).Honest)
    (hle : startBit + count ≤ (fs.groups idx).metadata.blockBitmap.len) :
    fs.Idles (freeBlocks g idx startBit count fs).2 ∨ ∃ freed metadata,
      (fs.groups idx).Released startBit count freed metadata ∧
        (fs.setMetadata idx metadata).Idles (freeBlocks g idx startBit count fs).2 := by
  refine Op.Ends.state (P := fun fs' => fs.Idles fs' ∨ ∃ freed metadata,
    (fs.groups idx).Released startBit count freed metadata ∧ (fs.setMetadata idx metadata).Idles fs') ?_
  refine .bind_get ?_
  dsimp only
  by_cases hzone : (fs.groups idx).overlapsSystemZoneWith (fs.groups idx).metadata.desc
      ⟨(fs.groups idx).firstBlock + startBit, (fs.groups idx).firstBlock + startBit + count⟩ = true
  · rw [if_pos hzone]
    exact (abortJournalOnFsError_idles.ends fs).bindOr (fun _ _ h => .inl h)
      fun _ _ h => .fail (.inl h)
  · rw [if_neg hzone]
    refine ((getWriteAccess_idles g _).ends fs).bindOr (fun _ _ h => .inl h)
      fun access fs1 h1 => ?_
    have hrel := released_of_clearBits hle (Bool.eq_false_iff.mpr hzone)
    have hfit := (clearBits (List.range' startBit count)
      (fs.groups idx).metadata.blockBitmap).1.freeIds_card_le
    have hbound := (clearBits (List.range' startBit count) (fs.groups idx).metadata.blockBitmap).1.len_le
    have hsum := hrel.books
    have hbooks := hg.books
    dsimp only at hsum
    cases hclear : clearBits (List.range' startBit count) (fs.groups idx).metadata.blockBitmap with
    | mk bitmap freed =>
      rw [hclear] at hrel hfit hbound hsum
      refine .bind_modify ?_
      rw [if_neg (by simp only at hsum hfit hbound; omega)]
      refine .bind_modify ?_
      rw [Fs.setMetadata_setMetadata]
      exact (((publish_idles g _ access bitmap _).ends _).mono (fun _ fs2 h2 => .inr ⟨freed, _, hrel,
        h1.setMetadata h2⟩) fun _ fs2 h2 => .inr ⟨freed, _, hrel, h1.setMetadata h2⟩).bind fun _ _ h => .ret h

structure Abides (group group' : BlockGroup) : Prop where
  first : group'.firstBlock = group.firstBlock
  table : group'.nrInodeTableBlocksPerGroup = group.nrInodeTableBlocksPerGroup
  bitmap : group'.metadata.blockBitmap = group.metadata.blockBitmap
  blockBitmapBid : group'.metadata.desc.blockBitmapBid = group.metadata.desc.blockBitmapBid
  inodeBitmapBid : group'.metadata.desc.inodeBitmapBid = group.metadata.desc.inodeBitmapBid
  inodeTableBid : group'.metadata.desc.inodeTableBid = group.metadata.desc.inodeTableBid
  free : group'.metadata.desc.freeBlocksCount = group.metadata.desc.freeBlocksCount

theorem Honest.abides {group' : BlockGroup} (hg : group.Honest) (h : group.Abides group') :
    group'.Honest where
  books := by rw [h.free, h.bitmap, hg.books]
  reserves i hi hzone := by
    rw [h.bitmap] at hi ⊢
    refine hg.reserves i hi ?_
    rwa [InZone, h.first, h.table, h.blockBitmapBid, h.inodeBitmapBid, h.inodeTableBid] at hzone

inductive Worked (g : JournalGeometry) (idx : Nat) (fs : Fs) : Fs → Prop
  | start : Worked g idx fs fs
  | alloc {fs' : Fs} (h : Worked g idx fs fs') (count sbFreeBlocks : Nat) (pinnedFrees : List (Nat × Nat)) :
      Worked g idx fs (allocBlocks g idx count sbFreeBlocks pinnedFrees fs').2
  | free {fs' : Fs} (h : Worked g idx fs fs') {startBit count : Nat}
      (hle : startBit + count ≤ (fs'.groups idx).metadata.blockBitmap.len) :
      Worked g idx fs (freeBlocks g idx startBit count fs').2
  | other {fs' fs'' : Fs} (h : Worked g idx fs fs') (hsame : (fs'.groups idx).Abides (fs''.groups idx)) :
      Worked g idx fs fs''

theorem Honest.of_idles (hg : (fs.groups idx).Honest) (h : fs.Idles fs') : (fs'.groups idx).Honest := by
  rw [h.groups]
  exact hg

theorem Honest.of_set (hg : ({ fs.groups idx with metadata := metadata } : BlockGroup).Honest)
    (h : (fs.setMetadata idx metadata).Idles fs') : (fs'.groups idx).Honest := by
  rw [h.groups]
  simpa [Fs.setMetadata] using hg

theorem allocBlocks_touches (fs : Fs) (idx count sbFreeBlocks : Nat) (pinnedFrees : List (Nat × Nat)) :
    Touched fs idx count sbFreeBlocks pinnedFrees
      (allocBlocks g idx count sbFreeBlocks pinnedFrees fs).2 := by
  refine Op.Ends.state (P := Touched fs idx count sbFreeBlocks pinnedFrees) ?_
  refine (allocBlocks_settles g fs idx count sbFreeBlocks pinnedFrees).mono (fun res fs' h => ?_)
    fun _ _ h => h.1
  cases res with
  | noFit pinnedInGroup => exact .inl h.1
  | allocated r =>
    obtain ⟨metadata, hc, hset, -⟩ := h
    exact .inr ⟨r, metadata, hc, hset⟩

theorem Worked.honest (h : Worked g idx fs fs') (hg : (fs.groups idx).Honest) :
    (fs'.groups idx).Honest := by
  induction h with
  | start => exact hg
  | @alloc fs' _ count sbFreeBlocks pinnedFrees ih =>
    rcases allocBlocks_touches fs' idx count sbFreeBlocks pinnedFrees with h | ⟨r, metadata, hc, h⟩
    · exact ih.of_idles h
    · exact (ih.claim hc).of_set h
  | free _ hle ih =>
    rcases freeBlocks_touches ih hle with h | ⟨freed, metadata, hr, h⟩
    · exact ih.of_idles h
    · exact (ih.release hr).of_set h
  | other _ hsame ih => exact ih.abides hsame

theorem Honest.uncorrupted {sbFreeBlocks : Nat} (hg : (fs.groups idx).Honest)
    (hcount : 0 < count) (hsb : 0 < sbFreeBlocks) :
    (allocBlocks g idx count sbFreeBlocks pinnedFrees fs).1 ≠ .error bitmapCorrupted := by
  intro herr
  obtain ⟨-, hcapture | ⟨-, hsuspect⟩⟩ :=
    (allocBlocks_settles g fs idx count sbFreeBlocks pinnedFrees).of_error (Op.run_eq herr)
  · revert hcapture
    decide
  · exact not_suspect hcount hsb hg.books hg.reserves hsuspect

end BlockGroup

namespace SuperBlock

theorem bind_ok {α β ε : Type} {m : Except ε α} {f : α → Except ε β} {b : β} (h : m >>= f = .ok b) :
    ∃ a, m = .ok a ∧ f a = .ok b := by
  cases m with
  | error e => cases h
  | ok a => exact ⟨a, rfl, h⟩

theorem require_ok {p : Prop} [Decidable p] {errno : Errno} {msg : String} {u : Unit}
    (h : require p errno msg = .ok u) : p := by
  unfold require at h
  split_ifs at h with hp
  exact hp

theorem spliceCountHi_lt {lo hi : Nat} {has64bit : Bool} (hlo : lo < 2 ^ 32) (hhi : hi < 2 ^ 32)
    (h : spliceCountHi lo hi has64bit = .ok count) : count < 2 ^ 64 := by
  unfold spliceCountHi at h
  split_ifs at h
  · cases h
    omega
  · cases h
    refine Nat.or_lt_two_pow (by omega) ?_
    rw [Nat.shiftLeft_eq]
    omega

theorem admitGroups_ok {inodeSize tableBlocks : Nat} (h : admitGroups raw inodeSize = .ok tableBlocks) :
    (rawSuper.num raw .blocksPerGroup ≠ 0 ∧ rawSuper.num raw .blocksPerGroup ≤ 32768) ∧
      (rawSuper.num raw .inodesPerGroup ≠ 0 ∧ rawSuper.num raw .inodesPerGroup ≤ 32768) ∧
      tableBlocks = rawSuper.num raw .inodesPerGroup / (4096 / inodeSize) := by
  obtain ⟨_, hpos, h⟩ := bind_ok h
  obtain ⟨_, hinodes, h⟩ := bind_ok h
  obtain ⟨_, hle, h⟩ := bind_ok h
  obtain ⟨-, -, h⟩ := bind_ok h
  cases h
  have hpos := require_ok hpos
  exact ⟨⟨hpos.2, require_ok hle⟩, ⟨hpos.1, (require_ok hinodes).2⟩, rfl⟩

structure Split (sb : SuperBlock) : Prop where
  perGroup_pos : 0 < sb.blocksPerGroup
  perGroup_le : sb.blocksPerGroup ≤ 32768
  blocks : sb.firstDataBlock + 1 < sb.blocksCount
  groups : sb.nrBlockGroups = (sb.blocksCount - sb.firstDataBlock - 1) / sb.blocksPerGroup + 1

structure Numbered (sb : SuperBlock) : Prop where
  perGroup_pos : 0 < sb.inodesPerGroup
  perGroup_le : sb.inodesPerGroup ≤ 32768
  first_lt : sb.firstDataBlock < 2 ^ 32
  blocks_lt : sb.blocksCount < 2 ^ 64
  groups_lt : sb.nrBlockGroups < 2 ^ 32
  inodes_le : sb.inodesCount ≤ sb.nrBlockGroups * sb.inodesPerGroup

theorem tryFrom_ok (h : tryFrom raw = .ok v) :
    v.sb.Split ∧ v.sb.Numbered ∧
      v.nrInodeTableBlocksPerGroup = v.sb.inodesPerGroup / (4096 / v.geometry.inodeSize) := by
  obtain ⟨-, -, h⟩ := bind_ok h
  obtain ⟨geometry, -, h⟩ := bind_ok h
  obtain ⟨descSize, -, h⟩ := bind_ok h
  obtain ⟨tableBlocks, hgroups, h⟩ := bind_ok h
  obtain ⟨counts, hcounts, h⟩ := bind_ok h
  cases h
  obtain ⟨hblocks, hinodes, htable⟩ := admitGroups_ok hgroups
  obtain ⟨blocks, hsplice, hcounts⟩ := bind_ok hcounts
  obtain ⟨free, -, hcounts⟩ := bind_ok hcounts
  obtain ⟨_, hmany, hcounts⟩ := bind_ok hcounts
  obtain ⟨_, hfew, hcounts⟩ := bind_ok hcounts
  obtain ⟨_, hrange, hcounts⟩ := bind_ok hcounts
  obtain ⟨-, -, hcounts⟩ := bind_ok hcounts
  obtain ⟨-, -, hcounts⟩ := bind_ok hcounts
  cases hcounts
  have hwide := spliceCountHi_lt (rawSuper.num_lt raw .blocksCount) (rawSuper.num_lt raw .blocksCountHi) hsplice
  refine ⟨⟨pos_of_ne_zero hblocks.1, hblocks.2, require_ok hmany, rfl⟩, ?_, htable⟩
  exact ⟨pos_of_ne_zero hinodes.1, hinodes.2, rawSuper.num_lt raw .firstDataBlock, hwide, require_ok hfew,
    (require_ok hrange).2⟩

theorem Split.span {sb : SuperBlock} (hs : sb.Split) {groupIdx : Nat} (hidx : groupIdx < sb.nrBlockGroups) :
    firstBlockOf sb groupIdx ≤ lastBlockOf sb groupIdx ∧
      lastBlockOf sb groupIdx - firstBlockOf sb groupIdx + 1 ≤ 32768 := by
  obtain ⟨hpos, hle, hblocks, hgroups⟩ := hs
  unfold lastBlockOf firstBlockOf
  split_ifs with hlast
  · have hidx : groupIdx = (sb.blocksCount - sb.firstDataBlock - 1) / sb.blocksPerGroup := by omega
    have hlow := Nat.div_mul_le_self (sb.blocksCount - sb.firstDataBlock - 1) sb.blocksPerGroup
    have hhigh := Nat.lt_div_mul_add (a := sb.blocksCount - sb.firstDataBlock - 1) hpos
    rw [← hidx] at hlow hhigh
    omega
  · omega

end SuperBlock

namespace BlockGroup

variable {group : BlockGroup} {device : Nat → Option Block} {idx : Nat}

structure Loaded (device : Nat → Option Block) (v : Volume) (idx : Nat) (group : BlockGroup) : Prop where
  first : group.firstBlock = firstBlockOf v.sb idx
  last : group.lastBlock = lastBlockOf v.sb idx
  table : group.nrInodeTableBlocksPerGroup = v.nrInodeTableBlocksPerGroup
  bitmap : ∃ hsize, loadBlockBitmap device group.firstBlock group.lastBlock group.metadata.desc hsize =
    .ok group.metadata.blockBitmap

theorem load_loaded {gdtBaseOffset : Nat} {hsize : lastBlockOf v.sb idx - firstBlockOf v.sb idx + 1 ≤ 32768}
    (h : load device v idx gdtBaseOffset hsize = .ok group) : Loaded device v idx group := by
  obtain ⟨desc, -, h⟩ := bind_ok h
  obtain ⟨blockBitmap, hbitmap, h⟩ := bind_ok h
  obtain ⟨inodeBitmap, -, h⟩ := bind_ok h
  cases h
  exact ⟨rfl, rfl, rfl, hsize, hbitmap⟩

def TableInPrefix (group : BlockGroup) : Prop :=
  min (group.metadata.desc.inodeTableBid + group.nrInodeTableBlocksPerGroup) (group.lastBlock + 1) ≤
      group.firstBlock + (group.groupSize - group.metadata.desc.freeBlocksCount) ∨
    group.lastBlock < group.metadata.desc.inodeTableBid

theorem Loaded.honest (haccept : tryFrom raw = .ok v) (hidx : idx < v.sb.nrBlockGroups)
    (h : Loaded device v idx group) (hlazy : group.metadata.desc.isBlockUninit = true)
    (htable : group.TableInPrefix) : group.Honest := by
  obtain ⟨hsize, hbitmap⟩ := h.bitmap
  rw [loadBlockBitmap, if_pos hlazy] at hbitmap
  have hspan := ((tryFrom_ok haccept).1.span hidx).1
  rw [← h.first, ← h.last] at hspan
  exact (rebuildBlockBitmap_ok hbitmap).honest hspan htable

end BlockGroup

namespace Lazy

variable {free : Nat}

def superNum : SuperField → Nat
  | .inodesCount => 128
  | .inodesPerGroup => 64
  | .blocksCount => 128
  | .logBlockSize | .logFragSize => 2
  | .blocksPerGroup => 64
  | .magic => 0xef53
  | .errors | .revLevel => 1
  | .firstIno => 11
  | .inodeSize => 256
  | .featureIncompat => Feature.extents
  | _ => 0

def super : RawSuperBlock := rawSuper.build fun f => le f.width (superNum f)

theorem accepted : ∃ v, tryFrom super = .ok v ∧ v.sb.firstDataBlock = 0 ∧ v.sb.blocksCount = 128 ∧
    v.sb.blocksPerGroup = 64 ∧ v.sb.nrBlockGroups = 2 ∧ v.nrInodeTableBlocksPerGroup = 4 := by
  have hread : (tryFrom super).toOption.map (fun v => (v.sb.firstDataBlock, v.sb.blocksCount,
      v.sb.blocksPerGroup, v.sb.nrBlockGroups, v.nrInodeTableBlocksPerGroup)) = some (0, 128, 64, 2, 4) := by
    decide +kernel
  cases htry : tryFrom super with
  | error e =>
    rw [htry] at hread
    cases hread
  | ok v =>
    rw [htry] at hread
    simp only [Except.toOption, Option.map_some, Option.some.injEq, Prod.mk.injEq] at hread
    exact ⟨v, rfl, hread⟩

def desc (free : Nat) : BlockGroupDesc where
  blockBitmapBid := 64
  inodeBitmapBid := 65
  inodeTableBid := 66
  freeBlocksCount := free
  freeInodesCount := 64
  usedDirsCount := 0
  flags := 3
  itableUnused := 64

def bitmap (free : Nat) : IdBitmap :=
  ((IdBitmap.fromBuf (zeros _) 64 (by decide)).allocConsecutive (64 - free)).2

def group (free : Nat) : BlockGroup where
  groupIdx := 1
  firstBlock := 64
  lastBlock := 127
  nrInodeTableBlocksPerGroup := 4
  nrInodesPerGroup := 64
  nrBlocksPerGroup := 64
  descSize := 32
  descOffset := 4096 + 32
  csumSeed := none
  metadata := {
    desc := desc free
    blockBitmap := bitmap free
    inodeBitmap := .fromBuf (zeros _) 64 (by decide) }

def fs (free : Nat) : Fs := { Specimen.crowded.fs Specimen.wide with groups := fun _ => group free }

theorem desc_lazy (free : Nat) : (desc free).isBlockUninit = true := by
  have hflags : (desc free).flags &&& bgBlockUninit ≠ 0 := (by decide : (3 : UInt16) &&& 2 ≠ 0)
  exact decide_eq_true hflags

theorem loadBlockBitmap_eq (hfree : free ≤ 61) :
    loadBlockBitmap (fun _ => none) 64 127 (desc free) (by decide) = .ok (bitmap free) := by
  have hcount : (desc free).freeBlocksCount = free := rfl
  have hin : ¬([(desc free).blockBitmapBid, (desc free).inodeBitmapBid, (desc free).inodeTableBid].any
      fun bid => 64 ≤ bid && bid ≤ 127 && 127 - 64 + 1 - (desc free).freeBlocksCount ≤ bid - 64) = true := by
    rw [List.any_eq_true]
    rintro ⟨bid, hbid, hout⟩
    have hbid : bid = 64 ∨ bid = 65 ∨ bid = 66 := by simpa [desc] using hbid
    have hbeyond := of_decide_eq_true (Bool.and_eq_true_iff.mp hout).2
    omega
  rw [loadBlockBitmap, if_pos (desc_lazy free), rebuildBlockBitmap]
  dsimp only
  rw [if_neg (by omega), if_neg hin, if_pos (by omega)]
  rfl

theorem loaded (hfree : free ≤ 61)
    (h : v.sb.firstDataBlock = 0 ∧ v.sb.blocksCount = 128 ∧ v.sb.blocksPerGroup = 64 ∧
      v.sb.nrBlockGroups = 2 ∧ v.nrInodeTableBlocksPerGroup = 4) :
    (group free).Loaded (fun _ => none) v 1 := by
  obtain ⟨hfirst, hblocks, hper, hgroups, htable⟩ := h
  refine ⟨?_, ?_, htable.symm, (by decide : 127 - 64 + 1 ≤ 32768), loadBlockBitmap_eq hfree⟩
  · simp [firstBlockOf, hfirst, hper, group]
  · simp [lastBlockOf, hblocks, hgroups, group]

end Lazy

end Ext4
