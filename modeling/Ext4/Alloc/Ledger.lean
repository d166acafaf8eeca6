import Ext4.Alloc.Calls
import Mathlib.Order.Lattice.Nat

namespace Ext4

open Bytes Finset IdBitmap Function Specimen

namespace IdBitmap

variable {bm bm' : IdBitmap} {i : Nat}

def usedIds (bm : IdBitmap) : Finset Nat := (Finset.range bm.len).filter fun i => bm.isAllocated i = true

def highest (bm : IdBitmap) : Nat := bm.usedIds.sup (· + 1)

theorem mem_usedIds : i ∈ bm.usedIds ↔ i < bm.len ∧ bm.isAllocated i = true := by
  rw [usedIds, mem_filter, mem_range]

theorem mem_freeIds : i ∈ bm.freeIds ↔ i < bm.len ∧ bm.isAllocated i = false := by
  rw [freeIds, mem_filter, mem_range]

def Unpadded (bm : IdBitmap) : Prop := ∀ i, bm.len ≤ i → i < (bm.len + 7) / 8 * 8 → bm.isAllocated i = false

theorem highest_eq {h : Nat} (hlt : h < bm.len) (hset : bm.isAllocated h = true)
    (habove : ∀ k, h < k → k < bm.len → bm.isAllocated k = false) : bm.highest = h + 1 := by
  refine le_antisymm (Finset.sup_le fun k hk => ?_)
    (Finset.le_sup (f := (· + 1)) (mem_usedIds.mpr ⟨hlt, hset⟩))
  obtain ⟨hklt, hkset⟩ := mem_usedIds.mp hk
  by_contra hgt
  rw [habove k (by omega) hklt] at hkset
  cases hkset

theorem highest_blank (h : ∀ k < bm.len, bm.isAllocated k = false) : bm.highest = 0 := by
  have hnone : bm.usedIds = ∅ := by
    refine eq_empty_of_forall_notMem fun k hk => ?_
    obtain ⟨hlt, hset⟩ := mem_usedIds.mp hk
    rw [h k hlt] at hset
    cases hset
  rw [highest, hnone, sup_empty]
  rfl

end IdBitmap

namespace BlockGroup

variable {n i : Nat}

theorem find_last {p : Nat → Bool} :
    (∀ j, (List.range n).reverse.find? p = some j → j < n ∧ p j = true ∧ ∀ k, j < k → k < n → p k = false) ∧
    ((List.range n).reverse.find? p = none → ∀ k < n, p k = false) := by
  induction n with
  | zero => simp
  | succ n ih =>
    rw [List.range_succ, List.reverse_append, List.reverse_singleton, List.singleton_append, List.find?_cons]
    cases hn : p n with
    | true =>
      refine ⟨fun j hj => ?_, fun hj => by cases hj⟩
      obtain rfl : n = j := Option.some.inj hj
      exact ⟨Nat.lt_succ_self n, hn, fun k hlo hhi => by omega⟩
    | false =>
      refine ⟨fun j hj => ?_, fun hj k hk => ?_⟩
      · obtain ⟨hlt, hj, habove⟩ := ih.1 j hj
        refine ⟨Nat.lt_succ_of_lt hlt, hj, fun k hlo hhi => ?_⟩
        rcases Nat.lt_succ_iff_lt_or_eq.mp hhi with hk | rfl
        · exact habove k hlo hk
        · exact hn
      · rcases Nat.lt_succ_iff_lt_or_eq.mp hk with hk | rfl
        · exact ih.2 hj k hk
        · exact hn

theorem bitAt_eq_testBit (buf : Block) (k : Nat) :
    bitAt buf k = (byteAt buf (k / 8)).toNat.testBit (k % 8) := rfl

theorem bitAt_of_zero {buf : Block} {k : Nat} (h : byteAt buf (k / 8) = 0) : bitAt buf k = false := by
  rw [bitAt_eq_testBit, h]
  exact Nat.zero_testBit _

theorem highWater_eq {bm : IdBitmap} (hpad : bm.Unpadded) : highWater bm.asBytes bm.len = bm.highest := by
  unfold highWater
  dsimp only
  have hlast := find_last (p := fun i => decide (byteAt bm.asBytes i ≠ 0)) (n := (bm.len + 7) / 8)
  split
  next hnone =>
    symm
    refine highest_blank fun k hk => bitAt_of_zero ?_
    exact not_not.mp (of_decide_eq_false (hlast.2 hnone (k / 8) (by omega)))
  next j hsome =>
    obtain ⟨hj, hne, habove⟩ := hlast.1 j hsome
    have hbyte : (byteAt bm.asBytes j).toNat ≠ 0 := by
      intro hzero
      refine of_decide_eq_true hne (UInt8.toNat_inj.mp ?_)
      rw [hzero]
      rfl
    have hlog : Nat.log2 (byteAt bm.asBytes j).toNat < 8 :=
      (Nat.log2_lt hbyte).mpr (byteAt bm.asBytes j).toNat_lt
    generalize hl : Nat.log2 (byteAt bm.asBytes j).toNat = l at hlog ⊢
    have hdiv : (j * 8 + l) / 8 = j := by omega
    have hmod : (j * 8 + l) % 8 = l := by omega
    have hset : bm.isAllocated (j * 8 + l) = true := by
      rw [isAllocated, bitAt_eq_testBit, hdiv, hmod, ← hl]
      exact Nat.testBit_log2 hbyte
    have hclear : ∀ k, j * 8 + l < k → k < bm.len → bm.isAllocated k = false := by
      intro k hlo hhi
      rcases Nat.lt_or_ge j (k / 8) with hbeyond | hsame
      · exact bitAt_of_zero (not_not.mp (of_decide_eq_false (habove (k / 8) hbeyond (by omega))))
      · have hbyteof : k / 8 = j := by omega
        rw [isAllocated, bitAt_eq_testBit, hbyteof]
        refine Nat.testBit_lt_two_pow ((Nat.log2_lt hbyte).mp ?_)
        omega
    have hlt : j * 8 + l < bm.len := by
      by_contra hge
      have hpadded := hpad (j * 8 + l) (Nat.le_of_not_lt hge) (by omega)
      rw [hset] at hpadded
      cases hpadded
    rw [highest_eq hlt hset hclear]
    omega

structure Audited (group : BlockGroup) (isDir : Nat → Bool) : Prop where
  freeBlocks : group.metadata.desc.freeBlocksCount = group.metadata.blockBitmap.freeIds.card
  freeInodes : group.metadata.desc.freeInodesCount = group.metadata.inodeBitmap.freeIds.card
  unused : group.metadata.desc.itableUnused = group.nrInodesPerGroup - group.metadata.inodeBitmap.highest
  usedDirs : group.metadata.desc.usedDirsCount =
    (group.metadata.inodeBitmap.usedIds.filter fun i => isDir i = true).card

variable {group : BlockGroup} {isDir isDir' : Nat → Bool} {metadata : BlockGroupMetadata} {type : InodeType}

theorem Audited.congr (h : group.Audited isDir)
    (hsame : ∀ i < group.metadata.inodeBitmap.len, isDir' i = isDir i) : group.Audited isDir' := by
  refine ⟨h.freeBlocks, h.freeInodes, h.unused, h.usedDirs.trans (congrArg card ?_)⟩
  refine filter_congr fun i hi => ?_
  rw [hsame i (mem_usedIds.mp hi).1]

theorem Audited.claim {count sbFreeBlocks : Nat} {pinnedFrees : List (Nat × Nat)} {r : IdRange}
    (h : group.Audited isDir) (hc : group.Claimed count sbFreeBlocks pinnedFrees r metadata) :
    ({ group with metadata := metadata } : BlockGroup).Audited isDir := by
  have hdesc := hc.desc
  rw [BlockGroupDesc.clearBlockUninit_eq] at hdesc
  have hbooks := hc.books
  have hfree := h.freeBlocks
  refine ⟨?_, ?_, ?_, ?_⟩
  · simp only [hdesc]
    omega
  · simp only [hdesc, hc.inodes, h.freeInodes]
  · simp only [hdesc, hc.inodes, h.unused]
  · simp only [hdesc, hc.inodes, h.usedDirs]

theorem Audited.release {startBit count freed : Nat} (h : group.Audited isDir)
    (hr : group.Released startBit count freed metadata) :
    ({ group with metadata := metadata } : BlockGroup).Audited isDir := by
  refine ⟨?_, ?_, ?_, ?_⟩
  · simp only [hr.desc, hr.books, h.freeBlocks]
  · simp only [hr.desc, hr.inodes, h.freeInodes]
  · simp only [hr.desc, hr.inodes, h.unused]
  · simp only [hr.desc, hr.inodes, h.usedDirs]

structure Even (group : BlockGroup) (inodesPerGroup : Nat) : Prop where
  pos : 0 < inodesPerGroup
  perGroup : group.nrInodesPerGroup = inodesPerGroup
  bits : group.metadata.inodeBitmap.len = group.nrInodesPerGroup
  unpadded : group.metadata.inodeBitmap.Unpadded

theorem itableUnused_eq {bitmap : IdBitmap} (hlen : bitmap.len = n) (hpad : bitmap.Unpadded) :
    itableUnusedFromBitmap bitmap n = n - bitmap.highest := by
  rw [itableUnusedFromBitmap, ← hlen, highWater_eq hpad]

theorem Even.birth (h : group.Even n)
    (hc : group.ClaimedIno type i metadata) : ({ group with metadata := metadata } : BlockGroup).Even n where
  pos := h.pos
  perGroup := h.perGroup
  bits := hc.len.trans h.bits
  unpadded k hlo hhi := by
    have hlt := hc.lt
    simp only [hc.len] at hlo hhi
    rw [hc.bits, if_neg (by omega)]
    exact h.unpadded k hlo hhi

theorem Even.death (h : group.Even n)
    (hi : i < group.metadata.inodeBitmap.len) (hr : group.ReleasedIno type i metadata) :
    ({ group with metadata := metadata } : BlockGroup).Even n where
  pos := h.pos
  perGroup := h.perGroup
  bits := by
    simp only [hr.bitmap, len_free]
    exact h.bits
  unpadded k hlo hhi := by
    simp only [hr.bitmap, len_free] at hlo hhi ⊢
    rw [isAllocated_free _ hi, h.unpadded k hlo hhi, ite_self]

theorem ClaimedIno.books (hc : group.ClaimedIno type i metadata) :
    metadata.inodeBitmap.freeIds.card + 1 = group.metadata.inodeBitmap.freeIds.card := by
  have hfree : group.metadata.inodeBitmap.freeIds = insert i metadata.inodeBitmap.freeIds := by
    ext k
    rw [mem_insert, mem_freeIds, mem_freeIds, hc.len, hc.bits]
    by_cases hk : k = i
    · simp [hk, hc.lt, hc.clear]
    · simp [hk]
  have hgone : i ∉ metadata.inodeBitmap.freeIds := by
    rw [mem_freeIds, hc.bits, if_pos rfl]
    simp
  rw [hfree, card_insert_of_notMem hgone]

theorem ReleasedIno.books (hi : i < group.metadata.inodeBitmap.len)
    (hset : group.metadata.inodeBitmap.isAllocated i = true) (hr : group.ReleasedIno type i metadata) :
    metadata.inodeBitmap.freeIds.card = group.metadata.inodeBitmap.freeIds.card + 1 := by
  have hnew : i ∉ group.metadata.inodeBitmap.freeIds := by
    rw [mem_freeIds, hset]
    simp
  rw [hr.bitmap, freeIds_free hi, card_insert_of_notMem hnew]

theorem Audited.birth (h : group.Audited isDir) (he : group.Even n)
    (hc : group.ClaimedIno type i metadata) :
    ({ group with metadata := metadata } : BlockGroup).Audited
      (update isDir i type.isDirectory) := by
  have hlt := hc.lt
  have hunpadded := (he.birth hc).unpadded
  have hlen : metadata.inodeBitmap.len = group.nrInodesPerGroup := hc.len.trans he.bits
  have hused : metadata.inodeBitmap.usedIds = insert i group.metadata.inodeBitmap.usedIds := by
    ext k
    rw [mem_insert, mem_usedIds, mem_usedIds, hc.len, hc.bits]
    by_cases hk : k = i
    · simp [hk, hlt]
    · simp [hk]
  have hnew : i ∉ group.metadata.inodeBitmap.usedIds := by
    rw [mem_usedIds, hc.clear]
    simp
  have hcount := hc.books
  rw [← h.freeInodes] at hcount
  refine ⟨?_, ?_, ?_, ?_⟩
  · simp only [hc.desc, hc.blocks, h.freeBlocks]
  · simp only [hc.desc]
    omega
  · simp only [hc.desc]
    exact itableUnused_eq hlen hunpadded
  · have hrest : (group.metadata.inodeBitmap.usedIds.filter fun k =>
        update isDir i type.isDirectory k = true) =
          group.metadata.inodeBitmap.usedIds.filter fun k => isDir k = true :=
      filter_congr fun k hk => by
        have hne : k ≠ i := fun heq => hnew (heq ▸ hk)
        rw [update_of_ne hne]
    simp only [hc.desc, hused, filter_insert, update_self, hrest, h.usedDirs]
    split_ifs with hdir
    · rw [card_insert_of_notMem fun hmem => hnew (mem_filter.mp hmem).1]
    · rfl

theorem Audited.death (h : group.Audited isDir) (he : group.Even n)
    (hi : i < group.metadata.inodeBitmap.len) (hset : group.metadata.inodeBitmap.isAllocated i = true)
    (hown : isDir i = type.isDirectory) (hr : group.ReleasedIno type i metadata) :
    ({ group with metadata := metadata } : BlockGroup).Audited isDir := by
  have hunpadded := (he.death hi hr).unpadded
  have hlen : metadata.inodeBitmap.len = group.nrInodesPerGroup := by
    rw [hr.bitmap, len_free]
    exact he.bits
  have hused : metadata.inodeBitmap.usedIds = group.metadata.inodeBitmap.usedIds.erase i := by
    ext k
    rw [mem_erase, mem_usedIds, mem_usedIds, hr.bitmap, len_free, isAllocated_free _ hi]
    by_cases hk : k = i
    · simp [hk]
    · simp [hk]
  refine ⟨?_, ?_, ?_, ?_⟩
  · simp only [hr.desc, hr.blocks, h.freeBlocks]
  · simp only [hr.desc, hr.books hi hset, h.freeInodes]
  · simp only [hr.desc]
    exact itableUnused_eq hlen hunpadded
  · simp only [hr.desc, hused, filter_erase, h.usedDirs, ← hown]
    split_ifs with hdir
    · rw [card_erase_of_mem (mem_filter.mpr ⟨mem_usedIds.mpr ⟨hi, hset⟩, hdir⟩)]
    · have hnot : i ∉ group.metadata.inodeBitmap.usedIds.filter fun k => isDir k = true :=
        fun hmem => hdir (mem_filter.mp hmem).2
      rw [erase_eq_of_notMem hnot, Nat.sub_zero]

end BlockGroup

namespace Fs

structure Audited (dirs : Nat → Bool) (fs : Fs) : Prop where
  group : ∀ idx < fs.sb.nrBlockGroups,
    (fs.groups idx).Audited fun i => dirs (idx * fs.sb.inodesPerGroup + i + 1)
  freeBlocks : fs.sb.freeBlocksCount =
    ∑ idx ∈ Finset.range fs.sb.nrBlockGroups, (fs.groups idx).metadata.desc.freeBlocksCount
  freeInodes : fs.sb.freeInodesCount =
    ∑ idx ∈ Finset.range fs.sb.nrBlockGroups, (fs.groups idx).metadata.desc.freeInodesCount

def Even (fs : Fs) : Prop := ∀ idx < fs.sb.nrBlockGroups, (fs.groups idx).Even fs.sb.inodesPerGroup

structure Kept (dirs : Nat → Bool) (fs : Fs) : Prop where
  ready : fs.Ready
  wf : fs.layout.Wf
  even : fs.Even
  audited : fs.Audited dirs

variable {fs fs' : Fs} {idx : Nat} {m : BlockGroupMetadata} {sb : SuperBlock} {bid : Nat}
  {bitmap : IdBitmap} {dirs dirs' : Nat → Bool}

section

variable (h : fs.Stroke fs' idx m sb bid bitmap)

include h

theorem Stroke.self :
    fs'.groups idx = { fs.groups idx with metadata := m } := by
  rw [h.groups]
  simp [setMetadata]

theorem Stroke.other {k : Nat} (hk : k ≠ idx) :
    fs'.groups k = fs.groups k := by
  rw [h.groups]
  simp [setMetadata, hk]

theorem Stroke.nrGroups :
    fs'.sb.nrBlockGroups = fs.sb.nrBlockGroups := by
  have hframe := h.frame
  rw [← h.sb] at hframe
  simpa [SuperBlock.frame] using congrArg SuperBlock.nrBlockGroups hframe

theorem Stroke.inodesPerGroup :
    fs'.sb.inodesPerGroup = fs.sb.inodesPerGroup := by
  have hframe := h.frame
  rw [← h.sb] at hframe
  simpa [SuperBlock.frame] using congrArg SuperBlock.inodesPerGroup hframe

end

theorem Kept.stroke (hk : fs.Kept dirs) (h : fs.Stroke fs' idx m sb bid bitmap)
    (heven : ({ fs.groups idx with metadata := m } : BlockGroup).Even fs.sb.inodesPerGroup)
    (hgroup : ({ fs.groups idx with metadata := m } : BlockGroup).Audited
      fun i => dirs' (idx * fs.sb.inodesPerGroup + i + 1))
    (hdirs : ∀ k < fs.sb.nrBlockGroups, k ≠ idx → ∀ i < fs.sb.inodesPerGroup,
      dirs' (k * fs.sb.inodesPerGroup + i + 1) = dirs (k * fs.sb.inodesPerGroup + i + 1))
    (hblocks : sb.freeBlocksCount + (fs.groups idx).metadata.desc.freeBlocksCount =
      fs.sb.freeBlocksCount + m.desc.freeBlocksCount)
    (hinodes : sb.freeInodesCount + (fs.groups idx).metadata.desc.freeInodesCount =
      fs.sb.freeInodesCount + m.desc.freeInodesCount) : fs'.Kept dirs' where
  ready := h.ready
  wf := h.layout ▸ hk.wf
  even := by
    intro k hlt
    rw [h.nrGroups] at hlt
    rw [h.inodesPerGroup]
    rcases eq_or_ne k idx with rfl | hne
    · rw [h.self]
      exact heven
    · rw [h.other hne]
      exact hk.even k hlt
  audited := by
    refine ⟨fun k hlt => ?_, ?_, ?_⟩
    · rw [h.nrGroups] at hlt
      rw [h.inodesPerGroup]
      rcases eq_or_ne k idx with rfl | hne
      · rw [h.self]
        exact hgroup
      · rw [h.other hne]
        refine (hk.audited.group k hlt).congr fun i hi => ?_
        have heven := hk.even k hlt
        exact hdirs k hlt hne i (by rw [heven.bits, heven.perGroup] at hi; exact hi)
    · have hsum := sum_setMetadata (m := m) (fun m => m.desc.freeBlocksCount) h.idx_lt
      have hold := hk.audited.freeBlocks
      rw [h.nrGroups, h.groups, h.sb]
      omega
    · have hsum := sum_setMetadata (m := m) (fun m => m.desc.freeInodesCount) h.idx_lt
      have hold := hk.audited.freeInodes
      rw [h.nrGroups, h.groups, h.sb]
      omega

theorem ino_inj {n j k i l : Nat} (hi : i < n) (hl : l < n) (h : j * n + i + 1 = k * n + l + 1) :
    j = k ∧ i = l := by
  have hsame : j * n + i = k * n + l := by omega
  have hj : (j * n + i) / n = j := by
    rw [mul_comm, Nat.mul_add_div (by omega), Nat.div_eq_of_lt hi, add_zero]
  have hk : (k * n + l) / n = k := by
    rw [mul_comm, Nat.mul_add_div (by omega), Nat.div_eq_of_lt hl, add_zero]
  rw [hsame, hk] at hj
  subst hj
  exact ⟨rfl, by omega⟩

structure Lulls (fs fs' : Fs) : Prop where
  sb : fs'.sb = { fs.sb with lastOrphan := fs'.sb.lastOrphan }
  groups : fs'.groups = fs.groups
  ready : fs'.Ready

theorem wf_lastOrphan {lastOrphan : Option Nat} {group : Nat → GroupLayout} (hw : Layout.Wf ⟨sb.frame, group⟩) :
    Layout.Wf ⟨({ sb with lastOrphan := lastOrphan } : SuperBlock).frame, group⟩ :=
  { perGroup_pos := hw.perGroup_pos
    cover := hw.cover
    first := hw.first
    first_le := hw.first_le
    last := hw.last
    bits := hw.bits
    blockBitmap_inj := hw.blockBitmap_inj
    inodeBitmap_inj := hw.inodeBitmap_inj
    bitmaps_ne := hw.bitmaps_ne
    blockBitmap_ne_desc := hw.blockBitmap_ne_desc
    inodeBitmap_ne_desc := hw.inodeBitmap_ne_desc
    blockBitmap_ne_sb := hw.blockBitmap_ne_sb
    inodeBitmap_ne_sb := hw.inodeBitmap_ne_sb
    desc_ne_sb := hw.desc_ne_sb
    desc_size := hw.desc_size
    desc_fits := hw.desc_fits
    desc_apart := hw.desc_apart }

theorem Kept.lulls (hk : fs.Kept dirs) (h : fs.Lulls fs') : fs'.Kept dirs := by
  obtain ⟨hsb, hgroups, hready⟩ := h
  refine ⟨hready, ?_, ?_, ?_⟩
  · have hw := hk.wf
    unfold Fs.layout at hw ⊢
    rw [hsb, hgroups]
    exact wf_lastOrphan hw
  · unfold Even
    rw [hsb, hgroups]
    exact hk.even
  · obtain ⟨hgroup, hblocks, hinodes⟩ := hk.audited
    refine ⟨?_, ?_, ?_⟩
    · rw [hsb, hgroups]
      exact hgroup
    · rw [hsb, hgroups]
      exact hblocks
    · rw [hsb, hgroups]
      exact hinodes

theorem Kept.blocks (hk : fs.Kept dirs) (h : fs.Alters .blocks fs') : fs'.Kept dirs := by
  obtain ⟨idx, m, sb, bid, bitmap, hstroke, hdeed⟩ := h
  have heven := hk.even idx hstroke.idx_lt
  have haudited := hk.audited.group idx hstroke.idx_lt
  cases hdeed with
  | @claim count sbFreeBlocks pinnedFrees r hc hcounted =>
    have hdesc := hc.desc
    rw [BlockGroupDesc.clearBlockUninit_eq] at hdesc
    have hlen := hc.len_free
    have hsb : r.len ≤ fs.sb.freeBlocksCount ∧
        sb = { fs.sb with freeBlocksCount := fs.sb.freeBlocksCount - r.len } := by
      unfold SuperBlock.decFreeBlocks at hcounted
      split_ifs at hcounted with hle
      exact ⟨hle, (Except.ok.inj hcounted).symm⟩
    refine hk.stroke hstroke ⟨heven.pos, heven.perGroup, ?_, ?_⟩ (haudited.claim hc) (fun _ _ _ _ _ => rfl)
      ?_ ?_
    · simp only [hc.inodes]
      exact heven.bits
    · simp only [hc.inodes]
      exact heven.unpadded
    · have hle := hsb.1
      rw [hsb.2, hdesc]
      simp only
      omega
    · rw [hsb.2, hdesc]
  | @release startBit count freedCount hfits hr hcounted =>
    refine hk.stroke hstroke ⟨heven.pos, heven.perGroup, ?_, ?_⟩ (haudited.release hr)
      (fun _ _ _ _ _ => rfl) ?_ ?_
    · simp only [hr.inodes]
      exact heven.bits
    · simp only [hr.inodes]
      exact heven.unpadded
    · rw [hcounted, hr.desc]
      simp only
      omega
    · rw [hcounted, hr.desc]

theorem Kept.born {i : Nat} {d : Bool} (hk : fs.Kept dirs) (h : fs.Alters (.born idx i d) fs') :
    fs'.Kept (update dirs (idx * fs.sb.inodesPerGroup + i + 1) d) := by
  obtain ⟨_, m, sb, bid, bitmap, hstroke, hdeed⟩ := h
  cases hdeed with
  | @birth type _ _ hc hcounted =>
    have heven := hk.even idx hstroke.idx_lt
    have hi : i < fs.sb.inodesPerGroup := by
      rw [← heven.perGroup, ← heven.bits]
      exact hc.lt
    have hsb := decFreeInodes_eq hcounted
    have hpos := hsb.1
    have hfree := hc.free
    refine hk.stroke hstroke (heven.birth hc) ?_ ?_ ?_ ?_
    · refine ((hk.audited.group idx hstroke.idx_lt).birth heven hc).congr fun k _ => ?_
      rcases eq_or_ne k i with rfl | hne
      · rw [update_self, update_self]
      · rw [update_of_ne hne, update_of_ne (by omega)]
    · intro k _ hne l hl
      refine update_of_ne (fun heq => hne ?_) _ _
      exact (ino_inj hl hi heq).1
    · rw [hsb.2, hc.desc]
    · rw [hsb.2, hc.desc]
      simp only
      omega

theorem Kept.died {ino : Nat} (hk : fs.Kept dirs) (hino : 0 < ino)
    (h : fs.Alters (.died (fs.inoGroup ino) (fs.inoBit ino) (dirs ino)) fs') : fs'.Kept dirs := by
  generalize hd : dirs ino = d at h
  obtain ⟨_, m, sb, bid, bitmap, hstroke, hdeed⟩ := h
  cases hdeed with
  | @death type _ hset hr hcounted =>
    have heven := hk.even _ hstroke.idx_lt
    have hbit : fs.inoBit ino < (fs.groups (fs.inoGroup ino)).metadata.inodeBitmap.len := by
      rw [heven.bits, heven.perGroup]
      exact Nat.mod_lt _ heven.pos
    have hnumber : fs.inoGroup ino * fs.sb.inodesPerGroup + fs.inoBit ino + 1 = ino := by
      have hsplit := Nat.div_add_mod' (ino - 1) fs.sb.inodesPerGroup
      unfold inoGroup inoBit
      omega
    have hown : dirs (fs.inoGroup ino * fs.sb.inodesPerGroup + fs.inoBit ino + 1) = type.isDirectory := by
      rw [hnumber, hd]
    refine hk.stroke hstroke (heven.death hbit hr)
      ((hk.audited.group _ hstroke.idx_lt).death heven hbit hset hown hr) (fun _ _ _ _ _ => rfl) ?_ ?_
    · rw [incFreeInodes_eq hcounted, hr.desc]
    · rw [incFreeInodes_eq hcounted, hr.desc]
      simp only
      omega

theorem kept_upheld (F : Set Nat) : Upheld F Lulls fun dirs fs => fs.Kept dirs where
  ready hk := hk.ready
  wf hk := hk.wf
  rests hk h := hk.lulls ⟨by rw [h.sb], h.groups, h.ready⟩
  blocks := Kept.blocks
  born hk h _ := hk.born h
  died := Kept.died
  turn := Kept.lulls

end Fs

theorem counters_match_bitmaps {g : JournalGeometry} {fs₀ fs : Fs} {dirs₀ dirs : Nat → Bool}
    (hready : fs₀.Ready) (hw : fs₀.layout.Wf) (heven : fs₀.Even) (haudited : fs₀.Audited dirs₀)
    (h : Fs.Served g Set.univ Fs.Lulls dirs₀ fs₀ dirs fs) : fs.Audited dirs :=
  (h.holds (Fs.kept_upheld Set.univ) ⟨hready, hw, heven, haudited⟩).audited

def rootOnly (ino : Nat) : Bool := ino == 2

theorem crowded_even : (crowded.fs wide).Even := by
  intro idx _
  refine ⟨by decide, rfl, rfl, ?_⟩
  intro i hlo hhi
  have hlen : ((crowded.fs wide).groups idx).metadata.inodeBitmap.len = 16 := rfl
  rw [hlen] at hlo hhi
  omega

theorem crowded_audited : (crowded.fs wide).Audited rootOnly where
  group idx hidx := by
    obtain rfl : idx = 0 := Nat.lt_one_iff.mp hidx
    exact ⟨by decide +kernel, by decide +kernel, by decide +kernel, by decide +kernel⟩
  freeBlocks := by decide +kernel
  freeInodes := by decide +kernel

theorem counters_match_bitmaps_crowded :
    (Fs.allocIno Specimen.wide 2 .file (Specimen.crowded.fs Specimen.wide)).1 = .ok 13 ∧
      (Fs.allocIno Specimen.wide 2 .file (Specimen.crowded.fs Specimen.wide)).2.Audited
        (Function.update rootOnly 13 false) := by
  have hrun : (Fs.allocIno Specimen.wide 2 .file (Specimen.crowded.fs Specimen.wide)).1 = .ok 13 := by
    decide +kernel
  refine ⟨hrun, ?_⟩
  have hserved : Fs.Served Specimen.wide Set.univ Fs.Lulls rootOnly (Specimen.crowded.fs Specimen.wide)
      (Function.update rootOnly 13 InodeType.file.isDirectory) _ := .allocIno .start (Op.run_eq hrun)
  exact counters_match_bitmaps (.live (Specimen.crowded.live Specimen.wide))
    (Specimen.crowded.wf Specimen.wide) crowded_even crowded_audited hserved

namespace Padded

def bitmap : Block := setBits (setBits (zeros _) 0 12 true) 20 4 true

def group : BlockGroup :=
  { Specimen.crowded.group with
    nrInodesPerGroup := 20
    metadata :=
      { Specimen.crowded.group.metadata with
        desc := { Specimen.crowded.desc with freeInodesCount := 8, itableUnused := 8 }
        inodeBitmap := .fromBuf bitmap 20 (by decide) } }

def fs : Fs :=
  { Specimen.crowded.fs Specimen.wide with
    sb := { Specimen.crowded.sb with inodesCount := 20, freeInodesCount := 8, inodesPerGroup := 20 }
    groups := fun _ => group
    device := fun b => if b = 3 then some bitmap else Specimen.crowded.device b }

theorem audited : fs.Audited rootOnly where
  group idx hidx := by
    obtain rfl : idx = 0 := Nat.lt_one_iff.mp hidx
    exact ⟨by decide +kernel, by decide +kernel, by decide +kernel, by decide +kernel⟩
  freeBlocks := by decide +kernel
  freeInodes := by decide +kernel

end Padded

theorem padding_hides_unused_inodes :
    Padded.fs.Audited rootOnly ∧ (Fs.allocIno Specimen.wide 2 .file Padded.fs).1 = .ok 13 ∧
      ((Fs.allocIno Specimen.wide 2 .file Padded.fs).2.groups 0).metadata.inodeBitmap.highest = 13 ∧
      ((Fs.allocIno Specimen.wide 2 .file Padded.fs).2.groups 0).nrInodesPerGroup = 20 ∧
      ((Fs.allocIno Specimen.wide 2 .file Padded.fs).2.groups 0).metadata.desc.itableUnused = 0 := by
  refine ⟨Padded.audited, ?_, ?_, ?_, ?_⟩
  · decide +kernel
  · decide +kernel
  · decide +kernel
  · decide +kernel

end Ext4
