import Ext4.Alloc.Load
import Ext4.Inode.Table

namespace Ext4

open BlockGroup

variable {g : JournalGeometry}

namespace SuperBlock

variable {sb : SuperBlock} {i j b : Nat}

def InGroup (sb : SuperBlock) (idx b : Nat) : Prop :=
  BlockGroup.firstBlockOf sb idx ≤ b ∧ b ≤ BlockGroup.lastBlockOf sb idx

structure Partitions (sb : SuperBlock) : Prop where
  nonempty : ∀ idx < sb.nrBlockGroups, BlockGroup.firstBlockOf sb idx ≤ BlockGroup.lastBlockOf sb idx
  size : ∀ idx < sb.nrBlockGroups,
    BlockGroup.lastBlockOf sb idx - BlockGroup.firstBlockOf sb idx + 1 ≤ 32768
  disjoint : ∀ i < sb.nrBlockGroups, ∀ j < sb.nrBlockGroups, ∀ b, sb.InGroup i b → sb.InGroup j b → i = j
  cover : ∀ b, (∃ idx < sb.nrBlockGroups, sb.InGroup idx b) ↔ sb.firstDataBlock ≤ b ∧ b < sb.blocksCount
  groupOf : ∀ (fs : Fs) b, fs.sb = sb → sb.firstDataBlock ≤ b → b < sb.blocksCount →
    fs.groupOf b < sb.nrBlockGroups ∧ sb.InGroup (fs.groupOf b) b
  findGroup : ∀ ino, 1 ≤ ino → ino ≤ sb.inodesCount → ∃ idx < sb.nrBlockGroups,
    Fs.findGroup sb ino = .ok idx ∧ ∃ k < sb.inodesPerGroup,
      (ino - 1) % sb.inodesPerGroup = k ∧ ino = idx * sb.inodesPerGroup + k + 1
  blocks_lt : ∀ idx < sb.nrBlockGroups, idx * sb.blocksPerGroup < 2 ^ 64 ∧
    BlockGroup.firstBlockOf sb idx < 2 ^ 64 ∧ BlockGroup.lastBlockOf sb idx < 2 ^ 64 ∧
    (idx ≠ sb.nrBlockGroups - 1 → BlockGroup.firstBlockOf sb idx + sb.blocksPerGroup < 2 ^ 64)
  inodes_lt : sb.nrBlockGroups * sb.inodesPerGroup < 2 ^ 64

theorem Split.last (hs : sb.Split) :
    firstBlockOf sb (sb.nrBlockGroups - 1) < sb.blocksCount ∧
      sb.blocksCount ≤ firstBlockOf sb (sb.nrBlockGroups - 1) + sb.blocksPerGroup := by
  obtain ⟨hpos, -, hblocks, hgroups⟩ := hs
  have hlow := Nat.div_mul_le_self (sb.blocksCount - sb.firstDataBlock - 1) sb.blocksPerGroup
  have hhigh := Nat.lt_div_mul_add (a := sb.blocksCount - sb.firstDataBlock - 1) hpos
  unfold firstBlockOf
  rw [hgroups, Nat.add_sub_cancel]
  omega

theorem firstBlockOf_succ_le (sb : SuperBlock) (h : i < j) :
    firstBlockOf sb i + sb.blocksPerGroup ≤ firstBlockOf sb j := by
  have hmul := Nat.mul_le_mul_right sb.blocksPerGroup h
  rw [Nat.succ_mul] at hmul
  unfold firstBlockOf
  omega

theorem Split.inGroup_iff (hs : sb.Split) (hi : i < sb.nrBlockGroups) :
    sb.InGroup i b ↔ sb.firstDataBlock ≤ b ∧ b < sb.blocksCount ∧
      (b - sb.firstDataBlock) / sb.blocksPerGroup = i := by
  have hpos := hs.perGroup_pos
  have hlast := hs.last
  have hquot : (b - sb.firstDataBlock) / sb.blocksPerGroup = i ↔
      i * sb.blocksPerGroup ≤ b - sb.firstDataBlock ∧
        b - sb.firstDataBlock < i * sb.blocksPerGroup + sb.blocksPerGroup := by
    rw [Nat.div_eq_iff hpos]
    omega
  have hfirst : firstBlockOf sb i = sb.firstDataBlock + i * sb.blocksPerGroup := rfl
  rw [hquot]
  unfold InGroup lastBlockOf
  by_cases hend : i = sb.nrBlockGroups - 1
  · rw [if_pos hend, hfirst]
    rw [← hend] at hlast
    omega
  · have hnext := firstBlockOf_succ_le sb (show i < sb.nrBlockGroups - 1 by omega)
    rw [if_neg hend, hfirst]
    omega

theorem Split.groupOf_lt (hs : sb.Split) (hfirst : sb.firstDataBlock ≤ b) (hlt : b < sb.blocksCount) :
    (b - sb.firstDataBlock) / sb.blocksPerGroup < sb.nrBlockGroups := by
  rw [hs.groups, Nat.lt_succ_iff]
  exact Nat.div_le_div_right (by omega)

theorem Split.last_lt (hs : sb.Split) (hi : i < sb.nrBlockGroups) :
    lastBlockOf sb i < sb.blocksCount :=
  ((hs.inGroup_iff hi).mp ⟨(hs.span hi).1, le_rfl⟩).2.1

theorem group_geometry_partitions {raw : RawSuperBlock} {v : Volume} (h : tryFrom raw = .ok v) :
    v.sb.Partitions := by
  obtain ⟨hs, hn, -⟩ := tryFrom_ok h
  refine ⟨fun idx hidx => (hs.span hidx).1, fun idx hidx => (hs.span hidx).2, ?_, fun b => ⟨?_, ?_⟩, ?_, ?_, ?_, ?_⟩
  · intro i hi j hj b hbi hbj
    rw [← ((hs.inGroup_iff hi).mp hbi).2.2, ((hs.inGroup_iff hj).mp hbj).2.2]
  · rintro ⟨idx, hidx, hb⟩
    have hin := (hs.inGroup_iff hidx).mp hb
    exact ⟨hin.1, hin.2.1⟩
  · rintro ⟨hfirst, hlt⟩
    have hidx := hs.groupOf_lt hfirst hlt
    exact ⟨_, hidx, (hs.inGroup_iff hidx).mpr ⟨hfirst, hlt, rfl⟩⟩
  · rintro fs b hsb hfirst hlt
    have hidx := hs.groupOf_lt hfirst hlt
    unfold Fs.groupOf
    rw [hsb]
    exact ⟨hidx, (hs.inGroup_iff hidx).mpr ⟨hfirst, hlt, rfl⟩⟩
  · intro ino hpos hle
    have hidx : (ino - 1) / v.sb.inodesPerGroup < v.sb.nrBlockGroups :=
      Nat.div_lt_of_lt_mul (by have := hn.inodes_le; rw [Nat.mul_comm]; omega)
    refine ⟨_, hidx, ?_, _, Nat.mod_lt _ hn.perGroup_pos, rfl, ?_⟩
    · unfold Fs.findGroup
      rw [if_neg (by omega), if_neg (by omega), if_neg (by omega)]
    · have hsplit := Nat.div_add_mod' (ino - 1) v.sb.inodesPerGroup
      omega
  · intro idx hidx
    have hlast := hs.last_lt hidx
    have hspan := (hs.span hidx).1
    have hblocks := hn.blocks_lt
    have hfirst : BlockGroup.firstBlockOf v.sb idx = v.sb.firstDataBlock + idx * v.sb.blocksPerGroup := rfl
    refine ⟨by omega, by omega, by omega, fun hne => ?_⟩
    have hnext := firstBlockOf_succ_le v.sb (show idx < v.sb.nrBlockGroups - 1 by omega)
    have hend := hs.last.1
    omega
  · calc v.sb.nrBlockGroups * v.sb.inodesPerGroup
        ≤ 2 ^ 32 * 32768 := Nat.mul_le_mul hn.groups_lt.le hn.perGroup_le
      _ < 2 ^ 64 := by decide

theorem group_geometry_partitions_pair :
    ∃ v, tryFrom Lazy.super = .ok v ∧ v.sb.nrBlockGroups = 2 ∧ v.sb.Partitions := by
  obtain ⟨v, haccept, -, -, -, hgroups, -⟩ := Lazy.accepted
  exact ⟨v, haccept, hgroups, group_geometry_partitions haccept⟩

end SuperBlock

namespace Fs

variable {fs : Fs} {v : Volume} {t : InodeTable}

theorem searchGroups_claims (count sbFreeBlocks : Nat) (pinnedFrees : List (Nat × Nat))
    {ring : List Nat} (hring : ∀ idx ∈ ring, idx < fs.sb.nrBlockGroups) (pinnedBlocked : Bool) :
    (searchGroups g count sbFreeBlocks pinnedFrees ring pinnedBlocked).Ends fs
      (fun r _ => ∃ idx < fs.sb.nrBlockGroups, ∃ metadata,
        (fs.groups idx).Claimed count sbFreeBlocks pinnedFrees r metadata) fun _ _ => True := by
  induction ring generalizing fs pinnedBlocked with
  | nil => exact .intro (fun r fs' h => by unfold searchGroups at h; split at h <;> cases h) fun _ _ _ => trivial
  | cons idx ring ih =>
    refine (allocBlocks_settles g fs idx count sbFreeBlocks pinnedFrees).bindOr (fun _ _ _ => trivial) fun res fs1 h1 => ?_
    cases res with
    | allocated r =>
      obtain ⟨metadata, hclaimed, -⟩ := h1
      have hgroup : ∃ i < fs.sb.nrBlockGroups, ∃ metadata,
          (fs.groups i).Claimed count sbFreeBlocks pinnedFrees r metadata :=
        ⟨idx, hring idx List.mem_cons_self, metadata, hclaimed⟩
      exact (Op.Ends.any _ fs1).bind fun _ _ _ => .ret hgroup
    | noFit pinnedInGroup =>
      have hidle := h1.1
      rw [← hidle.sb, ← hidle.groups]
      refine ih (fun i hi => ?_) _
      rw [hidle.sb]
      exact hring i (List.mem_cons_of_mem idx hi)

theorem allocBlocks_claims (fs : Fs) (count goal : Nat) :
    (allocBlocks g count goal).Ends fs
      (fun r _ => ∃ idx < fs.sb.nrBlockGroups, ∃ sbFreeBlocks pinnedFrees metadata,
        (fs.groups idx).Claimed count sbFreeBlocks pinnedFrees r metadata) fun _ _ => True := by
  unfold allocBlocks
  split_ifs
  · exact .fail trivial
  refine .bind_get ?_
  split_ifs
  · exact .fail trivial
  · refine (searchGroups_claims count _ _ groupRing_lt false).mono (fun r _ h => ?_) fun _ _ h => h
    obtain ⟨idx, hidx, metadata, hclaimed⟩ := h
    exact ⟨idx, hidx, _, _, metadata, hclaimed⟩

structure Mounted (v : Volume) (fs : Fs) : Prop where
  nrBlockGroups : fs.sb.nrBlockGroups = v.sb.nrBlockGroups
  inodesPerGroup : fs.sb.inodesPerGroup = v.sb.inodesPerGroup
  group : ∀ idx < v.sb.nrBlockGroups, ∃ device group, BlockGroup.Loaded device v idx group ∧
    (fs.groups idx).layout = group.layout

def TablesInside (fs : Fs) : Prop :=
  ∀ idx < fs.sb.nrBlockGroups, (fs.groups idx).firstBlock ≤ (fs.groups idx).metadata.desc.inodeTableBid ∧
    (fs.groups idx).metadata.desc.inodeTableBid + (fs.groups idx).nrInodeTableBlocksPerGroup ≤
      (fs.groups idx).lastBlock + 1

section Slots

variable {idx ino b : Nat} {slot : InodeSlot}

structure Seated (v : Volume) (group : BlockGroup) (idx : Nat) : Prop where
  first : group.firstBlock = BlockGroup.firstBlockOf v.sb idx
  last : group.lastBlock = BlockGroup.lastBlockOf v.sb idx
  table : group.nrInodeTableBlocksPerGroup = v.nrInodeTableBlocksPerGroup
  bits : group.metadata.blockBitmap.len = group.lastBlock - group.firstBlock + 1

section

variable (h : fs.Mounted v)
include h

theorem Mounted.seated (hidx : idx < v.sb.nrBlockGroups) : Seated v (fs.groups idx) idx := by
  obtain ⟨device, group, hloaded, hlayout⟩ := h.group idx hidx
  have hfirst : (fs.groups idx).firstBlock = group.firstBlock := congrArg GroupLayout.firstBlock hlayout
  have hlast : (fs.groups idx).lastBlock = group.lastBlock := congrArg GroupLayout.lastBlock hlayout
  refine ⟨hfirst.trans hloaded.first, hlast.trans hloaded.last, ?_, ?_⟩
  · exact (congrArg GroupLayout.nrInodeTableBlocksPerGroup hlayout).trans hloaded.table
  · refine (congrArg GroupLayout.blockBits hlayout).trans ?_
    obtain ⟨hsize, hbitmap⟩ := hloaded.bitmap
    rw [hfirst, hlast]
    unfold loadBlockBitmap at hbitmap
    split at hbitmap
    · exact (rebuildBlockBitmap_ok hbitmap).len
    · split at hbitmap
      · cases hbitmap
      · exact (congrArg IdBitmap.len (Except.ok.inj hbitmap)).symm

theorem Mounted.inGroup (hin : fs.TablesInside) (hidx : idx < fs.sb.nrBlockGroups)
    (hb : fs.layout.InTable idx b) : v.sb.InGroup idx b := by
  have hseat := h.seated (h.nrBlockGroups ▸ hidx)
  obtain ⟨hlo, hhi⟩ := hin idx hidx
  obtain ⟨hfirst, hlast⟩ := hb
  change (fs.groups idx).metadata.desc.inodeTableBid ≤ b at hfirst
  change b < (fs.groups idx).metadata.desc.inodeTableBid + (fs.groups idx).nrInodeTableBlocksPerGroup at hlast
  rw [hseat.first] at hlo
  rw [hseat.last] at hhi
  exact ⟨by omega, by omega⟩

theorem Mounted.room (hsize : t.inodeSize = v.geometry.inodeSize)
    (htable : v.nrInodeTableBlocksPerGroup = v.sb.inodesPerGroup / (4096 / v.geometry.inodeSize))
    (hwhole : v.sb.inodesPerGroup % (4096 / v.geometry.inodeSize) = 0) (hidx : idx < fs.sb.nrBlockGroups) :
    fs.sb.inodesPerGroup * t.inodeSize ≤ (fs.groups idx).nrInodeTableBlocksPerGroup * 4096 := by
  rw [(h.seated (h.nrBlockGroups ▸ hidx)).table, htable, h.inodesPerGroup, hsize]
  obtain ⟨k, hk⟩ := Nat.dvd_of_mod_eq_zero hwhole
  have hpos : 0 < 4096 / v.geometry.inodeSize :=
    Nat.div_pos (Nat.le_of_dvd (by decide) v.geometry.size_dvd) (lt_of_lt_of_le (by decide) v.geometry.size_ge)
  have hblock := Nat.div_mul_cancel v.geometry.size_dvd
  refine le_of_eq ?_
  calc v.sb.inodesPerGroup * v.geometry.inodeSize
      = k * (4096 / v.geometry.inodeSize * v.geometry.inodeSize) := by rw [hk]; ring
    _ = v.sb.inodesPerGroup / (4096 / v.geometry.inodeSize) * 4096 := by
      rw [hblock, hk, Nat.mul_div_cancel_left k hpos]

theorem Mounted.allocBlocks_clear (hs : v.sb.Split) (hin : fs.TablesInside)
    (hidx : idx < fs.sb.nrBlockGroups) (hb : fs.layout.InTable idx b) {g : JournalGeometry} {count goal : Nat}
    {r : IdRange} {fs' : Fs} (hrun : allocBlocks g count goal fs = (.ok r, fs')) : r.contains b = false := by
  obtain ⟨j, hj, sbFreeBlocks, pinnedFrees, metadata, hclaimed⟩ :=
    Op.Ends.of_ok (allocBlocks_claims fs count goal) hrun
  refine Bool.eq_false_iff.mpr fun hcontains => ?_
  obtain ⟨hlo, hhi⟩ := IdRange.contains_iff.mp hcontains
  rw [h.nrBlockGroups] at hj
  have hseat := h.seated hj
  have hfirst := hclaimed.first_le
  have hstop := hclaimed.le
  have hspan := (hs.span hj).1
  rw [hseat.bits, hseat.first, hseat.last] at hstop
  rw [hseat.first] at hfirst
  have hgroup : v.sb.InGroup j b := ⟨by omega, by omega⟩
  have hsame := ((hs.inGroup_iff hj).mp hgroup).2.2.symm.trans
    ((hs.inGroup_iff (h.nrBlockGroups ▸ hidx)).mp (h.inGroup hin hidx hb)).2.2
  have hzone : (fs.groups j).overlapsSystemZoneWith (fs.groups j).metadata.desc r = true :=
    overlapsSystemZone_iff.mpr ⟨b, hcontains, .inr (.inr (hsame ▸ hb))⟩
  rw [hclaimed.zone] at hzone
  cases hzone

end

end Slots

end Fs

-- one group of 64 blocks with 256-byte inodes: bitmaps at 2 and 3, the inode table from 4 on, five blocks used
namespace Slotted

def superNum (perGroup : Nat) : SuperField → Nat
  | .inodesCount | .inodesPerGroup => perGroup
  | .blocksCount | .blocksPerGroup => 64
  | f => Lazy.superNum f

def super (perGroup : Nat) : RawSuperBlock := rawSuper.build fun f => Bytes.le f.width (superNum perGroup f)

def group (perGroup : Nat) : BlockGroup :=
  { Lazy.group 59 with
    groupIdx := 0
    firstBlock := 0
    lastBlock := 63
    nrInodeTableBlocksPerGroup := perGroup / 16
    metadata :=
      { (Lazy.group 59).metadata with
        desc := { Lazy.desc 59 with blockBitmapBid := 2, inodeBitmapBid := 3, inodeTableBid := 4 } } }

def fs (perGroup : Nat) : Fs :=
  { Lazy.fs 59 with
    sb := { (Lazy.fs 59).sb with
      nrBlockGroups := 1
      inodesPerGroup := perGroup
      firstDataBlock := 0
      freeBlocksCount := 59 }
    groups := fun _ => group perGroup }

def table : InodeTable := ⟨256, none, InodeTable.size_256, InodeTable.dvd_256⟩

theorem accepted {perGroup : Nat} (h : perGroup = 24 ∨ perGroup = 32) :
    ∃ v, SuperBlock.tryFrom (super perGroup) = .ok v ∧ (fs perGroup).Mounted v ∧
      v.sb.inodesCount = perGroup ∧ v.sb.inodesPerGroup = perGroup ∧ v.geometry.inodeSize = 256 := by
  have hread : ∀ n ∈ [24, 32], (SuperBlock.tryFrom (super n)).toOption.map (fun v => [v.sb.firstDataBlock,
      v.sb.blocksCount, v.sb.nrBlockGroups, v.sb.inodesCount, v.sb.inodesPerGroup,
      v.nrInodeTableBlocksPerGroup, v.geometry.inodeSize]) = some [0, 64, 1, n, n, n / 16, 256] := by
    decide +kernel
  replace hread := hread perGroup (by simpa using h)
  cases htry : SuperBlock.tryFrom (super perGroup) with
  | error e =>
    rw [htry] at hread
    cases hread
  | ok v =>
    rw [htry] at hread
    simp only [Except.toOption, Option.map_some, Option.some.injEq, List.cons.injEq] at hread
    obtain ⟨hfirst, hblocks, hgroups, hcount, hper, htable, hsize, -⟩ := hread
    refine ⟨v, rfl, ⟨hgroups.symm, hper.symm, fun idx hidx => ⟨fun _ => none, group perGroup, ?_, rfl⟩⟩,
      hcount, hper, hsize⟩
    obtain rfl : idx = 0 := by omega
    refine ⟨?_, ?_, htable.symm, (by decide : 63 - 0 + 1 ≤ 32768), ?_⟩
    · simp [firstBlockOf, hfirst, group]
    · simp [lastBlockOf, hblocks, hgroups, group]
    · have hlazy : (group perGroup).metadata.desc.isBlockUninit = true := Lazy.desc_lazy 59
      exact (if_pos hlazy).trans rfl

end Slotted

end Ext4
