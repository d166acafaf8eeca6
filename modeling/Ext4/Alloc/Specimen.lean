import Ext4.Alloc.InodeSpec

namespace Ext4

open Bytes SuperBlock

structure Specimen where
  blocks : Nat
  taken : Nat
  credits : Nat
  taken_ge : 5 ≤ taken
  taken_le : taken ≤ blocks
  blocks_le : blocks ≤ 32768

namespace Specimen

theorem bits_16 : 16 ≤ 32768 := by decide

theorem bits_32 : 32 ≤ 32768 := by decide

theorem bits_64 : 64 ≤ 32768 := by decide

theorem taken_5 : 5 ≤ 5 := by decide

theorem taken_16 : 5 ≤ 16 := by decide

theorem full_16 : 16 ≤ 16 := by decide

variable (v : Specimen)

def sb : SuperBlock where
  inodesCount := 16
  blocksCount := v.blocks
  freeBlocksCount := v.blocks - v.taken
  freeInodesCount := 4
  firstDataBlock := 0
  blocksPerGroup := 32768
  inodesPerGroup := 16
  nrBlockGroups := 1
  descSize := 32
  firstIno := 11
  lastOrphan := none
  is64bit := false
  hasMetadataCsum := false

def desc : BlockGroupDesc where
  blockBitmapBid := 2
  inodeBitmapBid := 3
  inodeTableBid := 4
  freeBlocksCount := v.blocks - v.taken
  freeInodesCount := 4
  usedDirsCount := 1
  flags := 0
  itableUnused := 4

def group : BlockGroup where
  groupIdx := 0
  firstBlock := 0
  lastBlock := v.blocks - 1
  nrInodeTableBlocksPerGroup := 1
  nrInodesPerGroup := 16
  nrBlocksPerGroup := 32768
  descSize := 32
  descOffset := 4096
  csumSeed := none
  metadata := {
    desc := v.desc
    blockBitmap := .fromBuf (setBits (zeros _) 0 v.taken true) v.blocks v.blocks_le
    inodeBitmap := .fromBuf (setBits (zeros _) 0 12 true) 16 (by decide) }

def device : Nat → Option Block
  | 0 => some (v.sb.patchInto none (zeros _))
  | 1 => some (v.desc.patchInto 4096 (zeros _))
  | 2 => some (setBits (zeros _) 0 v.taken true)
  | 3 => some (setBits (zeros _) 0 12 true)
  | _ => some (zeros _)

def txn : Transaction :=
  { Transaction.new (Tid.ofNat 1) with tUpdates := 1, outstandingCredits := v.credits }

def journal (g : JournalGeometry) : Journal :=
  let j := Journal.new g (Tid.ofNat 1) none 0
  { j with state := { j.state with running := some v.txn, nextTid := Tid.ofNat 2 } }

def fs (g : JournalGeometry) : Fs where
  sb := v.sb
  groups := fun _ => v.group
  journal := some (v.journal g)
  handle := some (journalStart (Tid.ofNat 1) v.credits)
  device := v.device

variable (g : JournalGeometry)

theorem live : (v.fs g).Live (journalStart (Tid.ofNat 1) v.credits) (v.journal g) v.txn where
  handle := rfl
  journal := rfl
  serves := ⟨.inr rfl, rfl, rfl⟩
  credits := le_rfl

theorem wf : (v.fs g).layout.Wf := by
  have hge := v.taken_ge
  have hle := v.taken_le
  have hblocks := v.blocks_le
  constructor <;> simp [Fs.layout, Specimen.fs, frame, Specimen.sb, BlockGroup.layout,
    Specimen.group, Specimen.desc, IdBitmap.fromBuf, superblockBid] <;> omega

theorem systemBids_eq : (v.fs g).layout.systemBids = {0, 1, 2, 3} := by
  simp [Layout.systemBids, Fs.layout, Specimen.fs, frame, Specimen.sb, BlockGroup.layout,
    Specimen.group, Specimen.desc, GroupLayout.metaBids, superblockBid]
  decide

theorem blockUsed_eq {b : Nat} (hb : b < v.blocks) : (v.fs g).blockUsed b = decide (b < v.taken) := by
  have hblocks := v.blocks_le
  have hbit : (v.fs g).blockUsed b = bitAt (setBits (zeros 4096) 0 v.taken true) b := rfl
  rw [hbit]
  by_cases h : b < v.taken
  · rw [bitAt_setBits_mem _ _ (by omega) zero_le (by omega)]
    simp [h]
  · rw [bitAt_setBits_not_mem _ _ (.inr (by omega))]
    simp [h]

theorem synced : (v.fs g).Synced where
  blockBitmap _ _ := rfl
  inodeBitmap _ _ := rfl
  desc idx hidx := by
    have hcount : BlockGroupDesc.readCounters (4096 % 4096) (v.desc.patchInto 4096 (zeros _)) =
        v.desc.counters := BlockGroupDesc.readCounters_patchInto_same v.desc (by decide)
    have himage : (v.fs g).image 1 = some (v.desc.patchInto 4096 (zeros _)) := rfl
    have hbid : ((v.fs g).groups idx).descBlockBid = 1 := by
      simp [BlockGroup.descBlockBid, Specimen.fs, Specimen.group]
    exact ⟨_, hbid ▸ himage, hcount⟩
  superblock := ⟨v.sb.patchInto none (zeros _), rfl, readCounters_patchInto v.sb none _⟩

theorem covers {S : Finset Nat} {n : Nat} (h : S.card + n ≤ v.credits) : (v.fs g).Covers S n := by
  rw [(v.live g).covers]
  exact le_trans (Nat.add_le_add_right (Finset.card_filter_le _ _) n) h

def wide : JournalGeometry where
  blockMap := List.range 64
  superblock := { JournalGeometry.small.superblock with
    maxlen := 64
    maxlen_lt := by decide
    first_lt := by decide }
  maxlen_le := by decide
  map_lt := by decide

end Specimen

end Ext4
